import ColumnDb.Order.Comparison

/-!
# Conditions

A condition selects rows of a collection. It is either empty (every row), one
clause comparing a column against a literal, or a run of operands joined by
connectors, where `connectors[i]` joins `operands[i]` and `operands[i+1]`.
-/

namespace ColumnDb.Query

/-- The word joining two operands of a condition. -/
inductive Connector where
  | and
  | or
deriving DecidableEq, Repr, Inhabited

/-- The symbol a condition writes for a connector. -/
def Connector.symbol : Connector → String
  | .and => "&&"
  | .or => "||"

/-- One comparison of a column against a literal, with quotes removed and escapes resolved. -/
structure Clause where
  column : String
  comparison : Comparison
  literal : String
deriving DecidableEq, Repr, Inhabited

/-- A parsed condition. -/
inductive Condition where
  /-- No clause at all: every row. -/
  | all
  | clause (c : Clause)
  | compound (operands : List Condition) (connectors : List Connector)
deriving Repr, Inhabited

/-- Whether the condition is the empty one. -/
def Condition.isAll : Condition → Bool
  | .all => true
  | _ => false

end ColumnDb.Query
