/-!
# Comparisons

The five comparisons a condition clause or a range scan can ask for, and the
orderings each of them accepts. A comparison is read against the ordering of
a stored value with respect to the operand: `gt` accepts a stored value that
is greater than the operand.

Main statement: `accepts_partition` — every ordering is accepted by exactly
one of `gt`, `eq` and `lt`.
-/

namespace ColumnDb

/-- A comparison of a stored value against an operand. -/
inductive Comparison where
  | gt
  | ge
  | lt
  | le
  | eq
deriving DecidableEq, Repr, Inhabited

namespace Comparison

/-- The symbol a condition writes for the comparison. -/
def symbol : Comparison → String
  | gt => ">"
  | ge => ">="
  | lt => "<"
  | le => "<="
  | eq => "=="

/-- Reads a comparison from its symbol. -/
def ofSymbol? : String → Option Comparison
  | ">" => some gt
  | ">=" => some ge
  | "<" => some lt
  | "<=" => some le
  | "==" => some eq
  | _ => none

/-- Whether a stored value whose ordering against the operand is `o` satisfies the comparison. -/
def accepts : Comparison → Ordering → Bool
  | gt, o => o == .gt
  | ge, o => o != .lt
  | lt, o => o == .lt
  | le, o => o != .gt
  | eq, o => o == .eq

theorem ofSymbol_symbol (c : Comparison) : ofSymbol? c.symbol = some c := by
  cases c <;> rfl

theorem accepts_partition (o : Ordering) :
    [gt.accepts o, eq.accepts o, lt.accepts o].count true = 1 := by
  cases o <;> rfl

end Comparison

end ColumnDb
