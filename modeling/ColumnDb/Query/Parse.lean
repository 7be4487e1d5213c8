import ColumnDb.Query.Condition
import ColumnDb.Text.Blank

/-!
# Reading conditions

A condition is read in one left-to-right scan over its characters. A group in
parentheses is located by its matching parenthesis and read by the same scan
over its inner range, so every error position is a character index into the
whole condition.

The scan is `scanRange`: each step uses up at least one character, and a group
is read over a range strictly inside the current one, which is its measure.
-/

namespace ColumnDb.Query

open ColumnDb.Text

/-- Why a condition cannot be read. -/
inductive ParseFault where
  | emptyGroup
  | columnExpected
  | unexpectedAfterColumn (c : Char)
  | operatorExpected
  | invalidOperator
  | valueExpected
  | unmatchedClose
  | connectorExpected
  | unterminatedString
  | incomplete
  | closeExpected
deriving DecidableEq, Repr, Inhabited

/-- The sentence that reports a fault. -/
def ParseFault.reason : ParseFault → String
  | .emptyGroup => "empty group"
  | .columnExpected => "column name expected"
  | .unexpectedAfterColumn c => "unexpected '" ++ c.toString ++ "' after column name"
  | .operatorExpected => "operator expected"
  | .invalidOperator => "invalid operator, \x7b>, >=, <, <=, ==, &&, ||\x7d are supported"
  | .valueExpected => "value expected"
  | .unmatchedClose => "unmatched ')'"
  | .connectorExpected => "'&&' or '||' expected"
  | .unterminatedString => "unterminated string"
  | .incomplete => "Incomplete expression"
  | .closeExpected => "')' expected"

/-- A condition that cannot be read, with the character index where reading stopped. -/
structure ParseError where
  expression : String
  position : Nat
  fault : ParseFault
deriving DecidableEq, Repr, Inhabited

/-- The message of a parse error: the fault, its position and the whole condition. -/
def ParseError.message (e : ParseError) : String :=
  e.fault.reason ++ " at position " ++ toString e.position ++ " in '" ++ e.expression ++ "'"

/-- Characters that make up operators and connectors. -/
def isOperatorChar (c : Char) : Bool :=
  c == '<' || c == '>' || c == '=' || c == '!' || c == '&' || c == '|'

/-- Characters that end an unquoted value. -/
def isValueEnd (c : Char) : Bool :=
  isBlank c || c == '(' || c == ')' || c == '&' || c == '|'

/-- Characters that may stand in a column name or an unquoted value's first position. -/
def isWordChar (c : Char) : Bool :=
  !isBlank c && !isOperatorChar c && c != '(' && c != ')' && c != '\'' && c != '"'

/-- Where the scan stands between two characters. -/
inductive ScanState where
  | operand
  | column
  | afterColumn
  | operator
  | beforeValue
  | unquoted
  | quoted (quote : Char) (start : Nat)
  | afterOperand
  | connector
deriving DecidableEq, Repr, Inhabited

/-- Everything the scan has gathered so far in one range. -/
structure Scan where
  state : ScanState := .operand
  operands : Array Condition := #[]
  connectors : Array Connector := #[]
  token : String := ""
  tokenStart : Nat := 0
  column : String := ""
  comparison : Option Comparison := none
deriving Inhabited

namespace Scan

/-- A fault at a character index. -/
abbrev Step (α : Type) := Except (Nat × ParseFault) α

/-- Closes the clause gathered so far with the token as its literal. -/
def pushClause (sc : Scan) (pos : Nat) : Step Scan :=
  match sc.comparison with
  | none => .error (pos, .operatorExpected)
  | some cmp =>
    .ok { sc with
      operands := sc.operands.push (.clause ⟨sc.column, cmp, sc.token⟩)
      column := "", comparison := none, token := "" }

/-- Closes the connector token gathered so far. -/
def closeConnector (sc : Scan) : Step Scan :=
  match sc.token with
  | "&&" => .ok { sc with connectors := sc.connectors.push .and, token := "", state := .operand }
  | "||" => .ok { sc with connectors := sc.connectors.push .or, token := "", state := .operand }
  | _ => .error (sc.tokenStart, .invalidOperator)

/-- The step of the scan expecting an operand, for any character but an opening parenthesis. -/
def operandStep (sc : Scan) (i : Nat) (c : Char) : Step Scan :=
  if isWordChar c then .ok { sc with token := c.toString, state := .column }
  else if isBlank c then .ok sc
  else .error (i, .columnExpected)

/-- The step of the scan after a value, expecting a connector. -/
def afterOperandStep (sc : Scan) (i : Nat) (c : Char) : Step Scan :=
  if c == '&' || c == '|' then
    .ok { sc with token := c.toString, tokenStart := i, state := .connector }
  else if c == ')' then .error (i, .unmatchedClose)
  else if isBlank c then .ok sc
  else .error (i, .connectorExpected)

/-- The step of the scan after an operator, expecting a value. -/
def beforeValueStep (sc : Scan) (i : Nat) (c : Char) : Step Scan :=
  if c == '\'' || c == '"' then .ok { sc with state := .quoted c i }
  else if (isValueEnd c && !isBlank c) || isOperatorChar c then .error (i, .valueExpected)
  else if isBlank c then .ok sc
  else .ok { sc with token := sc.token.push c, state := .unquoted }

/-- One character of the scan, with the character after it when the range holds one. The
answer says whether that next character was used up too (an escaped quote). -/
def step (sc : Scan) (i : Nat) (c : Char) (next : Option Char) : Step (Scan × Bool) :=
  match sc.state with
  | .operand => (·, false) <$> sc.operandStep i c
  | .column =>
    if isWordChar c then .ok ({ sc with token := sc.token.push c }, false)
    else if isBlank c then .ok ({ sc with column := sc.token, token := "", state := .afterColumn }, false)
    else if isOperatorChar c then
      .ok ({ sc with column := sc.token, token := c.toString, tokenStart := i, state := .operator }, false)
    else .error (i, .unexpectedAfterColumn c)
  | .afterColumn =>
    if isOperatorChar c then
      .ok ({ sc with token := sc.token.push c, tokenStart := i, state := .operator }, false)
    else if isBlank c then .ok (sc, false)
    else .error (i, .operatorExpected)
  | .operator =>
    if isOperatorChar c then .ok ({ sc with token := sc.token.push c }, false)
    else
      match Comparison.ofSymbol? sc.token with
      | none => .error (sc.tokenStart, .invalidOperator)
      | some cmp =>
        (·, false) <$> ({ sc with comparison := some cmp, token := "", state := .beforeValue } : Scan).beforeValueStep i c
  | .beforeValue => (·, false) <$> sc.beforeValueStep i c
  | .unquoted =>
    if isValueEnd c then do
      let sc ← sc.pushClause i
      (·, false) <$> ({ sc with state := .afterOperand } : Scan).afterOperandStep i c
    else .ok ({ sc with token := sc.token.push c }, false)
  | .quoted quote _ =>
    if c == '\\' && next == some quote then .ok ({ sc with token := sc.token.push quote }, true)
    else if c == quote then do
      let sc ← sc.pushClause i
      .ok ({ sc with state := .afterOperand }, false)
    else .ok ({ sc with token := sc.token.push c }, false)
  | .afterOperand => (·, false) <$> sc.afterOperandStep i c
  | .connector =>
    if isOperatorChar c then .ok ({ sc with token := sc.token.push c }, false)
    else do
      let sc ← sc.closeConnector
      (·, false) <$> sc.operandStep i c

/-- The condition a finished range holds, or why the range ended too early. -/
def finish (sc : Scan) (stop : Nat) : Step Condition := do
  let sc ← match sc.state with
    | .operand => if sc.operands.isEmpty then return .all else .error (stop - 1, .incomplete)
    | .unquoted => sc.pushClause stop
    | .quoted _ start => .error (start, .unterminatedString)
    | .afterOperand => pure sc
    | _ => .error (stop - 1, .incomplete)
  if sc.connectors.isEmpty && sc.operands.size == 1 then
    return sc.operands.getD 0 .all
  return .compound sc.operands.toList sc.connectors.toList

end Scan

/-- The index of the parenthesis closing the one at `i`, skipping quoted text, searched
before `stop`; `depth` counts the parentheses open so far and `quote` the open quote. -/
def closingParen (cs : Array Char) (stop : Nat) (i depth : Nat) (quote : Option Char) : Option Nat :=
  if _ : i < stop then
    let c := cs.getD i ' '
    match quote with
    | some q =>
      if c == '\\' && i + 1 < stop && cs.getD (i + 1) ' ' == q then
        closingParen cs stop (i + 2) depth quote
      else if c == q then closingParen cs stop (i + 1) depth none
      else closingParen cs stop (i + 1) depth quote
    | none =>
      if c == '\'' || c == '"' then closingParen cs stop (i + 1) depth (some c)
      else if c == '(' then closingParen cs stop (i + 1) (depth + 1) none
      else if c == ')' then
        if depth - 1 == 0 then some i else closingParen cs stop (i + 1) (depth - 1) none
      else closingParen cs stop (i + 1) depth none
  else none
termination_by stop - i

/-- Reads the characters of `cs` from `i` up to `stop`, continuing the scan `sc`. -/
def scanRange (cs : Array Char) (stop : Nat) (i : Nat) (sc : Scan) : Scan.Step Condition :=
  if _ : i < stop then
    let c := cs.getD i ' '
    let next := if i + 1 < stop then some (cs.getD (i + 1) ' ') else none
    -- a connector ends at the first character that is no operator character
    match (if sc.state == .connector && !isOperatorChar c then sc.closeConnector else .ok sc) with
    | .error e => .error e
    | .ok sc =>
      if sc.state == .operand && c == '(' then
        match closingParen cs stop i 0 none with
        | none => .error (i, .closeExpected)
        | some close =>
          if _ : i < close ∧ close < stop then
            match scanRange cs close (i + 1) {} with
            | .error e => .error e
            | .ok inner =>
              if inner.isAll then .error (i, .emptyGroup)
              else scanRange cs stop (close + 1)
                { sc with operands := sc.operands.push inner, state := .afterOperand }
          else .error (i, .closeExpected)
      else
        match sc.step i c next with
        | .error e => .error e
        | .ok (sc, skip) => scanRange cs stop (if skip then i + 2 else i + 1) sc
  else sc.finish stop
termination_by stop - i
decreasing_by all_goals (try split) <;> omega

/-- Reads a condition. A blank condition is `Condition.all`. -/
def parse (text : String) : Except ParseError Condition :=
  let cs := text.toList.toArray
  match scanRange cs cs.size 0 {} with
  | .ok c => .ok c
  | .error (pos, fault) => .error ⟨text, pos, fault⟩

end ColumnDb.Query
