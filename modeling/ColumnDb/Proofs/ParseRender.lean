import Mathlib
import ColumnDb.Query.Parse

/-!
# Written conditions read back

`Condition.render` writes a condition the way a program would: a clause as
`column symbol 'literal'` with a backslash before each quote of the literal, the operands of a
compound joined by ` && ` and ` || `, and an operand that is itself a compound in parentheses.
Every condition whose columns are runs of word characters, whose literals do not end in a
backslash and whose compounds have at least two operands, none of them empty, reads back as
itself (`parse_render`).

The scan is followed piece by piece. `Passes cs stop i l sc sc'` says that scanning the characters
`l` at `i` takes the scan from `sc` to `sc'`, whatever follows them; passes chain along a text
(`Passes.append`). A clause passes from a scan expecting an operand to one after it with the clause
gathered (`passes_clause`), a connector back to expecting an operand (`passes_connector`), and a
group in parentheses is read by the same scan over its inner range, found by `closingParen`, which
skips every written condition whole (`skips_joined`).
-/

set_option autoImplicit false

namespace ColumnDb.Query

open ColumnDb.Text

/-! ## Writing conditions -/

/-- Writes a literal for single quotes: a backslash before each quote. -/
def escapeQuotes : List Char → List Char
  | [] => []
  | c :: cs => if c = '\'' then '\\' :: '\'' :: escapeQuotes cs else c :: escapeQuotes cs

/-- A literal between single quotes. -/
def quoteLiteral (s : String) : List Char := '\'' :: (escapeQuotes s.toList ++ ['\''])

/-- A clause as written: `column symbol 'literal'`. -/
def Clause.render (cl : Clause) : List Char :=
  cl.column.toList ++ [' '] ++ cl.comparison.symbol.toList ++ [' '] ++ quoteLiteral cl.literal

/-- A clause that reads back: its column a run of word characters, at least one, and its literal
not ending in a backslash, which would escape the closing quote. -/
def Clause.reads (cl : Clause) : Bool :=
  !cl.column.isEmpty && cl.column.toList.all isWordChar && cl.literal.toList.getLast? != some '\\'

mutual
/-- A condition as written: nothing for every row, a clause as it is, a compound's operands joined
by its connectors. -/
def Condition.render : Condition → List Char
  | .all => []
  | .clause cl => cl.render
  | .compound os ks => Condition.renderJoined os ks

/-- An operand as written: a compound in parentheses. -/
def Condition.renderOperand : Condition → List Char
  | .all => []
  | .clause cl => cl.render
  | .compound os ks => ['('] ++ Condition.renderJoined os ks ++ [')']

/-- Operands joined by connectors, `connectors[i]` between `operands[i]` and `operands[i+1]`. -/
def Condition.renderJoined : List Condition → List Connector → List Char
  | [], _ => []
  | o :: os, ks => o.renderOperand ++ Condition.renderRest os ks

/-- The operands after the first, each after its connector. -/
def Condition.renderRest : List Condition → List Connector → List Char
  | o :: os, k :: ks => [' '] ++ k.symbol.toList ++ [' '] ++ o.renderOperand ++ Condition.renderRest os ks
  | _, _ => []
end

mutual
/-- A condition that reads back: its clauses read back, and each compound has at least two
operands, none of them empty, with a connector between each two. -/
def Condition.reads : Condition → Bool
  | .all => true
  | .clause cl => cl.reads
  | .compound os ks => 2 ≤ os.length && ks.length + 1 == os.length && Condition.operandsRead os

/-- Operands that read back, none of them empty. -/
def Condition.operandsRead : List Condition → Bool
  | [] => true
  | o :: os => !o.isAll && o.reads && Condition.operandsRead os
end

/-! ## Characters at a place -/

/-- The characters of `cs` from `i` on begin with `l`. -/
def At (cs : Array Char) (i : Nat) (l : List Char) : Prop :=
  ∀ j, j < l.length → cs[i + j]? = l[j]?

variable {cs : Array Char} {stop i : Nat}

theorem at_cons {c : Char} {l : List Char} : At cs i (c :: l) ↔ cs[i]? = some c ∧ At cs (i + 1) l := by
  constructor
  · intro h
    refine ⟨by simpa using h 0 (by simp), fun j hj => ?_⟩
    have := h (j + 1) (by simpa using hj)
    rwa [List.getElem?_cons_succ, show i + (j + 1) = i + 1 + j by omega] at this
  · rintro ⟨hc, hl⟩ j hj
    cases j with
    | zero => simpa using hc
    | succ j =>
      have := hl j (by simpa using hj)
      rwa [List.getElem?_cons_succ, show i + (j + 1) = i + 1 + j by omega]

theorem at_append {l₁ l₂ : List Char} : At cs i (l₁ ++ l₂) ↔ At cs i l₁ ∧ At cs (i + l₁.length) l₂ := by
  constructor
  · intro h
    refine ⟨fun j hj => ?_, fun j hj => ?_⟩
    · rw [← List.getElem?_append_left hj]
      exact h j (by simp; omega)
    · have := h (l₁.length + j) (by simp; omega)
      rwa [List.getElem?_append_right (by omega), Nat.add_sub_cancel_left, ← Nat.add_assoc] at this
  · rintro ⟨h₁, h₂⟩ j hj
    by_cases hj₁ : j < l₁.length
    · rw [List.getElem?_append_left hj₁]
      exact h₁ j hj₁
    · rw [List.getElem?_append_right (by omega)]
      have := h₂ (j - l₁.length) (by simp at hj; omega)
      rwa [show i + l₁.length + (j - l₁.length) = i + j by omega] at this

theorem at_toArray (l : List Char) : At l.toArray 0 l := fun j _ => by
  simp

/-- The character the scan reads at a place. -/
theorem getD_of_at {c : Char} {l : List Char} (h : At cs i (c :: l)) : cs.getD i ' ' = c := by
  rw [Array.getD_eq_getD_getElem?, (at_cons.mp h).1]
  rfl

/-! ## Following the scan -/

/-- Scanning the characters `l` at `i` takes the scan from `sc` to `sc'`, whatever follows them
before `stop`. -/
def Passes (cs : Array Char) (stop i : Nat) (l : List Char) (sc sc' : Scan) : Prop :=
  scanRange cs stop i sc = scanRange cs stop (i + l.length) sc'

theorem Passes.append {l₁ l₂ : List Char} {sc₁ sc₂ sc₃ : Scan} (h₁ : Passes cs stop i l₁ sc₁ sc₂)
    (h₂ : Passes cs stop (i + l₁.length) l₂ sc₂ sc₃) : Passes cs stop i (l₁ ++ l₂) sc₁ sc₃ := by
  unfold Passes at h₁ h₂ ⊢
  rw [h₁, h₂, List.length_append, Nat.add_assoc]

theorem scanRange_of_le {sc : Scan} (h : stop ≤ i) : scanRange cs stop i sc = sc.finish stop := by
  rw [scanRange, dif_neg (by omega)]

/-- One character that is no opening parenthesis before an operand and closes no connector: the
scan takes its step. -/
theorem scanRange_of_step {sc sc' : Scan} {c : Char} {skip : Bool} (h : i < stop) (hc : cs.getD i ' ' = c)
    (hconn : sc.state = .connector → isOperatorChar c = true) (hparen : sc.state = .operand → c ≠ '(')
    (hstep : sc.step i c (if i + 1 < stop then some (cs.getD (i + 1) ' ') else none) = .ok (sc', skip)) :
    scanRange cs stop i sc = scanRange cs stop (if skip then i + 2 else i + 1) sc' := by
  rw [scanRange, dif_pos h]
  simp only [hc]
  have hclose : (sc.state == .connector && !isOperatorChar c) = false := by
    by_cases hs : sc.state = .connector
    · simp [hconn hs]
    · simp [hs]
  have hop : (sc.state == .operand && c == '(') = false := by
    by_cases hs : sc.state = .operand
    · simp [hparen hs]
    · simp [hs]
  simp only [hclose, Bool.false_eq_true, if_false, hop, hstep]

/-- One character the scan takes a plain step over. -/
theorem passes_of_step {sc sc' : Scan} {c : Char} (h : i < stop) (hc : cs.getD i ' ' = c)
    (hconn : sc.state = .connector → isOperatorChar c = true) (hparen : sc.state = .operand → c ≠ '(')
    (hstep : sc.step i c (if i + 1 < stop then some (cs.getD (i + 1) ' ') else none) = .ok (sc', false)) :
    Passes cs stop i [c] sc sc' :=
  scanRange_of_step h hc hconn hparen hstep

/-- Two characters the scan takes in one step, an escaped quote. -/
theorem passes_of_skip {sc sc' : Scan} {c d : Char} (h : i < stop) (hc : cs.getD i ' ' = c)
    (hconn : sc.state = .connector → isOperatorChar c = true) (hparen : sc.state = .operand → c ≠ '(')
    (hstep : sc.step i c (if i + 1 < stop then some (cs.getD (i + 1) ' ') else none) = .ok (sc', true)) :
    Passes cs stop i [c, d] sc sc' :=
  scanRange_of_step h hc hconn hparen hstep

/-- A blank after a connector closes it, and the scan expects an operand. -/
theorem scanRange_of_close {sc sc' : Scan} (h : i < stop) (hc : cs.getD i ' ' = ' ') (hs : sc.state = .connector)
    (hclose : sc.closeConnector = .ok sc') :
    scanRange cs stop i sc = scanRange cs stop (i + 1) sc' := by
  rw [scanRange, dif_pos h]
  have hs' : sc'.state = .operand := by
    unfold Scan.closeConnector at hclose
    split at hclose <;> first | (cases hclose; rfl) | cases hclose
  simp only [hc, hs, beq_self_eq_true, Bool.true_and, show isOperatorChar ' ' = false by decide,
    Bool.not_false, if_true, hclose, hs', show (' ' == '(') = false by decide, Bool.and_false,
    Bool.false_eq_true, if_false]
  simp [Scan.step, hs', Scan.operandStep, show isWordChar ' ' = false by decide,
    show isBlank ' ' = true by decide]

/-- An opening parenthesis before an operand: the group up to its closing parenthesis is read by
the same scan, and the scan goes on after it with the group as an operand. -/
theorem scanRange_of_group {sc : Scan} {close : Nat} {inner : Condition} (h : i < stop)
    (hc : cs.getD i ' ' = '(') (hs : sc.state = .operand) (hclose : closingParen cs stop i 0 none = some close)
    (hlt : i < close) (hcs : close < stop) (hinner : scanRange cs close (i + 1) {} = .ok inner)
    (hall : inner.isAll = false) :
    scanRange cs stop i sc =
      scanRange cs stop (close + 1) { sc with operands := sc.operands.push inner, state := .afterOperand } := by
  rw [scanRange, dif_pos h]
  simp only [hc, hs, show (ScanState.operand == .connector) = false by decide, Bool.false_and,
    Bool.false_eq_true, if_false, beq_self_eq_true, Bool.true_and, if_true, hclose, dif_pos (And.intro hlt hcs),
    hinner, hall]

/-! ## Gathering a clause -/

/-- A scan standing in `st`, having gathered the operands `os` and the connectors `ks`, with no
token, column or comparison pending. -/
structure Scan.Stands (sc : Scan) (st : ScanState) (os : List Condition) (ks : List Connector) : Prop where
  state : sc.state = st
  operands : sc.operands.toList = os
  connectors : sc.connectors.toList = ks
  token : sc.token = ""
  column : sc.column = ""
  comparison : sc.comparison = none

theorem stands_empty : ({} : Scan).Stands .operand [] [] := ⟨rfl, rfl, rfl, rfl, rfl, rfl⟩

theorem toList_foldl_push (l : List Char) (s : String) : (l.foldl String.push s).toList = s.toList ++ l := by
  induction l generalizing s with
  | nil => simp
  | cons c l ih => simp [ih]

/-- In a state that gathers a class of characters onto the token, a run of them goes onto it. -/
theorem passes_gather {st : ScanState} {P : Char → Bool} (hop : st ≠ .operand)
    (hconn : st = .connector → ∀ c, P c = true → isOperatorChar c = true)
    (hpush : ∀ (sc : Scan) j c next, sc.state = st → P c = true →
      sc.step j c next = .ok ({ sc with token := sc.token.push c }, false)) :
    ∀ (l : List Char) {i : Nat} {sc : Scan}, sc.state = st → (∀ c ∈ l, P c = true) → At cs i l →
      i + l.length ≤ stop → Passes cs stop i l sc { sc with token := l.foldl String.push sc.token }
  | [], _, _, _, _, _, _ => rfl
  | c :: l, i, sc, hs, hP, hat, hstop => by
    have hc : P c = true := hP c List.mem_cons_self
    have hstep : scanRange cs stop i sc = scanRange cs stop (i + 1) { sc with token := sc.token.push c } :=
      scanRange_of_step (by simp at hstop; omega) (getD_of_at hat) (fun h => hconn (hs ▸ h) c hc)
        (fun h => absurd (hs.symm.trans h) hop) (hpush sc i c _ hs hc)
    have ih : Passes cs stop (i + 1) l { sc with token := sc.token.push c } _ := passes_gather hop hconn hpush l hs
      (fun c' hc' => hP c' (List.mem_cons_of_mem c hc')) (at_cons.mp hat).2 (by simp at hstop; omega)
    unfold Passes at ih ⊢
    rw [hstep, ih, List.length_cons, List.foldl_cons, Nat.add_assoc, Nat.add_comm 1]

/-- A column name and the blank after it: the scan stands after the column. -/
theorem passes_column {sc : Scan} {col : List Char} (hs : sc.state = .operand) (hne : col ≠ [])
    (hw : ∀ c ∈ col, isWordChar c = true) (hat : At cs i (col ++ [' '])) (hstop : i + col.length + 1 ≤ stop) :
    Passes cs stop i (col ++ [' ']) sc { sc with column := String.ofList col, token := "", state := .afterColumn } := by
  obtain ⟨c, rest, rfl⟩ := List.exists_cons_of_ne_nil hne
  have hc : isWordChar c = true := hw c List.mem_cons_self
  have hat' := at_cons.mp (by rwa [List.cons_append] at hat)
  have hrest := at_append.mp hat'.2
  simp only [List.length_cons] at hstop
  -- the first character starts the column name, the others go onto it, the blank ends it
  have h₁ : Passes cs stop i [c] sc { sc with token := c.toString, state := .column } :=
    passes_of_step (by omega) (getD_of_at (by rwa [List.cons_append] at hat)) (fun h => by rw [hs] at h; cases h)
      (fun _ h => by rw [h] at hc; cases hc) (by simp [Scan.step, hs, Scan.operandStep, hc])
  have h₂ : Passes cs stop (i + 1) rest { sc with token := c.toString, state := .column }
      { sc with token := rest.foldl String.push c.toString, state := .column } :=
    passes_gather (show ScanState.column ≠ .operand by decide) (fun h => by cases h)
      (fun sc j c next hs hc => by simp [Scan.step, hs, hc]) rest rfl
      (fun c' hc' => hw c' (List.mem_cons_of_mem c hc')) hrest.1 (by omega)
  have h₃ : Passes cs stop (i + 1 + rest.length) [' '] { sc with token := rest.foldl String.push c.toString, state := .column }
      { sc with column := rest.foldl String.push c.toString, token := "", state := .afterColumn } :=
    passes_of_step (by omega) (getD_of_at hrest.2) (fun h => by cases h) (fun h => by cases h)
      (by simp [Scan.step, show isWordChar ' ' = false by decide, show isBlank ' ' = true by decide])
  have hcol : rest.foldl String.push c.toString = String.ofList (c :: rest) :=
    String.ext (by simp [toList_foldl_push])
  have h := h₁.append (h₂.append h₃)
  rwa [hcol] at h

/-- A comparison's symbol is one or two operator characters. -/
theorem symbol_toList (cmp : Comparison) :
    ∃ c rest, cmp.symbol.toList = c :: rest ∧ ∀ c' ∈ c :: rest, isOperatorChar c' = true := by
  cases cmp
  · exact ⟨'>', [], rfl, by simp [isOperatorChar]⟩
  · exact ⟨'>', ['='], rfl, by simp [isOperatorChar]⟩
  · exact ⟨'<', [], rfl, by simp [isOperatorChar]⟩
  · exact ⟨'<', ['='], rfl, by simp [isOperatorChar]⟩
  · exact ⟨'=', ['='], rfl, by simp [isOperatorChar]⟩

/-- A comparison's symbol and the blank after it: the scan has the comparison and expects a value. -/
theorem passes_symbol {sc : Scan} (cmp : Comparison) (hs : sc.state = .afterColumn) (ht : sc.token = "")
    (hat : At cs i (cmp.symbol.toList ++ [' '])) (hstop : i + cmp.symbol.toList.length + 1 ≤ stop) :
    Passes cs stop i (cmp.symbol.toList ++ [' ']) sc
      { sc with comparison := some cmp, token := "", tokenStart := i, state := .beforeValue } := by
  obtain ⟨c, rest, hsym, hop⟩ := symbol_toList cmp
  rw [hsym] at hat hstop ⊢
  have hc : isOperatorChar c = true := hop c List.mem_cons_self
  have hat' := at_cons.mp (by rwa [List.cons_append] at hat)
  have hrest := at_append.mp hat'.2
  simp only [List.length_cons] at hstop
  have htok : rest.foldl String.push (sc.token.push c) = cmp.symbol :=
    String.ext (by simp [toList_foldl_push, ht, hsym])
  -- the first character starts the symbol, the others go onto it, the blank ends it
  have h₁ : Passes cs stop i [c] sc { sc with token := sc.token.push c, tokenStart := i, state := .operator } :=
    passes_of_step (by omega) (getD_of_at (by rwa [List.cons_append] at hat)) (fun h => by rw [hs] at h; cases h)
      (fun h => by rw [hs] at h; cases h) (by simp [Scan.step, hs, hc])
  have h₂ : Passes cs stop (i + 1) rest { sc with token := sc.token.push c, tokenStart := i, state := .operator }
      { sc with token := rest.foldl String.push (sc.token.push c), tokenStart := i, state := .operator } :=
    passes_gather (show ScanState.operator ≠ .operand by decide) (fun h => by cases h)
      (fun sc j c next hs hc => by simp [Scan.step, hs, hc]) rest rfl
      (fun c' hc' => hop c' (List.mem_cons_of_mem c hc')) hrest.1 (by omega)
  have h₃ : Passes cs stop (i + 1 + rest.length) [' ']
      { sc with token := rest.foldl String.push (sc.token.push c), tokenStart := i, state := .operator }
      { sc with comparison := some cmp, token := "", tokenStart := i, state := .beforeValue } :=
    passes_of_step (by omega) (getD_of_at hrest.2) (fun h => by cases h) (fun h => by cases h)
      (by simp [Scan.step, htok, Comparison.ofSymbol_symbol, Scan.beforeValueStep, isValueEnd,
        show isOperatorChar ' ' = false by decide, show isBlank ' ' = true by decide])
  exact h₁.append (h₂.append h₃)

/-- A written literal starts with no quote: a quote is written after a backslash. -/
theorem escapeQuotes_cons (d : Char) (l : List Char) : ∃ e rest, escapeQuotes (d :: l) = e :: rest ∧ e ≠ '\'' := by
  by_cases hd : d = '\''
  · exact ⟨'\\', _, by rw [escapeQuotes, if_pos hd], by decide⟩
  · exact ⟨d, _, by rw [escapeQuotes, if_neg hd], hd⟩

/-- In a literal that does not end in a backslash, a backslash is written followed by no quote. -/
theorem escapeQuotes_after_backslash {lit : List Char} (hlast : ('\\' :: lit).getLast? ≠ some '\\') :
    ∃ e rest, escapeQuotes lit = e :: rest ∧ e ≠ '\'' := by
  cases lit with
  | nil => simp at hlast
  | cons d lit => exact escapeQuotes_cons d lit

theorem getLast?_ne_of_cons {c x : Char} {lit : List Char} (h : (c :: lit).getLast? ≠ some x) :
    lit.getLast? ≠ some x := by
  cases lit with
  | nil => simp
  | cons d lit => simpa using h

/-- Inside quotes, a character that is no quote, and no backslash before one, goes onto the token. -/
theorem step_quoted {sc : Scan} {q c : Char} {st j : Nat} {next : Option Char} (hs : sc.state = .quoted q st)
    (hq : c ≠ q) (hesc : c = '\\' → next ≠ some q) :
    sc.step j c next = .ok ({ sc with token := sc.token.push c }, false) := by
  by_cases hb : c = '\\'
  · simp [Scan.step, hs, hq, hesc hb]
  · simp [Scan.step, hs, hq, hb]

/-- Inside single quotes, the scan reads a written literal back onto the token, each escaped quote
as one quote, up to the closing quote. -/
theorem passes_literal {st : Nat} : ∀ (lit : List Char) {i : Nat} {sc : Scan}, sc.state = .quoted '\'' st →
    lit.getLast? ≠ some '\\' → At cs i (escapeQuotes lit ++ ['\'']) → i + (escapeQuotes lit).length < stop →
    Passes cs stop i (escapeQuotes lit) sc { sc with token := lit.foldl String.push sc.token }
  | [], _, _, _, _, _, _ => rfl
  | c :: lit, i, sc, hs, hlast, hat, hstop => by
    have hlast' := getLast?_ne_of_cons hlast
    by_cases hq : c = '\''
    · -- a backslash and a quote give one quote
      subst hq
      rw [escapeQuotes, if_pos rfl] at hat hstop ⊢
      simp only [List.cons_append, List.length_cons] at hat hstop
      have hat' := at_cons.mp hat
      have hat'' := at_cons.mp hat'.2
      have hnext : (if i + 1 < stop then some (cs.getD (i + 1) ' ') else none) = some '\'' := by
        rw [if_pos (by omega), getD_of_at hat'.2]
      have h₁ : Passes cs stop i ['\\', '\''] sc { sc with token := sc.token.push '\'' } :=
        passes_of_skip (by omega) (getD_of_at hat) (fun h => by rw [hs] at h; cases h)
            (fun h => by rw [hs] at h; cases h) (by rw [hnext]; simp [Scan.step, hs])
      have ih : Passes cs stop (i + 2) (escapeQuotes lit) { sc with token := sc.token.push '\'' } _ :=
        passes_literal lit hs hlast' hat''.2 (by omega)
      exact h₁.append ih
    · -- any other character goes onto the token: a backslash is followed by no quote, since the
      -- literal does not end in one and the written rest starts with no quote
      rw [escapeQuotes, if_neg hq] at hat hstop ⊢
      simp only [List.cons_append, List.length_cons] at hat hstop
      have hat' := at_cons.mp hat
      have hesc : c = '\\' → (if i + 1 < stop then some (cs.getD (i + 1) ' ') else none) ≠ some '\'' := by
        rintro rfl
        obtain ⟨e, rest, he, hne⟩ := escapeQuotes_after_backslash hlast
        rw [he, List.cons_append] at hat'
        rw [if_pos (by rw [he] at hstop; simp at hstop; omega), getD_of_at hat'.2]
        simpa using hne
      have h₁ : Passes cs stop i [c] sc { sc with token := sc.token.push c } :=
        passes_of_step (by omega) (getD_of_at hat) (fun h => by rw [hs] at h; cases h)
          (fun h => by rw [hs] at h; cases h) (step_quoted hs hq hesc)
      have ih : Passes cs stop (i + 1) (escapeQuotes lit) { sc with token := sc.token.push c } _ :=
        passes_literal lit hs hlast' hat'.2 (by omega)
      exact h₁.append ih

/-- A literal in quotes after a comparison: the clause is gathered, and the scan stands after it. -/
theorem passes_quoted {sc : Scan} {cmp : Comparison} {lit : String} (hs : sc.state = .beforeValue)
    (ht : sc.token = "") (hcmp : sc.comparison = some cmp) (hlast : lit.toList.getLast? ≠ some '\\')
    (hat : At cs i (quoteLiteral lit)) (hstop : i + (quoteLiteral lit).length ≤ stop) :
    Passes cs stop i (quoteLiteral lit) sc
      { sc with
        operands := sc.operands.push (.clause ⟨sc.column, cmp, lit⟩), column := "", comparison := none,
        token := "", state := .afterOperand } := by
  unfold quoteLiteral at hat hstop ⊢
  simp only [List.length_cons, List.length_append, List.length_nil] at hstop
  have hat' := at_cons.mp hat
  have hrest := at_append.mp hat'.2
  have htok : lit.toList.foldl String.push sc.token = lit := String.ext (by simp [toList_foldl_push, ht])
  -- the opening quote, the literal, the closing quote
  have h₁ : Passes cs stop i ['\''] sc { sc with state := .quoted '\'' i } :=
    passes_of_step (by omega) (getD_of_at hat) (fun h => by rw [hs] at h; cases h)
      (fun h => by rw [hs] at h; cases h) (by simp [Scan.step, hs, Scan.beforeValueStep])
  have h₂ : Passes cs stop (i + 1) (escapeQuotes lit.toList) { sc with state := .quoted '\'' i }
      { sc with state := .quoted '\'' i, token := lit.toList.foldl String.push sc.token } :=
    passes_literal lit.toList rfl hlast hat'.2 (by omega)
  have h₃ : Passes cs stop (i + 1 + (escapeQuotes lit.toList).length) ['\'']
      { sc with state := .quoted '\'' i, token := lit.toList.foldl String.push sc.token }
      { sc with
        operands := sc.operands.push (.clause ⟨sc.column, cmp, lit.toList.foldl String.push sc.token⟩),
        column := "", comparison := none, token := "", state := .afterOperand } :=
    passes_of_step (by omega) (getD_of_at hrest.2) (fun h => by cases h) (fun h => by cases h)
      (by simp [Scan.step, Scan.pushClause, hcmp, bind, Except.bind, show ('\'' == '\\') = false by decide])
  have h := h₁.append (h₂.append h₃)
  rwa [htok] at h

/-- A clause that reads back, from a scan expecting an operand: the scan gathers it and stands
after it. -/
theorem passes_clause {sc : Scan} {os : List Condition} {ks : List Connector} {cl : Clause} (hcl : cl.reads = true)
    (hs : sc.Stands .operand os ks) (hat : At cs i cl.render) (hstop : i + cl.render.length ≤ stop) :
    ∃ sc', Passes cs stop i cl.render sc sc' ∧ sc'.Stands .afterOperand (os ++ [.clause cl]) ks := by
  simp only [Clause.reads, Bool.and_eq_true, Bool.not_eq_true', String.isEmpty_eq_false_iff, List.all_eq_true,
    bne_iff_ne, ne_eq] at hcl
  obtain ⟨⟨hne, hw⟩, hlast⟩ := hcl
  have hr : cl.render = (cl.column.toList ++ [' ']) ++ ((cl.comparison.symbol.toList ++ [' ']) ++ quoteLiteral cl.literal) := by
    simp [Clause.render]
  rw [hr] at hat hstop ⊢
  obtain ⟨hat₁, hat₂⟩ := at_append.mp hat
  obtain ⟨hat₂, hat₃⟩ := at_append.mp hat₂
  simp only [List.length_append, List.length_singleton] at hstop
  have hb₁ : i + cl.column.toList.length + 1 ≤ stop := by omega
  have hb₂ : i + (cl.column.toList ++ [' ']).length + cl.comparison.symbol.toList.length + 1 ≤ stop := by
    simp only [List.length_append, List.length_singleton]
    omega
  have hb₃ : i + (cl.column.toList ++ [' ']).length + (cl.comparison.symbol.toList ++ [' ']).length +
      (quoteLiteral cl.literal).length ≤ stop := by
    simp only [List.length_append, List.length_singleton]
    omega
  have h₁ := passes_column hs.state (by simpa using hne) hw hat₁ hb₁
  have h₂ : Passes cs stop _ _ { sc with column := String.ofList cl.column.toList, token := "", state := .afterColumn } _ :=
    passes_symbol cl.comparison rfl rfl hat₂ hb₂
  have h₃ : Passes cs stop _ _ { sc with
      column := String.ofList cl.column.toList, comparison := some cl.comparison, token := "",
      tokenStart := i + (cl.column.toList ++ [' ']).length, state := .beforeValue } _ :=
    passes_quoted rfl rfl rfl hlast hat₃ hb₃
  refine ⟨_, h₁.append (h₂.append h₃), ⟨rfl, ?_, hs.connectors, rfl, rfl, rfl⟩⟩
  simp [hs.operands]

/-! ## Connectors and the end of a range -/

/-- A connector's symbol is one operator character twice. -/
theorem connector_symbol_toList (k : Connector) :
    ∃ c, k.symbol.toList = [c, c] ∧ (c = '&' ∨ c = '|') := by
  cases k
  · exact ⟨'&', rfl, .inl rfl⟩
  · exact ⟨'|', rfl, .inr rfl⟩

/-- A connector's symbol gathered on the token closes to the connector. -/
theorem closeConnector_symbol {sc : Scan} {k : Connector} (h : sc.token = k.symbol) :
    sc.closeConnector = .ok { sc with connectors := sc.connectors.push k, token := "", state := .operand } := by
  cases k <;> simp [Scan.closeConnector, h, Connector.symbol]

/-- A connector between blanks, after an operand: the scan gathers it and expects an operand. -/
theorem passes_connector {sc : Scan} {os : List Condition} {ks : List Connector} (k : Connector)
    (hs : sc.Stands .afterOperand os ks) (hat : At cs i ([' '] ++ k.symbol.toList ++ [' ']))
    (hstop : i + 4 ≤ stop) :
    ∃ sc', Passes cs stop i ([' '] ++ k.symbol.toList ++ [' ']) sc sc' ∧ sc'.Stands .operand os (ks ++ [k]) := by
  obtain ⟨c, hsym, hc⟩ := connector_symbol_toList k
  rw [hsym] at hat ⊢
  simp only [List.cons_append, List.nil_append] at hat
  obtain ⟨hc₀, hat₁⟩ := at_cons.mp hat
  obtain ⟨hc₁, hat₂⟩ := at_cons.mp hat₁
  obtain ⟨hc₂, hat₃⟩ := at_cons.mp hat₂
  have hop : isOperatorChar c = true := by rcases hc with rfl | rfl <;> rfl
  have hamp : (c == '&' || c == '|') = true := by rcases hc with rfl | rfl <;> rfl
  have htok : c.toString.push c = k.symbol := String.ext (by simp [hsym])
  -- the blank before, the two characters of the symbol, and the blank that closes it
  have h₀ : Passes cs stop i [' '] sc sc :=
    passes_of_step (by omega) (getD_of_at hat) (fun h => by rw [hs.state] at h; cases h)
      (fun h => by rw [hs.state] at h; cases h)
      (by simp [Scan.step, hs.state, Scan.afterOperandStep, show isBlank ' ' = true by decide])
  have h₁ : Passes cs stop (i + 1) [c] sc { sc with token := c.toString, tokenStart := i + 1, state := .connector } :=
    passes_of_step (by omega) (getD_of_at hat₁) (fun h => by rw [hs.state] at h; cases h)
      (fun h => by rw [hs.state] at h; cases h) (by simp [Scan.step, hs.state, Scan.afterOperandStep, hamp])
  have h₂ : Passes cs stop (i + 1 + 1) [c] { sc with token := c.toString, tokenStart := i + 1, state := .connector }
      { sc with token := c.toString.push c, tokenStart := i + 1, state := .connector } :=
    passes_of_step (by omega) (getD_of_at hat₂) (fun _ => hop) (fun h => by cases h) (by simp [Scan.step, hop])
  have h₃ : Passes cs stop (i + 1 + 1 + 1) [' '] { sc with token := c.toString.push c, tokenStart := i + 1, state := .connector }
      { sc with connectors := sc.connectors.push k, token := "", tokenStart := i + 1, state := .operand } :=
    scanRange_of_close (by omega) (getD_of_at hat₃) rfl (closeConnector_symbol htok)
  refine ⟨_, h₀.append (h₁.append (h₂.append h₃)), ⟨rfl, hs.operands, ?_, rfl, hs.column, hs.comparison⟩⟩
  simp [hs.connectors]

/-- A range that ends after one operand and no connector reads as that operand. -/
theorem finish_single {sc : Scan} {o : Condition} (hs : sc.Stands .afterOperand [o] []) : sc.finish stop = .ok o := by
  have hsize : sc.operands.size = 1 := by rw [← Array.length_toList, hs.operands]; rfl
  have hempty : sc.connectors.isEmpty = true := by
    rw [Array.isEmpty_iff, ← Array.toList_eq_nil_iff, hs.connectors]
  have hget : sc.operands.getD 0 .all = o := by
    rw [Array.getD_eq_getD_getElem?, ← Array.getElem?_toList, hs.operands]
    rfl
  simp [Scan.finish, hs.state, hsize, hempty, hget, pure, Except.pure, bind, Except.bind]

/-- A range that ends after operands joined by connectors reads as their compound. -/
theorem finish_compound {sc : Scan} {os : List Condition} {ks : List Connector} (hs : sc.Stands .afterOperand os ks)
    (hk : ks ≠ []) : sc.finish stop = .ok (.compound os ks) := by
  have hempty : sc.connectors.isEmpty = false := by
    rw [Bool.eq_false_iff, ne_eq, Array.isEmpty_iff, ← Array.toList_eq_nil_iff, hs.connectors]
    exact hk
  simp [Scan.finish, hs.state, hempty, hs.operands, hs.connectors, pure, Except.pure, bind, Except.bind]

/-! ## Finding the closing parenthesis -/

/-- Characters `closingParen` passes over outside quotes without a change: no quote and no
parenthesis. -/
def Plain (c : Char) : Prop := c ≠ '\'' ∧ c ≠ '"' ∧ c ≠ '(' ∧ c ≠ ')'

theorem plain_of_word {c : Char} (h : isWordChar c = true) : Plain c := by
  simp only [isWordChar, Bool.and_eq_true, Bool.not_eq_true', bne_iff_ne, ne_eq] at h
  exact ⟨h.1.2, h.2, h.1.1.1.2, h.1.1.2⟩

theorem plain_of_operator {c : Char} (h : isOperatorChar c = true) : Plain c := by
  simp only [isOperatorChar, Bool.or_eq_true, beq_iff_eq] at h
  rcases h with ((((rfl | rfl) | rfl) | rfl) | rfl) | rfl <;> exact ⟨by decide, by decide, by decide, by decide⟩

theorem plain_blank : Plain ' ' := ⟨by decide, by decide, by decide, by decide⟩

/-- `closingParen`, outside quotes at `depth`, gets from `i` to the end of `l` with nothing found. -/
def Skips (cs : Array Char) (stop i : Nat) (l : List Char) (depth : Nat) : Prop :=
  closingParen cs stop i depth none = closingParen cs stop (i + l.length) depth none

theorem Skips.append {l₁ l₂ : List Char} {depth : Nat} (h₁ : Skips cs stop i l₁ depth)
    (h₂ : Skips cs stop (i + l₁.length) l₂ depth) : Skips cs stop i (l₁ ++ l₂) depth := by
  unfold Skips at h₁ h₂ ⊢
  rw [h₁, h₂, List.length_append, Nat.add_assoc]

variable {depth : Nat}

theorem skips_plain : ∀ (l : List Char) {i : Nat}, (∀ c ∈ l, Plain c) → At cs i l → i + l.length ≤ stop →
    Skips cs stop i l depth
  | [], _, _, _, _ => rfl
  | c :: l, i, hp, hat, hstop => by
    obtain ⟨hq, hd, ho, hc⟩ := hp c List.mem_cons_self
    have hstep : closingParen cs stop i depth none = closingParen cs stop (i + 1) depth none := by
      rw [closingParen, dif_pos (by simp at hstop; omega)]
      simp [getD_of_at hat, hq, hd, ho, hc]
    have ih := skips_plain l (fun c' hc' => hp c' (List.mem_cons_of_mem c hc')) (at_cons.mp hat).2
      (by simp at hstop; omega)
    unfold Skips at ih ⊢
    rw [hstep, ih, List.length_cons, Nat.add_assoc, Nat.add_comm 1]

/-- Inside single quotes, `closingParen` passes over a written literal with the same escape rule
as the scan, up to the closing quote. -/
theorem skips_literal : ∀ (lit : List Char) {i : Nat}, lit.getLast? ≠ some '\\' →
    At cs i (escapeQuotes lit ++ ['\'']) → i + (escapeQuotes lit).length < stop →
    closingParen cs stop i depth (some '\'') = closingParen cs stop (i + (escapeQuotes lit).length) depth (some '\'')
  | [], _, _, _, _ => rfl
  | c :: lit, i, hlast, hat, hstop => by
    have hlast' := getLast?_ne_of_cons hlast
    by_cases hq : c = '\''
    · -- an escaped quote is passed over whole
      subst hq
      rw [escapeQuotes, if_pos rfl] at hat hstop ⊢
      simp only [List.cons_append, List.length_cons] at hat hstop ⊢
      have hat' := at_cons.mp hat
      have hat'' := at_cons.mp hat'.2
      have hstep : closingParen cs stop i depth (some '\'') = closingParen cs stop (i + 2) depth (some '\'') := by
        rw [closingParen, dif_pos (by omega)]
        simp [getD_of_at hat, getD_of_at hat'.2, show i + 1 < stop by omega]
      rw [hstep, skips_literal lit hlast' hat''.2 (by omega)]
      congr 1
      omega
    · rw [escapeQuotes, if_neg hq] at hat hstop ⊢
      simp only [List.cons_append, List.length_cons] at hat hstop ⊢
      have hat' := at_cons.mp hat
      have hstep : closingParen cs stop i depth (some '\'') = closingParen cs stop (i + 1) depth (some '\'') := by
        rw [closingParen, dif_pos (by omega)]
        by_cases hb : c = '\\'
        · -- a backslash here is followed by no quote
          subst hb
          obtain ⟨e, rest, he, hne⟩ := escapeQuotes_after_backslash hlast
          rw [he, List.cons_append] at hat'
          simp [getD_of_at hat, (at_cons.mp hat'.2).1, hne]
        · simp [getD_of_at hat, hq, hb]
      rw [hstep, skips_literal lit hlast' hat'.2 (by omega)]
      congr 1
      omega

/-- A literal in quotes is passed over whole. -/
theorem skips_quoted {lit : String} (hlast : lit.toList.getLast? ≠ some '\\') (hat : At cs i (quoteLiteral lit))
    (hstop : i + (quoteLiteral lit).length ≤ stop) : Skips cs stop i (quoteLiteral lit) depth := by
  unfold quoteLiteral at hat hstop ⊢
  simp only [List.length_cons, List.length_append, List.length_nil] at hstop
  have hat' := at_cons.mp hat
  have hrest := at_append.mp hat'.2
  have hopen : closingParen cs stop i depth none = closingParen cs stop (i + 1) depth (some '\'') := by
    rw [closingParen, dif_pos (by omega)]
    simp [getD_of_at hat]
  have hclose : closingParen cs stop (i + 1 + (escapeQuotes lit.toList).length) depth (some '\'') =
      closingParen cs stop (i + 1 + (escapeQuotes lit.toList).length + 1) depth none := by
    rw [closingParen, dif_pos (by omega)]
    simp [getD_of_at hrest.2]
  unfold Skips
  rw [hopen, skips_literal lit.toList hlast hat'.2 (by omega), hclose]
  simp only [List.length_cons, List.length_append, List.length_nil]
  congr 1
  omega

/-- A clause is passed over whole. -/
theorem skips_clause {cl : Clause} (hcl : cl.reads = true) (hat : At cs i cl.render) (hstop : i + cl.render.length ≤ stop) :
    Skips cs stop i cl.render depth := by
  simp only [Clause.reads, Bool.and_eq_true, Bool.not_eq_true', String.isEmpty_eq_false_iff, List.all_eq_true,
    bne_iff_ne, ne_eq] at hcl
  obtain ⟨⟨-, hw⟩, hlast⟩ := hcl
  obtain ⟨c₀, rest, hsym, hop⟩ := symbol_toList cl.comparison
  have hr : cl.render = (cl.column.toList ++ [' '] ++ cl.comparison.symbol.toList ++ [' ']) ++ quoteLiteral cl.literal := rfl
  rw [hr] at hat hstop ⊢
  obtain ⟨hat₁, hat₂⟩ := at_append.mp hat
  rw [List.length_append] at hstop
  refine Skips.append (skips_plain _ (fun c hc => ?_) hat₁ (by omega)) (skips_quoted hlast hat₂ (by omega))
  simp only [List.mem_append, List.mem_singleton] at hc
  rcases hc with ((hc | rfl) | hc) | rfl
  · exact plain_of_word (hw c hc)
  · exact plain_blank
  · exact plain_of_operator (hop c (hsym ▸ hc))
  · exact plain_blank

/-- An opening parenthesis outside quotes opens one more group. -/
theorem closingParen_open (h : i < stop) (hc : cs.getD i ' ' = '(') :
    closingParen cs stop i depth none = closingParen cs stop (i + 1) (depth + 1) none := by
  rw [closingParen, dif_pos h]
  simp [hc]

/-- A closing parenthesis inside a group closes an inner group. -/
theorem closingParen_close (h : i < stop) (hc : cs.getD i ' ' = ')') (hd : 1 ≤ depth) :
    closingParen cs stop i (depth + 1) none = closingParen cs stop (i + 1) depth none := by
  rw [closingParen, dif_pos h]
  simp [hc, show depth ≠ 0 by omega]

/-- The closing parenthesis of the outermost group is the one found. -/
theorem closingParen_found (h : i < stop) (hc : cs.getD i ' ' = ')') : closingParen cs stop i 1 none = some i := by
  rw [closingParen, dif_pos h]
  simp [hc]

mutual
/-- Inside a group, `closingParen` passes over an operand that reads back whole. -/
theorem skips_operand (o : Condition) (hr : o.reads = true) {i depth : Nat} (hd : 1 ≤ depth)
    (hat : At cs i o.renderOperand) (hstop : i + o.renderOperand.length ≤ stop) :
    Skips cs stop i o.renderOperand depth := by
  match o with
  | .all => rfl
  | .clause cl => exact skips_clause hr hat hstop
  | .compound os ks =>
    -- one group deeper for the operands, back at `depth` after its closing parenthesis
    simp only [Condition.renderOperand] at hat hstop ⊢
    simp only [Condition.reads, Bool.and_eq_true] at hr
    obtain ⟨hat', hclose⟩ := at_append.mp hat
    obtain ⟨hopen, hin⟩ := at_cons.mp hat'
    have hpos : i + (['('] ++ Condition.renderJoined os ks).length = i + 1 + (Condition.renderJoined os ks).length := by
      simp only [List.length_append, List.length_singleton]
      omega
    rw [hpos] at hclose
    simp only [List.length_append, List.length_singleton] at hstop
    have h₁ : closingParen cs stop i depth none = closingParen cs stop (i + 1) (depth + 1) none :=
      closingParen_open (by omega) (getD_of_at hat')
    have h₂ : Skips cs stop (i + 1) (Condition.renderJoined os ks) (depth + 1) :=
      skips_joined os ks hr.2 (Nat.le_add_left 1 depth) hin (by omega)
    have h₃ : closingParen cs stop (i + 1 + (Condition.renderJoined os ks).length) (depth + 1) none =
        closingParen cs stop (i + 1 + (Condition.renderJoined os ks).length + 1) depth none :=
      closingParen_close (by omega) (getD_of_at hclose) hd
    unfold Skips at h₂ ⊢
    rw [h₁, h₂, h₃]
    simp only [List.length_append, List.length_singleton]
    congr 1
    omega

/-- Inside a group, `closingParen` passes over joined operands that read back whole. -/
theorem skips_joined (os : List Condition) (ks : List Connector) (hr : Condition.operandsRead os = true)
    {i depth : Nat} (hd : 1 ≤ depth) (hat : At cs i (Condition.renderJoined os ks))
    (hstop : i + (Condition.renderJoined os ks).length ≤ stop) : Skips cs stop i (Condition.renderJoined os ks) depth := by
  match os with
  | [] => rfl
  | o :: os =>
    simp only [Condition.operandsRead, Bool.and_eq_true] at hr
    simp only [Condition.renderJoined] at hat hstop ⊢
    obtain ⟨hat₁, hat₂⟩ := at_append.mp hat
    rw [List.length_append] at hstop
    exact (skips_operand o hr.1.2 hd hat₁ (by omega)).append (skips_rest os ks hr.2 hd hat₂ (by omega))

/-- Inside a group, `closingParen` passes over the operands after the first, with their
connectors, whole. -/
theorem skips_rest (os : List Condition) (ks : List Connector) (hr : Condition.operandsRead os = true)
    {i depth : Nat} (hd : 1 ≤ depth) (hat : At cs i (Condition.renderRest os ks))
    (hstop : i + (Condition.renderRest os ks).length ≤ stop) : Skips cs stop i (Condition.renderRest os ks) depth := by
  match os, ks with
  | [], _ => simp [Skips, Condition.renderRest]
  | _ :: _, [] => simp [Skips, Condition.renderRest]
  | o :: os, k :: ks =>
    simp only [Condition.operandsRead, Bool.and_eq_true] at hr
    simp only [Condition.renderRest] at hat hstop ⊢
    obtain ⟨hat₁, hat₂⟩ := at_append.mp hat
    obtain ⟨hat₁, hat₃⟩ := at_append.mp hat₁
    obtain ⟨c, hsym, hc⟩ := connector_symbol_toList k
    simp only [List.length_append, hsym, List.length_cons, List.length_nil] at hstop
    have hconn : Skips cs stop i ([' '] ++ k.symbol.toList ++ [' ']) depth := by
      refine skips_plain _ (fun c' hc' => ?_) hat₁ (by simp [hsym]; omega)
      rw [hsym] at hc'
      simp only [List.cons_append, List.nil_append, List.mem_cons, List.not_mem_nil, or_false] at hc'
      rcases hc' with rfl | rfl | rfl | rfl
      · exact plain_blank
      · rcases hc with rfl | rfl <;> exact ⟨by decide, by decide, by decide, by decide⟩
      · rcases hc with rfl | rfl <;> exact ⟨by decide, by decide, by decide, by decide⟩
      · exact plain_blank
    have hop : Skips cs stop (i + ([' '] ++ k.symbol.toList ++ [' ']).length) o.renderOperand depth :=
      skips_operand o hr.1.2 hd hat₃ (by simp [hsym]; omega)
    have hrest : Skips cs stop (i + ([' '] ++ k.symbol.toList ++ [' '] ++ o.renderOperand).length)
        (Condition.renderRest os ks) depth :=
      skips_rest os ks hr.2 hd hat₂ (by simp [hsym]; omega)
    exact (hconn.append hop).append hrest
end

/-! ## Reading conditions back -/

mutual
/-- An operand that reads back, from a scan expecting one: the scan gathers it and stands after it. -/
theorem passes_operand (o : Condition) (hall : o.isAll = false) (hr : o.reads = true) {stop i : Nat} {sc : Scan}
    {os : List Condition} {ks : List Connector} (hs : sc.Stands .operand os ks) (hat : At cs i o.renderOperand)
    (hstop : i + o.renderOperand.length ≤ stop) :
    ∃ sc', Passes cs stop i o.renderOperand sc sc' ∧ sc'.Stands .afterOperand (os ++ [o]) ks := by
  match o with
  | .all => cases hall
  | .clause cl => exact passes_clause hr hs hat hstop
  | .compound os' ks' =>
    -- the group's closing parenthesis lies just past its operands, which the scan reads alone
    simp only [Condition.renderOperand] at hat hstop ⊢
    obtain ⟨hat', hclose⟩ := at_append.mp hat
    obtain ⟨hopen, hin⟩ := at_cons.mp hat'
    have hpos : i + (['('] ++ Condition.renderJoined os' ks').length =
        i + 1 + (Condition.renderJoined os' ks').length := by
      simp only [List.length_append, List.length_singleton]
      omega
    rw [hpos] at hclose
    simp only [List.length_append, List.length_singleton] at hstop
    have hskip : Skips cs stop (i + 1) (Condition.renderJoined os' ks') 1 :=
      skips_joined os' ks' (by simp only [Condition.reads, Bool.and_eq_true] at hr; exact hr.2) le_rfl hin (by omega)
    have hfound : closingParen cs stop i 0 none = some (i + 1 + (Condition.renderJoined os' ks').length) := by
      unfold Skips at hskip
      rw [closingParen_open (by omega) (getD_of_at hat'), Nat.zero_add, hskip,
        closingParen_found (by omega) (getD_of_at hclose)]
    have hinner : scanRange cs (i + 1 + (Condition.renderJoined os' ks').length) (i + 1) {} = .ok (.compound os' ks') :=
      scans_joined os' ks' hr hin rfl
    refine ⟨{ sc with operands := sc.operands.push (.compound os' ks'), state := .afterOperand }, ?_,
      ⟨rfl, ?_, hs.connectors, hs.token, hs.column, hs.comparison⟩⟩
    · unfold Passes
      rw [scanRange_of_group (by omega) (getD_of_at hat') hs.state hfound (by omega) (by omega) hinner rfl]
      simp only [List.length_append, List.length_singleton]
      congr 1
      omega
    · simp [hs.operands]

/-- The operands of a compound that reads back, joined by its connectors and filling the range:
the scan reads the compound. -/
theorem scans_joined (os : List Condition) (ks : List Connector) (hr : (Condition.compound os ks).reads = true)
    {stop i : Nat} (hat : At cs i (Condition.renderJoined os ks))
    (hstop : i + (Condition.renderJoined os ks).length = stop) :
    scanRange cs stop i {} = .ok (.compound os ks) := by
  match os with
  | [] => simp [Condition.reads] at hr
  | o :: os =>
    simp only [Condition.reads, Condition.operandsRead, Bool.and_eq_true, Bool.not_eq_true', decide_eq_true_eq,
      beq_iff_eq, List.length_cons] at hr
    obtain ⟨⟨hlen₂, hlen⟩, ⟨hall, hread⟩, hops⟩ := hr
    simp only [Condition.renderJoined] at hat hstop
    obtain ⟨hat₁, hat₂⟩ := at_append.mp hat
    rw [List.length_append] at hstop
    have hb₁ : i + o.renderOperand.length ≤ stop := by omega
    obtain ⟨sc₁, h₁, hs₁⟩ := passes_operand o hall hread stands_empty hat₁ hb₁
    have hb₂ : i + o.renderOperand.length + (Condition.renderRest os ks).length ≤ stop := by omega
    obtain ⟨sc₂, h₂, hs₂⟩ := passes_rest os ks (by omega) hops hs₁ hat₂ hb₂
    -- a second operand means a connector, so the range reads as a compound
    have hk : ks ≠ [] := by
      intro hk
      rw [hk, List.length_nil] at hlen
      omega
    simp only [List.nil_append, List.singleton_append] at hs₂
    unfold Passes at h₁ h₂
    rw [h₁, h₂, scanRange_of_le (by omega)]
    exact finish_compound hs₂ hk

/-- Operands after the first, each after its connector, from a scan after an operand: the scan
gathers them all and stands after the last. -/
theorem passes_rest (os : List Condition) (ks : List Connector) (hlen : ks.length = os.length)
    (hr : Condition.operandsRead os = true) {stop i : Nat} {sc : Scan} {pre : List Condition}
    {kpre : List Connector} (hs : sc.Stands .afterOperand pre kpre) (hat : At cs i (Condition.renderRest os ks))
    (hstop : i + (Condition.renderRest os ks).length ≤ stop) :
    ∃ sc', Passes cs stop i (Condition.renderRest os ks) sc sc' ∧
      sc'.Stands .afterOperand (pre ++ os) (kpre ++ ks) := by
  match os, ks with
  | [], [] => exact ⟨sc, by simp [Passes, Condition.renderRest], by simpa using hs⟩
  | [], _ :: _ => simp at hlen
  | _ :: _, [] => simp at hlen
  | o :: os, k :: ks =>
    simp only [Condition.operandsRead, Bool.and_eq_true, Bool.not_eq_true'] at hr
    simp only [Condition.renderRest] at hat hstop ⊢
    obtain ⟨hat₁₃, hat₂⟩ := at_append.mp hat
    obtain ⟨hat₁, hat₃⟩ := at_append.mp hat₁₃
    obtain ⟨c, hsym, -⟩ := connector_symbol_toList k
    -- the connector with its blanks is four characters
    have hklen : ([' '] ++ k.symbol.toList ++ [' ']).length = 4 := by simp [hsym]
    have hlen' : ([' '] ++ k.symbol.toList ++ [' '] ++ o.renderOperand ++ Condition.renderRest os ks).length =
        4 + o.renderOperand.length + (Condition.renderRest os ks).length := by
      simp only [List.length_append, ← hklen]
    rw [hklen] at hat₃
    rw [List.length_append, hklen] at hat₂
    rw [hlen'] at hstop
    have hb₁ : i + 4 ≤ stop := by omega
    obtain ⟨sc₁, h₁, hs₁⟩ := passes_connector k hs hat₁ hb₁
    have hb₂ : i + 4 + o.renderOperand.length ≤ stop := by omega
    obtain ⟨sc₂, h₂, hs₂⟩ := passes_operand o hr.1.1 hr.1.2 hs₁ hat₃ hb₂
    have hb₃ : i + (4 + o.renderOperand.length) + (Condition.renderRest os ks).length ≤ stop := by omega
    obtain ⟨sc₃, h₃, hs₃⟩ := passes_rest os ks (by simpa using hlen) hr.2 hs₂ hat₂ hb₃
    refine ⟨sc₃, ?_, by simpa using hs₃⟩
    rw [← hklen] at h₂ h₃
    rw [← List.length_append] at h₃
    exact (h₁.append h₂).append h₃
end

/-- Every condition whose columns are runs of word characters, whose literals do not end in a
backslash, and whose compounds have at least two operands, none of them empty, reads back from
its written form as itself. -/
theorem parse_render (t : Condition) (ht : t.reads = true) : parse (String.ofList t.render) = .ok t := by
  have hscan : scanRange t.render.toArray t.render.toArray.size 0 {} = .ok t := by
    have hat := at_toArray t.render
    match t with
    | .all =>
      rw [scanRange_of_le (by simp [Condition.render])]
      rfl
    | .clause cl =>
      have hb : 0 + (Condition.clause cl).render.length ≤ (Condition.clause cl).render.toArray.size := by simp
      obtain ⟨sc, h, hs⟩ := passes_clause ht stands_empty hat hb
      unfold Passes at h
      rw [h, scanRange_of_le (by simp [Condition.render])]
      exact finish_single hs
    | .compound os ks => exact scans_joined os ks ht hat (by simp [Condition.render])
  simp only [parse, String.toList_ofList, hscan]

/-- A compound with a group, a quote and parentheses in its literals, and an empty literal, reads
back from its written form. -/
theorem parse_render_of_group :
    (Condition.compound [.clause ⟨"a", .ge, "it's"⟩,
        .compound [.clause ⟨"b", .lt, "(x)"⟩, .clause ⟨"c", .eq, ""⟩] [.or]] [.and]).reads = true ∧
      parse (String.ofList (Condition.compound [.clause ⟨"a", .ge, "it's"⟩,
        .compound [.clause ⟨"b", .lt, "(x)"⟩, .clause ⟨"c", .eq, ""⟩] [.or]] [.and]).render) =
      .ok (.compound [.clause ⟨"a", .ge, "it's"⟩,
        .compound [.clause ⟨"b", .lt, "(x)"⟩, .clause ⟨"c", .eq, ""⟩] [.or]] [.and]) :=
  ⟨by decide, parse_render _ (by decide)⟩

end ColumnDb.Query
