import Mathlib
import ColumnDb.Proofs.ParseShape

/-!
# Where a condition fails to read

Every error of `parse` names a character of the condition: its position is an index into the
whole text, below its length (`parse_error_within`). Reading always ends, since `scanRange` uses
up at least one character at each step and reads a group over a range strictly inside its own.

A range is scanned up to `stop`. The scan reports a fault at the character it stands at, at a
place it recorded earlier (the start of an operator or connector, the quote that opened a
string), or, when the range ends too early, at its last character `stop - 1`. `Scan.Placed stop`
says all of these lie below `stop`: every recorded place does, a scan that has gathered anything
stands in a range that is not empty, and a scan that expects or gathers a value has its
comparison, so closing the value at the end of the range cannot fail at `stop` itself. Every step
keeps it (`Scan.Placed.step`), and a group is read from the empty scan, which has it.
-/

set_option autoImplicit false

namespace ColumnDb.Query

open ColumnDb.Text

/-- The faults a scan of a range ending at `stop` may still report all lie below `stop`. -/
structure Scan.Placed (stop : Nat) (sc : Scan) : Prop where
  tokenStart : sc.state = .operator ∨ sc.state = .connector → sc.tokenStart < stop
  quoted : ∀ q p, sc.state = .quoted q p → p < stop
  begun : sc.state = .operand ∧ sc.operands.size = 0 ∨ 0 < stop
  comparison : sc.state = .beforeValue ∨ sc.state = .unquoted → sc.comparison.isSome

namespace Scan

variable {sc sc₁ sc₂ : Scan} {stop i p : Nat} {c : Char} {next : Option Char} {skip : Bool} {f : ParseFault}

theorem Placed.empty (stop : Nat) : ({} : Scan).Placed stop :=
  ⟨fun h => by simp at h, fun _ _ h => by simp at h, .inl ⟨rfl, rfl⟩, fun h => by simp at h⟩

/-- Closing a connector, the only move of `settle`, keeps the places. -/
theorem Placed.settle (hpl : sc.Placed stop) (h : sc.settle c = .ok sc₁) : sc₁.Placed stop := by
  rcases settle_cases h with rfl | ⟨hs, k, rfl⟩
  · exact hpl
  · have hpos : 0 < stop := hpl.begun.resolve_left fun h => by simp [hs] at h
    exact ⟨fun h => by simp at h, fun _ _ h => by simp at h, .inr hpos, fun h => by simp at h⟩

/-- A group read whole ends the operand it stands for. -/
theorem Placed.group (hi : i < stop) (o : Condition) :
    ({ sc with operands := sc.operands.push o, state := .afterOperand } : Scan).Placed stop :=
  ⟨fun h => by simp at h, fun _ _ h => by simp at h, .inr (by omega), fun h => by simp at h⟩

-- Each branch of `Scan.step` records at most the index `i` it stands at, keeps the places it
-- had, and sets the comparison when it leaves the operator for the value.
/-- A step at a character of the range keeps the places below its end. -/
theorem Placed.step (hpl : sc.Placed stop) (hi : i < stop) (h : sc.step i c next = .ok (sc₂, skip)) :
    sc₂.Placed stop := by
  obtain ⟨hts, hq, -, hcmp⟩ := hpl
  obtain ⟨st, os, ks, tok, ts, col, cmp⟩ := sc
  cases st <;>
    simp only [Scan.step, Scan.operandStep, Scan.afterOperandStep, Scan.beforeValueStep, Functor.map, Except.map,
      bind, Except.bind] at h <;>
    split_ifs at h <;> (repeat' split at h) <;> (try cases h) <;>
    (try simp only [Except.ok.injEq, reduceCtorEq] at *) <;> (try subst_vars)
  all_goals (try obtain ⟨cmp, rfl⟩ := pushClause_ok ‹pushClause _ _ = _›)
  all_goals (try obtain ⟨k, rfl⟩ := closeConnector_ok ‹closeConnector _ = _›)
  all_goals (refine ⟨fun hs => ?_, fun q p hs => ?_, .inr (by omega), fun hs => ?_⟩ <;> simp_all)

/-! ## Where each move reports its faults -/

/-- A connector that is no connector is reported where it starts. -/
theorem closeConnector_error (h : sc.closeConnector = .error (p, f)) : p = sc.tokenStart := by
  unfold closeConnector at h
  split at h <;> cases h
  rfl

/-- A value closed without a comparison is reported where it ends. -/
theorem pushClause_error {pos : Nat} (h : sc.pushClause pos = .error (p, f)) : p = pos := by
  unfold pushClause at h
  split at h <;> cases h
  rfl

theorem settle_error_lt (hpl : sc.Placed stop) (h : sc.settle c = .error (p, f)) : p < stop := by
  unfold Scan.settle at h
  split at h
  · next hconn =>
    simp only [Bool.and_eq_true, beq_iff_eq] at hconn
    rw [closeConnector_error h]
    exact hpl.tokenStart (.inr hconn.1)
  · cases h

/-- A mapped step fails as the step it maps. -/
theorem map_error {α β : Type} {x : Step α} {g : α → β} {e : Nat × ParseFault} (h : g <$> x = .error e) :
    x = .error e := by
  cases x with
  | error e' => simpa [Functor.map, Except.map] using h
  | ok a => cases h

/-- Two chained steps fail in the first, or in the second after the first went through. -/
theorem bind_error {α β : Type} {x : Step α} {k : α → Step β} {e : Nat × ParseFault} (h : x >>= k = .error e) :
    x = .error e ∨ ∃ a, x = .ok a ∧ k a = .error e := by
  cases x with
  | error e' =>
    simp only [bind, Except.bind] at h
    cases h
    exact .inl rfl
  | ok a => exact .inr ⟨a, rfl, h⟩

theorem operandStep_error (h : sc.operandStep i c = .error (p, f)) : p = i := by
  unfold operandStep at h
  split_ifs at h
  cases h
  rfl

theorem afterOperandStep_error (h : sc.afterOperandStep i c = .error (p, f)) : p = i := by
  unfold afterOperandStep at h
  split_ifs at h <;> cases h <;> rfl

theorem beforeValueStep_error (h : sc.beforeValueStep i c = .error (p, f)) : p = i := by
  unfold beforeValueStep at h
  split_ifs at h
  cases h
  rfl

/-- A step reports at the character it stands at, or at the start of the operator or connector
it closes. -/
theorem step_error_at (h : sc.step i c next = .error (p, f)) :
    p = i ∨ (sc.state = .operator ∨ sc.state = .connector) ∧ p = sc.tokenStart := by
  obtain ⟨st, os, ks, tok, ts, col, cmp⟩ := sc
  cases st <;> simp only [step] at h
  case operand => exact .inl (operandStep_error (map_error h))
  case column =>
    split_ifs at h
    cases h
    exact .inl rfl
  case afterColumn =>
    split_ifs at h
    cases h
    exact .inl rfl
  case operator =>
    -- an operator character only grows the token; any other closes the operator
    split_ifs at h
    split at h
    · cases h
      exact .inr ⟨.inl rfl, rfl⟩
    · exact .inl (beforeValueStep_error (map_error h))
  case beforeValue => exact .inl (beforeValueStep_error (map_error h))
  case unquoted =>
    split_ifs at h
    rcases bind_error h with h | ⟨sc₁, -, h⟩
    · exact .inl (pushClause_error h)
    · exact .inl (afterOperandStep_error (map_error h))
  case quoted =>
    split_ifs at h
    rcases bind_error h with h | ⟨sc₁, -, h⟩
    · exact .inl (pushClause_error h)
    · cases h
  case afterOperand => exact .inl (afterOperandStep_error (map_error h))
  case connector =>
    split_ifs at h
    rcases bind_error h with h | ⟨sc₁, -, h⟩
    · exact .inr ⟨.inr rfl, closeConnector_error h⟩
    · exact .inl (operandStep_error (map_error h))

theorem step_error_lt (hpl : sc.Placed stop) (hi : i < stop) (h : sc.step i c next = .error (p, f)) :
    p < stop := by
  rcases step_error_at h with rfl | ⟨hst, rfl⟩
  · exact hi
  · exact hpl.tokenStart hst

/-- A range that ends too early is reported at its last character, or at the quote left open. -/
theorem finish_error_lt (hpl : sc.Placed stop) (h : sc.finish stop = .error (p, f)) : p < stop := by
  obtain ⟨-, hq, hbeg, hcmp⟩ := hpl
  obtain ⟨st, os, ks, tok, ts, col, cmp⟩ := sc
  cases st <;> simp only [Scan.finish, Scan.pushClause, bind, Except.bind, pure, Except.pure] at h
  case operand =>
    split at h
    · cases h
    · next hne =>
      cases h
      have hpos : 0 < stop := hbeg.resolve_left fun h => hne (Array.isEmpty_iff_size_eq_zero.mpr h.2)
      omega
  case unquoted =>
    -- the value was opened after its comparison, so it closes
    cases cmp with
    | none => simp at hcmp
    | some cmp =>
      simp only at h
      split at h <;> cases h
  case quoted =>
    cases h
    exact hq _ _ rfl
  case afterOperand => split at h <;> cases h
  all_goals
    cases h
    have hpos : 0 < stop := hbeg.resolve_left fun h => by simp at h
    omega

end Scan

/-! ## Whole ranges -/

variable {cs : Array Char} {stop i p : Nat} {sc : Scan} {f : ParseFault}

/-- A scan of a range that fails reports a character below the range's end. The induction
follows the scan; a group is read from the empty scan and fails inside its own range, which
ends before the outer one. -/
theorem scanRange_error_lt (h : scanRange cs stop i sc = .error (p, f)) (hpl : sc.Placed stop) : p < stop := by
  fun_induction scanRange cs stop i sc generalizing p f with
  | case1 =>
    rename_i stop i sc hi c e hset
    cases h
    exact Scan.settle_error_lt hpl hset
  | case3 =>
    rename_i stop i sc hi c sc₁ hset hgroup close hclose hlt e hinner ih
    cases h
    have := ih hinner (Scan.Placed.empty close)
    omega
  | case5 =>
    rename_i stop i sc hi c sc₁ hset hgroup close hclose hlt inner hinner hall ihin ihrest
    exact ihrest h (Scan.Placed.group (by omega) inner)
  | case7 =>
    rename_i stop i sc hi c next sc₁ hset hgroup e hstep
    cases h
    exact Scan.step_error_lt (hpl.settle hset) hi hstep
  | case8 =>
    rename_i stop i sc hi c next sc₁ hset hgroup sc₂ skip hstep ih
    exact ih h ((hpl.settle hset).step hi hstep)
  | case9 => exact Scan.finish_error_lt hpl h
  -- an unclosed, empty or misplaced group is reported at its opening parenthesis
  | case2 | case4 | case6 => cases h; assumption

/-- Reading a condition ends, and when it fails, the error names the condition and a character
of it: its position is an index below the condition's length, counted in characters. -/
theorem parse_error_within (text : String) (e : ParseError) (h : parse text = .error e) :
    e.expression = text ∧ e.position < text.length := by
  unfold parse at h
  dsimp only at h
  split at h
  · cases h
  · next p f hscan =>
    cases h
    have hlt := scanRange_error_lt hscan (Scan.Placed.empty _)
    exact ⟨rfl, by simpa [← String.length_toList] using hlt⟩

/-- A condition cut after its connector is reported at its last character, counted in
characters: `é` is one character of two bytes. -/
theorem parse_error_within_cut_connector :
    parse "é < 1 ||" = .error ⟨"é < 1 ||", 7, .incomplete⟩ ∧ 7 < "é < 1 ||".length :=
  have h : parse "é < 1 ||" = .error ⟨"é < 1 ||", 7, .incomplete⟩ := by decide +kernel
  ⟨h, (parse_error_within _ _ h).2⟩

end ColumnDb.Query
