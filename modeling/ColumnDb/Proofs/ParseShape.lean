import Mathlib
import ColumnDb.Proofs.ParseGroup

/-!
# The shape of a condition that reads

A text reads as the empty condition `all` exactly when it is blank. Any other condition that
reads is a tree whose groups each join two or more operands, one more than their connectors,
and none of whose operands is `all`. Evaluating a condition joins each group's operand results
by its connectors in order, `connectors[i]` between `operands[i]` and `operands[i+1]`, so this
shape is what lets every connector find its two operands (`parse_shaped`).

The scan keeps the shape as it goes (`Scan.Shaped`): the operands gathered so far are shaped and
none is `all`, and there are as many of them as connectors, one more from the end of an operand
until the connector after it closes. A step keeps this (`Scan.Shaped.step`), a group read alone
adds one shaped operand (`Scan.Shaped.group`), and finishing joins the operands into a shaped
condition (`Scan.Shaped.finish`). A scan expects an operand with nothing gathered only until it
meets something other than a blank (`Scans.blank_of_all`).
-/

set_option autoImplicit false

namespace ColumnDb.Query

open ColumnDb.Text

/-! ## Shaped conditions -/

mutual
/-- Every group of the condition joins two or more operands with one connector fewer, and none of
its operands is the empty condition. The first of these is what evaluation asserts at every
group it meets. -/
def Condition.shaped : Condition → Bool
  | .all => true
  | .clause _ => true
  | .compound os ks => os.length == ks.length + 1 && 2 ≤ os.length && Condition.operandsShaped os

/-- Every operand is shaped, and none is the empty condition. -/
def Condition.operandsShaped : List Condition → Bool
  | [] => true
  | o :: os => !o.isAll && o.shaped && Condition.operandsShaped os
end

theorem Condition.operandsShaped_iff (os : List Condition) :
    Condition.operandsShaped os = true ↔ ∀ o ∈ os, o.isAll = false ∧ o.shaped = true := by
  induction os with
  | nil => simp [Condition.operandsShaped]
  | cons o os ih => simp [Condition.operandsShaped, ih, and_assoc]

@[simp] theorem Condition.operandsShaped_append (l₁ l₂ : List Condition) :
    Condition.operandsShaped (l₁ ++ l₂) = (Condition.operandsShaped l₁ && Condition.operandsShaped l₂) := by
  induction l₁ with
  | nil => simp [Condition.operandsShaped]
  | cons o l ih => simp [Condition.operandsShaped, ih, Bool.and_assoc]

/-! ## What a step does to the operands and connectors -/

/-- Operands gathered that no connector follows yet: one from the end of an operand until the
connector after it closes, none otherwise. -/
def ScanState.unjoined : ScanState → Nat
  | .afterOperand | .connector => 1
  | _ => 0

/-- A scan whose operands are shaped, none of them empty, and one more than its connectors
exactly while an operand waits for its connector. -/
structure Scan.Shaped (sc : Scan) : Prop where
  operands : Condition.operandsShaped sc.operands.toList = true
  count : sc.operands.size = sc.connectors.size + sc.state.unjoined

theorem Scan.Shaped.empty : ({} : Scan).Shaped := ⟨rfl, rfl⟩

variable {sc sc₁ sc₂ : Scan} {i : Nat} {c : Char} {next : Option Char} {skip : Bool}

/-- The first move at a character keeps the scan, or closes the pending connector. -/
theorem Scan.settle_cases (h : sc.settle c = .ok sc₁) :
    sc₁ = sc ∨ sc.state = .connector ∧
      ∃ k, sc₁ = { sc with connectors := sc.connectors.push k, token := "", state := .operand } := by
  unfold Scan.settle at h
  split at h
  · rename_i hconn
    simp only [Bool.and_eq_true, beq_iff_eq] at hconn
    exact .inr ⟨hconn.1, Scan.closeConnector_ok h⟩
  · cases h
    exact .inl rfl

-- The cases follow every branch of `Scan.step`, as `Scan.step_operands` does.
/-- A step keeps the operands and connectors; or it closes a clause where an operand ends; or it
records a connector where the next operand may start. -/
theorem Scan.step_cases (h : sc.step i c next = .ok (sc₂, skip)) :
    (sc₂.operands = sc.operands ∧ sc₂.connectors = sc.connectors ∧ sc₂.state.unjoined = sc.state.unjoined) ∨
      (∃ cmp, sc₂.operands = sc.operands.push (.clause ⟨sc.column, cmp, sc.token⟩) ∧
        sc₂.connectors = sc.connectors ∧ sc.state.unjoined = 0 ∧ sc₂.state.unjoined = 1) ∨
      (∃ k, sc₂.operands = sc.operands ∧ sc₂.connectors = sc.connectors.push k ∧
        sc.state.unjoined = 1 ∧ sc₂.state.unjoined = 0) := by
  obtain ⟨st, os, ks, tok, ts, col, cmp⟩ := sc
  cases st <;>
    simp only [Scan.step, Scan.operandStep, Scan.afterOperandStep, Scan.beforeValueStep, Functor.map, Except.map,
      bind, Except.bind] at h <;>
    split_ifs at h <;> (repeat' split at h) <;> (try cases h) <;>
    (try simp only [Except.ok.injEq, reduceCtorEq] at *) <;> (try subst_vars)
  all_goals (try obtain ⟨cmp, rfl⟩ := Scan.pushClause_ok ‹Scan.pushClause _ _ = _›)
  all_goals (try obtain ⟨k, rfl⟩ := Scan.closeConnector_ok ‹Scan.closeConnector _ = _›)
  all_goals (try simp_all [ScanState.unjoined])
  all_goals exact ⟨_, rfl⟩

/-- A step ends expecting an operand only over a blank where it already expected one, leaving the
scan as it was, or after closing a connector. -/
theorem Scan.step_to_operand (h : sc.step i c next = .ok (sc₂, skip)) (hs : sc₂.state = .operand) :
    (sc.state = .operand ∧ isBlank c = true ∧ sc₂ = sc ∧ skip = false) ∨ sc.state = .connector := by
  obtain ⟨st, os, ks, tok, ts, col, cmp⟩ := sc
  cases st <;>
    simp only [Scan.step, Scan.operandStep, Scan.afterOperandStep, Scan.beforeValueStep, Functor.map, Except.map,
      bind, Except.bind] at h <;>
    split_ifs at h <;> (repeat' split at h) <;> (try cases h) <;>
    (try simp only [Except.ok.injEq, reduceCtorEq] at *) <;> (try subst_vars)
  all_goals (try obtain ⟨cmp, rfl⟩ := Scan.pushClause_ok ‹Scan.pushClause _ _ = _›)
  all_goals simp_all

/-- Expecting an operand, a blank is passed over. -/
theorem Scan.step_blank (hs : sc.state = .operand) (hc : isBlank c = true) : sc.step i c next = .ok (sc, false) := by
  have hword : isWordChar c = false := by simp only [isWordChar, hc, Bool.not_true, Bool.false_and]
  simp only [Scan.step, hs, Scan.operandStep, hword, hc, Bool.false_eq_true, if_false, if_true]
  rfl

/-- A step never drops an operand. -/
theorem Scan.size_le_step (h : sc.step i c next = .ok (sc₂, skip)) : sc.operands.size ≤ sc₂.operands.size := by
  rcases Scan.step_operands h with heq | ⟨cmp, heq⟩
  · rw [heq]
  · rw [heq, Array.size_push]
    omega

/-! ## The shape kept along a scan -/

namespace Scan.Shaped

theorem settle (hsh : sc.Shaped) (h : sc.settle c = .ok sc₁) : sc₁.Shaped := by
  rcases Scan.settle_cases h with rfl | ⟨hs, k, rfl⟩
  · exact hsh
  · refine ⟨hsh.operands, ?_⟩
    have hcount := hsh.count
    rw [hs] at hcount
    simp only [Array.size_push, ScanState.unjoined] at hcount ⊢
    omega

theorem step (hsh : sc.Shaped) (h : sc.step i c next = .ok (sc₂, skip)) : sc₂.Shaped := by
  obtain ⟨hops, hcount⟩ := hsh
  rcases Scan.step_cases h with ⟨ho, hk, hu⟩ | ⟨cmp, ho, hk, hu, hu₂⟩ | ⟨k, ho, hk, hu, hu₂⟩
  · exact ⟨ho ▸ hops, by rw [ho, hk, hu]; exact hcount⟩
  · refine ⟨?_, ?_⟩
    · simp [ho, hops, Condition.operandsShaped, Condition.isAll, Condition.shaped]
    · rw [ho, hk, hu₂, Array.size_push]
      omega
  · exact ⟨ho ▸ hops, by rw [ho, hk, hu₂, Array.size_push]; omega⟩

/-- A group read alone where an operand was expected adds it as one. -/
theorem group (hsh : sc.Shaped) (hs : sc.state = .operand) {inner : Condition} (hin : inner.shaped = true)
    (hall : inner.isAll = false) :
    ({ sc with operands := sc.operands.push inner, state := .afterOperand } : Scan).Shaped := by
  refine ⟨by simp [hsh.operands, hin, hall, Condition.operandsShaped], ?_⟩
  have hcount := hsh.count
  rw [hs] at hcount
  simp only [Array.size_push, ScanState.unjoined] at hcount ⊢
  omega

end Scan.Shaped

/-- Joining shaped operands, one more than the connectors, gives a shaped condition other than
the empty one: the operand itself when it stands alone, their group otherwise. -/
theorem joined_shaped {os : Array Condition} {ks : Array Connector} {r : Condition}
    (hops : Condition.operandsShaped os.toList = true) (hcount : os.size = ks.size + 1)
    (h : (if ks.isEmpty && os.size == 1 then (.ok (os.getD 0 .all) : Scan.Step Condition)
      else .ok (.compound os.toList ks.toList)) = .ok r) :
    r.shaped = true ∧ r.isAll = false := by
  have hmem := (Condition.operandsShaped_iff _).mp hops
  split at h <;> cases h
  · rename_i hone
    simp only [Bool.and_eq_true, beq_iff_eq] at hone
    obtain ⟨o, rfl⟩ := Array.size_eq_one_iff.mp hone.2
    have ho := hmem o (by simp)
    simpa using ho.symm
  · rename_i hmany
    have hks : ks.size ≠ 0 := by
      intro h0
      rw [h0] at hcount
      simp [Array.isEmpty_iff_size_eq_zero.mpr h0, hcount] at hmany
    refine ⟨?_, rfl⟩
    simp only [Condition.shaped, Array.length_toList, hcount, beq_self_eq_true, Bool.true_and, hops,
      Bool.and_true, decide_eq_true_eq]
    omega

/-- A range that finishes reads a shaped condition; the empty one only from a scan that still
expects its first operand. -/
theorem Scan.Shaped.finish {stop : Nat} {r : Condition} (hsh : sc.Shaped) (h : sc.finish stop = .ok r) :
    r.shaped = true ∧ (r.isAll = true → sc.state = .operand ∧ sc.operands.size = 0) := by
  obtain ⟨hops, hcount⟩ := hsh
  obtain ⟨st, os, ks, tok, ts, col, cmp⟩ := sc
  cases st <;> simp only [Scan.finish, Scan.pushClause, bind, Except.bind, pure, Except.pure] at h
  case operand =>
    split at h
    · rename_i hempty
      cases h
      exact ⟨rfl, fun _ => ⟨rfl, by simpa using hempty⟩⟩
    · cases h
  case unquoted =>
    cases cmp with
    | none => cases h
    | some cmp =>
      have hjoin := joined_shaped
        (by simp [hops, Condition.operandsShaped, Condition.isAll, Condition.shaped])
        (by simp only [ScanState.unjoined] at hcount; simp [hcount]) h
      exact ⟨hjoin.1, fun hall => by simp [hjoin.2] at hall⟩
  case afterOperand =>
    have hjoin := joined_shaped hops hcount h
    exact ⟨hjoin.1, fun hall => by simp [hjoin.2] at hall⟩
  all_goals cases h

/-! ## Whole scans -/

variable {cs : Array Char} {stop : Nat} {r : Condition}

/-- A successful scan from a shaped scan reads a shaped condition. The induction follows the scan;
a group is read from the empty scan, which is shaped. -/
theorem Scans.shaped (h : Scans cs stop i sc r) (hsh : sc.Shaped) : r.shaped = true := by
  induction h with
  | finish _ hfin => exact (hsh.finish hfin).1
  | group _ hset hs _ _ _ _ _ hall _ ihin ihrest =>
    exact ihrest ((hsh.settle hset).group hs (ihin Scan.Shaped.empty) hall)
  | step _ hset _ hstep _ ih => exact ih ((hsh.settle hset).step hstep)

/-- A successful scan that reads the empty condition started expecting an operand with nothing
gathered, and every character of its range is a blank. -/
theorem Scans.blank_of_all (h : Scans cs stop i sc r) (hsh : sc.Shaped) (hr : r.isAll = true) :
    sc.state = .operand ∧ sc.operands.size = 0 ∧ ∀ j, i ≤ j → j < stop → isBlank (cs.getD j ' ') = true := by
  induction h with
  | finish hle hfin =>
    obtain ⟨hs, hn⟩ := (hsh.finish hfin).2 hr
    exact ⟨hs, hn, fun j hij hj => absurd hj (by omega)⟩
  | group _ hset hs _ _ _ _ _ hall _ _ ihrest =>
    have hafter := (ihrest ((hsh.settle hset).group hs (Scans.shaped ‹_› Scan.Shaped.empty) hall) hr).1
    simp at hafter
  | @step stop i sc sc₁ sc₂ skip r hi hset _ hstep _ ih =>
    have hsh₁ := hsh.settle hset
    obtain ⟨hs₂, hn₂, hblank⟩ := ih (hsh₁.step hstep) hr
    rcases Scan.step_to_operand hstep hs₂ with ⟨hs₁, hc, rfl, rfl⟩ | hconn
    · rcases Scan.settle_cases hset with rfl | ⟨hs, k, rfl⟩
      · refine ⟨hs₁, hn₂, fun j hij hj => ?_⟩
        rcases Nat.eq_or_lt_of_le hij with rfl | hlt
        · exact hc
        · exact hblank j (by simpa using hlt) hj
      · -- a pending connector follows an operand, which would still be gathered
        have hcount := hsh.count
        have hn : sc.operands.size = 0 := hn₂
        rw [hs] at hcount
        simp only [ScanState.unjoined] at hcount
        omega
    · -- the same: a connector is read only after an operand, and steps drop none
      have hcount := hsh₁.count
      rw [hconn] at hcount
      have hle := Scan.size_le_step hstep
      simp only [ScanState.unjoined] at hcount
      omega

/-- Over blanks alone the scan keeps expecting its first operand and reads the empty condition. -/
theorem scanRange_blank : ∀ (n i : Nat), stop - i = n →
    (∀ j, i ≤ j → j < stop → isBlank (cs.getD j ' ') = true) → scanRange cs stop i {} = .ok .all
  | 0, i, hn, _ => by
    rw [scanRange_of_le (by omega)]
    rfl
  | n + 1, i, hn, hb => by
    have hc := hb i le_rfl (by omega)
    have hparen : cs.getD i ' ' ≠ '(' := fun h => by rw [h] at hc; revert hc; decide
    rw [scanRange_of_step (by omega) rfl (by simp) (fun _ => hparen) (Scan.step_blank rfl hc)]
    exact scanRange_blank n (i + 1) (by omega) fun j hij hj => hb j (by omega) hj

/-- A text is blank exactly when every character the scan reads of it is a blank. -/
theorem allBlank_iff (text : String) :
    allBlank text = true ↔
      ∀ j, j < text.toList.toArray.size → isBlank (text.toList.toArray.getD j ' ') = true := by
  simp only [allBlank, List.all_eq_true, List.size_toArray, Array.getD_eq_getD_getElem?, List.getElem?_toArray]
  constructor
  · intro h j hj
    rw [List.getElem?_eq_getElem hj]
    exact h _ (List.getElem_mem hj)
  · intro h c hc
    obtain ⟨j, hj, rfl⟩ := List.mem_iff_getElem.mp hc
    simpa [List.getElem?_eq_getElem hj] using h j hj

/-- A text reads as the empty condition exactly when it is empty or blank. Every condition that
reads is shaped: each group, at any depth, joins two or more operands with one connector fewer,
and no operand of any group is the empty condition. So evaluating a condition that reads finds,
at every group, one more operand than connectors. -/
theorem parse_shaped (text : String) :
    (parse text = .ok .all ↔ allBlank text = true) ∧ ∀ t, parse text = .ok t → t.shaped = true := by
  refine ⟨⟨fun h => ?_, fun h => ?_⟩, fun t h => ?_⟩
  · obtain ⟨-, -, hblank⟩ := (Scans.of_scanRange (parse_eq_ok.mp h)).blank_of_all Scan.Shaped.empty rfl
    exact (allBlank_iff text).mpr fun j hj => hblank j (Nat.zero_le j) hj
  · rw [parse_eq_ok]
    exact scanRange_blank _ 0 rfl fun j _ hj => (allBlank_iff text).mp h j hj
  · exact (Scans.of_scanRange (parse_eq_ok.mp h)).shaped Scan.Shaped.empty

/-- Nested groups read as a shaped condition, the group of one clause unwrapped; a text of
blanks reads as the empty condition. -/
theorem parse_shaped_nested :
    parse "((A == 1) || (B == 2 && (C == 3)))" =
        .ok (.compound [.clause ⟨"A", .eq, "1"⟩,
          .compound [.clause ⟨"B", .eq, "2"⟩, .clause ⟨"C", .eq, "3"⟩] [.and]] [.or]) ∧
      (Condition.compound [.clause ⟨"A", .eq, "1"⟩,
          .compound [.clause ⟨"B", .eq, "2"⟩, .clause ⟨"C", .eq, "3"⟩] [.and]] [.or]).shaped = true ∧
      parse " \t" = .ok .all :=
  have h : parse "((A == 1) || (B == 2 && (C == 3)))" =
      .ok (.compound [.clause ⟨"A", .eq, "1"⟩,
        .compound [.clause ⟨"B", .eq, "2"⟩, .clause ⟨"C", .eq, "3"⟩] [.and]] [.or]) := by
    decide +kernel
  ⟨h, (parse_shaped _).2 _ h, (parse_shaped " \t").1.mpr (by decide)⟩

end ColumnDb.Query
