import Mathlib
import ColumnDb.Proofs.ParseRender

/-!
# Conditions in parentheses

Wrapping a condition in parentheses should not change what it reads as: `(c)` is one group whose
inner range is `c`. The scan finds where a group ends with `closingParen`, which opens a quoted
string at every quote character outside one; the scan itself takes a quote for a delimiter only
where a value starts, and keeps it as an ordinary character inside a bare value such as `b"`. So
`a == b"` reads as a clause and `(a == b")` does not read at all (`parse_group_bare_quote`).
Where no literal of the condition holds a quote, the two agree on every quoted string, and the
parenthesis found is the last one: the wrapped condition reads as the condition
(`parse_group`).

A successful scan is followed step by step as `Scans cs stop i sc r`: the scan of the range from
`i` to `stop`, from the scan `sc`, that reads `r`. Along it

* the scan of a range reads only the characters in it, and the places it records serve only its
  errors, so a range read at another place reads the same (`Scans.shift`);
* a scan that reads a condition with no quote in its literals never takes a quote into a bare
  value (`Scans.clean`);
* `closingParen`, inside a group, passes over the whole range without finding anything, its quote
  open exactly where the scan's is (`Scans.skips`).
-/

set_option autoImplicit false

namespace ColumnDb.Query

open ColumnDb.Text

/-! ## Successful scans, step by step -/

/-- The scan's first move at a character: a pending connector ends at the first character that is
no operator character. -/
def Scan.settle (sc : Scan) (c : Char) : Scan.Step Scan :=
  if sc.state == .connector && !isOperatorChar c then sc.closeConnector else .ok sc

/-- The character after `i` in a range that ends at `stop`, if there is one. -/
def nextIn (cs : Array Char) (stop i : Nat) : Option Char :=
  if i + 1 < stop then some (cs.getD (i + 1) ' ') else none

/-- A scan of the range of `cs` from `i` to `stop`, from the scan `sc`, that reads `r`: the range
is used up and the scan finishes; or a group starts at `i`, is read alone up to its closing
parenthesis, and the scan goes on after it; or the scan takes one step. -/
inductive Scans (cs : Array Char) : Nat → Nat → Scan → Condition → Prop
  | finish {stop i : Nat} {sc : Scan} {r : Condition} :
      stop ≤ i → sc.finish stop = .ok r → Scans cs stop i sc r
  | group {stop i close : Nat} {sc sc₁ : Scan} {inner r : Condition} :
      i < stop → sc.settle (cs.getD i ' ') = .ok sc₁ → sc₁.state = .operand → cs.getD i ' ' = '(' →
      closingParen cs stop i 0 none = some close → i < close → close < stop →
      Scans cs close (i + 1) {} inner → inner.isAll = false →
      Scans cs stop (close + 1) { sc₁ with operands := sc₁.operands.push inner, state := .afterOperand } r →
      Scans cs stop i sc r
  | step {stop i : Nat} {sc sc₁ sc₂ : Scan} {skip : Bool} {r : Condition} :
      i < stop → sc.settle (cs.getD i ' ') = .ok sc₁ → ¬(sc₁.state = .operand ∧ cs.getD i ' ' = '(') →
      sc₁.step i (cs.getD i ' ') (nextIn cs stop i) = .ok (sc₂, skip) →
      Scans cs stop (if skip then i + 2 else i + 1) sc₂ r → Scans cs stop i sc r

variable {cs : Array Char} {stop i : Nat} {sc : Scan} {r : Condition}

/-- A group read alone, the scan going on after it. -/
theorem scanRange_group {close : Nat} {sc₁ : Scan} {inner : Condition} (h : i < stop)
    (hset : sc.settle (cs.getD i ' ') = .ok sc₁) (hs : sc₁.state = .operand) (hc : cs.getD i ' ' = '(')
    (hclose : closingParen cs stop i 0 none = some close) (hlt : i < close) (hcs : close < stop)
    (hinner : scanRange cs close (i + 1) {} = .ok inner) (hall : inner.isAll = false) :
    scanRange cs stop i sc =
      scanRange cs stop (close + 1) { sc₁ with operands := sc₁.operands.push inner, state := .afterOperand } := by
  unfold Scan.settle at hset
  rw [hc] at hset
  rw [scanRange, dif_pos h]
  simp only [hc, hset, hs, beq_self_eq_true, Bool.and_self, if_true, hclose, dif_pos (And.intro hlt hcs), hinner,
    hall, Bool.false_eq_true, if_false]

/-- One step of the scan, the scan going on after the characters it used. -/
theorem scanRange_step {sc₁ sc₂ : Scan} {skip : Bool} (h : i < stop)
    (hset : sc.settle (cs.getD i ' ') = .ok sc₁) (hparen : ¬(sc₁.state = .operand ∧ cs.getD i ' ' = '('))
    (hstep : sc₁.step i (cs.getD i ' ') (nextIn cs stop i) = .ok (sc₂, skip)) :
    scanRange cs stop i sc = scanRange cs stop (if skip then i + 2 else i + 1) sc₂ := by
  unfold Scan.settle at hset
  unfold nextIn at hstep
  have hgroup : (sc₁.state == .operand && cs.getD i ' ' == '(') = false := by
    simpa using hparen
  rw [scanRange, dif_pos h]
  simp only [dite_eq_ite, hset, hgroup, Bool.false_eq_true, if_false, hstep]

/-- A scan that reads a condition is a successful scan. -/
theorem Scans.scanRange_eq (h : Scans cs stop i sc r) : scanRange cs stop i sc = .ok r := by
  induction h with
  | finish hle hfin => rw [scanRange_of_le hle, hfin]
  | group h hset hs hc hclose hlt hcs _ hall _ ihin ihrest =>
    rw [scanRange_group h hset hs hc hclose hlt hcs ihin hall, ihrest]
  | step h hset hparen hstep _ ih => rw [scanRange_step h hset hparen hstep, ih]

/-- Every successful scan is a `Scans`. -/
theorem Scans.of_scanRange (h : scanRange cs stop i sc = .ok r) : Scans cs stop i sc r := by
  fun_induction scanRange cs stop i sc generalizing r with
  | case1 => cases h
  | case2 => cases h
  | case3 => cases h
  | case4 => cases h
  | case5 =>
    rename_i stop i sc hi c sc₁ hset hgroup close hclose hlt inner hinner hall ihin ihrest
    simp only [Bool.and_eq_true, beq_iff_eq] at hgroup
    exact .group hi hset hgroup.1 hgroup.2 hclose hlt.1 hlt.2 (ihin hinner) (by simpa using hall) (ihrest h)
  | case6 => cases h
  | case7 => cases h
  | case8 =>
    rename_i stop i sc hi c next sc₁ hset hgroup sc₂ skip hstep ih
    simp only [Bool.and_eq_true, beq_iff_eq] at hgroup
    exact .step hi hset hgroup hstep (by simpa using ih h)
  | case9 stop i sc hi => exact .finish (by omega) h

/-! ## The places a scan records serve only its errors -/

/-- A scan state with the place of an open quote forgotten. -/
def ScanState.erase : ScanState → ScanState
  | .quoted q _ => .quoted q 0
  | st => st

/-- A scan with the places it records forgotten. -/
def Scan.erase (sc : Scan) : Scan := { sc with state := sc.state.erase, tokenStart := 0 }

/-- What a step gives when it succeeds, places forgotten. -/
def Scan.stepped (r : Scan.Step (Scan × Bool)) : Option (Scan × Bool) :=
  r.toOption.map fun p => (p.1.erase, p.2)

-- Every place a step writes goes into an error or into a field that `erase` forgets, so these
-- three follow by running the step on both sides.
theorem Scan.stepped_step (sc : Scan) (i : Nat) (c : Char) (next : Option Char) :
    Scan.stepped (sc.step i c next) = Scan.stepped (sc.erase.step 0 c next) := by
  obtain ⟨st, os, ks, tok, ts, col, cmp⟩ := sc
  cases st <;>
    simp only [Scan.step, Scan.erase, ScanState.erase, Scan.operandStep, Scan.afterOperandStep,
      Scan.beforeValueStep, Scan.pushClause, Scan.closeConnector] <;>
    split_ifs <;> (repeat' split) <;>
    simp_all [Scan.stepped, Except.toOption, Functor.map, Except.map, bind, Except.bind, Scan.erase, ScanState.erase]

theorem Scan.settled (sc : Scan) (c : Char) :
    (sc.settle c).toOption.map Scan.erase = (sc.erase.settle c).toOption.map Scan.erase := by
  obtain ⟨st, os, ks, tok, ts, col, cmp⟩ := sc
  cases st <;> simp only [Scan.settle, Scan.erase, ScanState.erase, Scan.closeConnector] <;>
    (repeat' split) <;> simp_all [Except.toOption, Scan.erase, ScanState.erase]

theorem Scan.finished (sc : Scan) (stop : Nat) : (sc.finish stop).toOption = (sc.erase.finish 0).toOption := by
  obtain ⟨st, os, ks, tok, ts, col, cmp⟩ := sc
  cases st <;> cases cmp <;>
    simp [Scan.finish, Scan.erase, ScanState.erase, Scan.pushClause, Except.toOption, bind, Except.bind, pure,
      Except.pure] <;>
    split_ifs <;> simp

variable {sc' : Scan}

theorem Scan.step_of_erase {sc₂ : Scan} {skip : Bool} {c : Char} {next : Option Char} (i' : Nat)
    (he : sc'.erase = sc.erase) (h : sc.step i c next = .ok (sc₂, skip)) :
    ∃ sc₂', sc'.step i' c next = .ok (sc₂', skip) ∧ sc₂'.erase = sc₂.erase := by
  have hs := Scan.stepped_step sc' i' c next
  rw [he, ← Scan.stepped_step sc i c next, h] at hs
  cases h' : sc'.step i' c next with
  | error e => simp [Scan.stepped, h', Except.toOption] at hs
  | ok p =>
    simp only [Scan.stepped, h', Except.toOption, Option.map_some, Option.some.injEq, Prod.mk.injEq] at hs
    exact ⟨p.1, by rw [← hs.2], hs.1⟩

theorem Scan.settle_of_erase {sc₁ : Scan} {c : Char} (he : sc'.erase = sc.erase) (h : sc.settle c = .ok sc₁) :
    ∃ sc₁', sc'.settle c = .ok sc₁' ∧ sc₁'.erase = sc₁.erase := by
  have hs := Scan.settled sc' c
  rw [he, ← Scan.settled sc c, h] at hs
  cases h' : sc'.settle c with
  | error e => simp [h', Except.toOption] at hs
  | ok sc₁' =>
    simp only [h', Except.toOption, Option.map_some, Option.some.injEq] at hs
    exact ⟨sc₁', rfl, hs⟩

theorem Scan.finish_of_erase {stop' : Nat} (he : sc'.erase = sc.erase) (h : sc.finish stop = .ok r) :
    sc'.finish stop' = .ok r := by
  have hs := Scan.finished sc' stop'
  rw [he, ← Scan.finished sc stop, h] at hs
  cases h' : sc'.finish stop' with
  | error e => simp [h', Except.toOption] at hs
  | ok r' => simpa [h', Except.toOption] using hs

theorem Scan.operand_iff_of_erase (he : sc'.erase = sc.erase) : sc'.state = .operand ↔ sc.state = .operand := by
  have hst : sc'.state.erase = sc.state.erase := congrArg Scan.state he
  cases h : sc'.state <;> cases h' : sc.state <;> simp_all [ScanState.erase]

/-- A group read, on two scans alike but for places. -/
theorem Scan.erase_group (he : sc'.erase = sc.erase) (o : Condition) :
    ({ sc' with operands := sc'.operands.push o, state := .afterOperand } : Scan).erase =
      ({ sc with operands := sc.operands.push o, state := .afterOperand } : Scan).erase := by
  simp only [Scan.erase, Scan.mk.injEq] at he ⊢
  simp_all [ScanState.erase]

/-! ## A range read at another place -/

section Shift

variable {cs' : Array Char} {k : Nat}

theorem closingParen_shift (hagree : ∀ j, j < stop → cs'.getD (j + k) ' ' = cs.getD j ' ')
    (i d : Nat) (q : Option Char) :
    closingParen cs' (stop + k) (i + k) d q = (closingParen cs stop i d q).map (· + k) := by
  induction hn : stop - i using Nat.strong_induction_on generalizing i d q with
  | _ n ih =>
    by_cases hi : i < stop
    · conv_lhs => rw [closingParen, dif_pos (show i + k < stop + k by omega)]
      conv_rhs => rw [closingParen, dif_pos hi]
      have hc : cs'.getD (i + k) ' ' = cs.getD i ' ' := hagree i hi
      -- the escape test reads the next character only when there is one
      have hesc : ∀ q, (cs.getD i ' ' == '\\' && decide (i + k + 1 < stop + k) &&
          cs'.getD (i + k + 1) ' ' == q) = (cs.getD i ' ' == '\\' && decide (i + 1 < stop) &&
          cs.getD (i + 1) ' ' == q) := by
        intro q
        by_cases h1 : i + 1 < stop
        · rw [show i + k + 1 = i + 1 + k by omega, hagree _ h1]
          simp [h1]
        · simp [h1, show ¬(i + k + 1 < stop + k) by omega]
      have hnext : ∀ m d q, 0 < m → m ≤ 2 → closingParen cs' (stop + k) (i + k + m) d q =
          (closingParen cs stop (i + m) d q).map (· + k) := fun m d q hm hm2 => by
        rw [show i + k + m = i + m + k by omega]
        exact ih (stop - (i + m)) (by omega) (i + m) d q rfl
      cases q <;> simp only [hc, hesc] <;> split_ifs <;> first
        | rfl
        | exact hnext 1 _ _ (by omega) (by omega)
        | exact hnext 2 _ _ (by omega) (by omega)
    · rw [closingParen, dif_neg (by omega), closingParen, dif_neg hi]
      rfl

theorem nextIn_shift (hagree : ∀ j, j < stop → cs'.getD (j + k) ' ' = cs.getD j ' ') (i : Nat) :
    nextIn cs' (stop + k) (i + k) = nextIn cs stop i := by
  unfold nextIn
  by_cases h : i + 1 < stop
  · rw [if_pos (by omega), if_pos h, show i + k + 1 = i + 1 + k by omega, hagree _ h]
  · rw [if_neg (by omega), if_neg h]

/-- A range read at another place, from a scan alike but for places, reads the same. -/
theorem Scans.shift (h : Scans cs stop i sc r) (hagree : ∀ j, j < stop → cs'.getD (j + k) ' ' = cs.getD j ' ')
    {sc' : Scan} (he : sc'.erase = sc.erase) : Scans cs' (stop + k) (i + k) sc' r := by
  induction h generalizing sc' with
  | finish hle hfin => exact .finish (by omega) (Scan.finish_of_erase he hfin)
  | @group stop i close sc sc₁ inner r h hset hs hc hclose hlt hcs _ hall _ ihin ihrest =>
    have hci := hagree i h
    obtain ⟨sc₁', hset', he₁⟩ := Scan.settle_of_erase he hset
    have hclose' : closingParen cs' (stop + k) (i + k) 0 none = some (close + k) := by
      rw [closingParen_shift hagree, hclose]
      rfl
    refine .group (by omega) (by rw [hci]; exact hset') ((Scan.operand_iff_of_erase he₁).2 hs) (by rw [hci]; exact hc)
      hclose' (by omega) (by omega) ?_ hall ?_
    · have hin := ihin (fun j hj => hagree j (by omega)) (show ({} : Scan).erase = ({} : Scan).erase from rfl)
      rwa [show i + 1 + k = i + k + 1 by omega] at hin
    · have hrest := ihrest hagree (Scan.erase_group he₁ inner)
      rwa [show close + 1 + k = close + k + 1 by omega] at hrest
  | @step stop i sc sc₁ sc₂ skip r h hset hparen hstep _ ih =>
    have hci := hagree i h
    obtain ⟨sc₁', hset', he₁⟩ := Scan.settle_of_erase he hset
    obtain ⟨sc₂', hstep', he₂⟩ := Scan.step_of_erase (i + k) he₁ hstep
    refine .step (by omega) (by rw [hci]; exact hset') ?_ (by rw [hci, nextIn_shift hagree]; exact hstep') ?_
    · rw [hci, Scan.operand_iff_of_erase he₁]
      exact hparen
    · have hrest := ih hagree he₂
      have hidx : (if skip then i + 2 else i + 1) + k = if skip then i + k + 2 else i + k + 1 := by
        split <;> omega
      rwa [hidx] at hrest

end Shift

/-! ## Literals with no quote -/

/-- The characters `closingParen` takes for quotes. -/
def isQuote (c : Char) : Bool := c == '\'' || c == '"'

mutual
/-- Whether no literal of the condition holds a quote character. -/
def Condition.quoteFree : Condition → Bool
  | .all => true
  | .clause cl => !cl.literal.toList.any isQuote
  | .compound os _ => Condition.allQuoteFree os

/-- Whether no literal of the conditions holds a quote character. -/
def Condition.allQuoteFree : List Condition → Bool
  | [] => true
  | o :: os => o.quoteFree && Condition.allQuoteFree os
end

@[simp] theorem Condition.allQuoteFree_append (l₁ l₂ : List Condition) :
    Condition.allQuoteFree (l₁ ++ l₂) = (Condition.allQuoteFree l₁ && Condition.allQuoteFree l₂) := by
  induction l₁ with
  | nil => simp [Condition.allQuoteFree]
  | cons o l ih => simp [Condition.allQuoteFree, ih, Bool.and_assoc]

@[simp] theorem Condition.allQuoteFree_push (os : Array Condition) (o : Condition) :
    Condition.allQuoteFree (os.push o).toList = (Condition.allQuoteFree os.toList && o.quoteFree) := by
  simp [Condition.allQuoteFree]

/-- A scan whose operands hold no quote in their literals, and whose bare value, while it reads
one, holds none either. -/
structure Scan.Clean (sc : Scan) : Prop where
  operands : Condition.allQuoteFree sc.operands.toList = true
  token : sc.state = .unquoted → sc.token.toList.any isQuote = false

/-- The condition a range finishes with holds a quote exactly where one of its operands does. -/
theorem quoteFree_finished (sc : Scan) :
    (if sc.connectors.isEmpty && sc.operands.size == 1 then sc.operands.getD 0 .all
      else .compound sc.operands.toList sc.connectors.toList).quoteFree =
      Condition.allQuoteFree sc.operands.toList := by
  split
  · rename_i h
    simp only [Bool.and_eq_true, beq_iff_eq] at h
    obtain ⟨o, ho⟩ := Array.size_eq_one_iff.mp h.2
    simp [ho, Condition.allQuoteFree]
  · simp [Condition.quoteFree]

theorem Scan.Clean.of_finish (h : sc.finish stop = .ok r) (hr : r.quoteFree = true) : sc.Clean := by
  -- every way to finish ends by joining the operands gathered, which must then hold no quote
  have hjoin : ∀ sc' : Scan, (if sc'.connectors.isEmpty && sc'.operands.size == 1 then
      (.ok (sc'.operands.getD 0 .all) : Scan.Step Condition) else .ok (.compound sc'.operands.toList sc'.connectors.toList)) =
      .ok r → Condition.allQuoteFree sc'.operands.toList = true := by
    intro sc' h'
    rw [← quoteFree_finished sc']
    split at h' <;> cases h' <;> rename_i hc <;> simpa [hc] using hr
  obtain ⟨st, os, ks, tok, ts, col, cmp⟩ := sc
  cases st <;> simp only [Scan.finish, Scan.pushClause, bind, Except.bind, pure, Except.pure] at h
  case operand =>
    split at h
    · rename_i hempty
      exact ⟨by simp [Array.isEmpty_iff.mp hempty, Condition.allQuoteFree], by simp⟩
    · cases h
  case unquoted =>
    cases cmp with
    | none => cases h
    | some cmp =>
      have hos := hjoin _ h
      simp only [Condition.allQuoteFree_push, Bool.and_eq_true, Condition.quoteFree, Bool.not_eq_true'] at hos
      exact ⟨hos.1, fun _ => hos.2⟩
  case afterOperand => exact ⟨hjoin _ h, by simp⟩
  all_goals cases h

/-- Closing a connector only records it. -/
theorem Scan.closeConnector_ok {sc₁ : Scan} (h : sc.closeConnector = .ok sc₁) :
    ∃ k, sc₁ = { sc with connectors := sc.connectors.push k, token := "", state := .operand } := by
  unfold Scan.closeConnector at h
  split at h <;> cases h
  exacts [⟨.and, rfl⟩, ⟨.or, rfl⟩]

/-- Closing a clause takes the token for its literal. -/
theorem Scan.pushClause_ok {sc₁ : Scan} {pos : Nat} (h : sc.pushClause pos = .ok sc₁) :
    ∃ cmp, sc₁ = { sc with
      operands := sc.operands.push (.clause ⟨sc.column, cmp, sc.token⟩)
      column := "", comparison := none, token := "" } := by
  unfold Scan.pushClause at h
  split at h <;> cases h
  exact ⟨_, rfl⟩

theorem Scan.Clean.of_settle {sc₁ : Scan} {c : Char} (h : sc.settle c = .ok sc₁) (hc : sc₁.Clean) : sc.Clean := by
  unfold Scan.settle at h
  split at h
  · rename_i hconn
    simp only [Bool.and_eq_true, beq_iff_eq] at hconn
    obtain ⟨k, rfl⟩ := Scan.closeConnector_ok h
    exact ⟨hc.operands, by simp [hconn.1]⟩
  · cases h
    exact hc

/-- A step keeps the operands, or closes a clause with the token for its literal. -/
theorem Scan.step_operands {sc₂ : Scan} {c : Char} {next : Option Char} {skip : Bool}
    (h : sc.step i c next = .ok (sc₂, skip)) :
    sc₂.operands = sc.operands ∨ ∃ cmp, sc₂.operands = sc.operands.push (.clause ⟨sc.column, cmp, sc.token⟩) := by
  obtain ⟨st, os, ks, tok, ts, col, cmp⟩ := sc
  cases st <;>
    simp only [Scan.step, Scan.operandStep, Scan.afterOperandStep, Scan.beforeValueStep, Functor.map, Except.map,
      bind, Except.bind] at h <;>
    split_ifs at h <;> (repeat' split at h) <;> (try cases h) <;>
    (try simp only [Except.ok.injEq, reduceCtorEq] at *) <;> (try subst_vars)
  all_goals first
    | (obtain ⟨cmp, rfl⟩ := Scan.pushClause_ok ‹Scan.pushClause _ _ = _›; exact .inr ⟨cmp, rfl⟩)
    | (obtain ⟨k, rfl⟩ := Scan.closeConnector_ok ‹Scan.closeConnector _ = _›; exact .inl rfl)
    | simp

/-- In a bare value a step closes the clause or takes the character onto the value. -/
theorem Scan.step_unquoted {sc₂ : Scan} {c : Char} {next : Option Char} {skip : Bool} (hs : sc.state = .unquoted)
    (h : sc.step i c next = .ok (sc₂, skip)) :
    (∃ cmp, sc₂.operands = sc.operands.push (.clause ⟨sc.column, cmp, sc.token⟩)) ∨
      sc₂.state = .unquoted ∧ sc₂.token = sc.token.push c := by
  obtain ⟨st, os, ks, tok, ts, col, cmp⟩ := sc
  subst hs
  simp only [Scan.step, Scan.afterOperandStep, Functor.map, Except.map, bind, Except.bind] at h
  split_ifs at h <;> (repeat' split at h) <;> (try cases h) <;>
    (try simp only [Except.ok.injEq, reduceCtorEq] at *) <;> (try subst_vars)
  all_goals first
    | (obtain ⟨cmp, rfl⟩ := Scan.pushClause_ok ‹Scan.pushClause _ _ = _›; exact .inl ⟨cmp, rfl⟩)
    | exact .inr ⟨rfl, rfl⟩
    | simp

theorem Scan.Clean.of_step {sc₂ : Scan} {c : Char} {next : Option Char} {skip : Bool}
    (h : sc.step i c next = .ok (sc₂, skip)) (hc : sc₂.Clean) : sc.Clean := by
  obtain ⟨ho, ht⟩ := hc
  refine ⟨?_, fun hs => ?_⟩
  · rcases Scan.step_operands h with heq | ⟨cmp, heq⟩
    · rwa [heq] at ho
    · rw [heq, Condition.allQuoteFree_push, Bool.and_eq_true] at ho
      exact ho.1
  · rcases Scan.step_unquoted hs h with ⟨cmp, heq⟩ | ⟨hs₂, htok⟩
    · rw [heq, Condition.allQuoteFree_push, Bool.and_eq_true] at ho
      simpa [Condition.quoteFree] using ho.2
    · have htok₂ := ht hs₂
      rw [htok, String.toList_push, List.any_append, Bool.or_eq_false_iff] at htok₂
      exact htok₂.1

/-- Along a scan that reads a condition with no quote in its literals, every scan is clean. -/
theorem Scans.clean (h : Scans cs stop i sc r) (hr : r.quoteFree = true) : sc.Clean := by
  induction h with
  | finish _ hfin => exact .of_finish hfin hr
  | group _ hset hs _ _ _ _ _ _ _ _ ihrest =>
    have hops := (ihrest hr).operands
    simp only [Condition.allQuoteFree_push, Bool.and_eq_true] at hops
    exact .of_settle hset ⟨hops.1, by simp [hs]⟩
  | step _ hset _ hstep _ ih => exact .of_settle hset (.of_step hstep (ih hr))

/-! ## Where the scan stands in a quoted string -/

/-- The quote of the string the scan is in, if it is in one. -/
def Scan.openQuote (sc : Scan) : Option Char :=
  match sc.state with
  | .quoted q _ => some q
  | _ => none

theorem Scan.openQuote_settle {sc₁ : Scan} {c : Char} (h : sc.settle c = .ok sc₁) : sc₁.openQuote = sc.openQuote := by
  unfold Scan.settle at h
  split at h
  · rename_i hconn
    simp only [Bool.and_eq_true, beq_iff_eq] at hconn
    obtain ⟨k, rfl⟩ := Scan.closeConnector_ok h
    simp [Scan.openQuote, hconn.1]
  · cases h
    rfl

theorem plain_of_blank {c : Char} (h : isBlank c = true) : Plain c := by
  refine ⟨?_, ?_, ?_, ?_⟩ <;> rintro rfl <;> revert h <;> decide

/-- Outside quotes a step uses one character, never a parenthesis (groups are read apart), and
opens a quoted string exactly at a quote, unless it takes the quote into a bare value. -/
theorem Scan.step_outside_quote {sc₂ : Scan} {c : Char} {next : Option Char} {skip : Bool}
    (hq : sc.openQuote = none) (h : sc.step i c next = .ok (sc₂, skip)) :
    skip = false ∧ c ≠ '(' ∧ c ≠ ')' ∧
      (sc₂.openQuote = (if isQuote c then some c else none) ∨
        sc₂.state = .unquoted ∧ sc₂.token.toList.any isQuote = true) := by
  obtain ⟨st, os, ks, tok, ts, col, cmp⟩ := sc
  cases st <;>
    simp only [Scan.step, Scan.operandStep, Scan.afterOperandStep, Scan.beforeValueStep, Functor.map, Except.map,
      bind, Except.bind] at h <;>
    split_ifs at h <;> (repeat' split at h) <;> (try cases h) <;>
    (try simp only [Except.ok.injEq, reduceCtorEq] at *) <;> (try subst_vars)
  all_goals (try obtain ⟨cmp, rfl⟩ := Scan.pushClause_ok ‹Scan.pushClause _ _ = _›)
  all_goals (try obtain ⟨k, rfl⟩ := Scan.closeConnector_ok ‹Scan.closeConnector _ = _›)
  all_goals (try have := plain_of_blank ‹isBlank c = true›)
  all_goals (try simp_all [Scan.openQuote, isQuote, isWordChar, isOperatorChar, isValueEnd, String.toList_push, Plain])
  all_goals first
    | ((repeat' apply And.intro) <;> rintro rfl <;> simp_all)
    | tauto

/-- Inside a quoted string a step takes an escaped quote as one character, ends the string at its
quote, and takes any other character onto the literal. -/
theorem Scan.step_in_quote {sc₂ : Scan} {c q : Char} {st : Nat} {next : Option Char} {skip : Bool}
    (hs : sc.state = .quoted q st) (h : sc.step i c next = .ok (sc₂, skip)) :
    (c = '\\' ∧ next = some q ∧ skip = true ∧ sc₂.openQuote = some q) ∨
      ¬(c = '\\' ∧ next = some q) ∧ skip = false ∧ sc₂.openQuote = if c = q then none else some q := by
  obtain ⟨st', os, ks, tok, ts, col, cmp⟩ := sc
  subst hs
  simp only [Scan.step, bind, Except.bind] at h
  split_ifs at h <;> (repeat' split at h) <;> (try cases h)
  all_goals (try obtain ⟨cmp, rfl⟩ := Scan.pushClause_ok ‹Scan.pushClause _ _ = _›)
  all_goals simp_all [Scan.openQuote]

theorem Scan.openQuote_of_finish (h : sc.finish stop = .ok r) : sc.openQuote = none := by
  obtain ⟨st, os, ks, tok, ts, col, cmp⟩ := sc
  cases st <;> first
    | rfl
    | simp [Scan.finish, bind, Except.bind] at h

/-- A scan at the end of its range is in no quoted string. -/
theorem Scans.openQuote_of_le (h : Scans cs stop i sc r) (hle : stop ≤ i) : sc.openQuote = none := by
  cases h with
  | finish _ hfin => exact Scan.openQuote_of_finish hfin
  | group h => omega
  | step h => omega

/-! ## Where `closingParen` stands -/

variable {S d : Nat}

theorem closingParen_quote (h : i < S) (hc : isQuote (cs.getD i ' ') = true) :
    closingParen cs S i d none = closingParen cs S (i + 1) d (some (cs.getD i ' ')) := by
  rw [closingParen, dif_pos h]
  generalize cs.getD i ' ' = x at hc ⊢
  simp only [isQuote] at hc
  simp [hc]

theorem closingParen_plain (h : i < S) (hc : Plain (cs.getD i ' ')) :
    closingParen cs S i d none = closingParen cs S (i + 1) d none := by
  obtain ⟨h₁, h₂, h₃, h₄⟩ := hc
  rw [closingParen, dif_pos h]
  generalize cs.getD i ' ' = x at h₁ h₂ h₃ h₄ ⊢
  simp [h₁, h₂, h₃, h₄]

theorem closingParen_quoted {q : Char} (h : i < S) :
    closingParen cs S i d (some q) =
      if cs.getD i ' ' = '\\' ∧ i + 1 < S ∧ cs.getD (i + 1) ' ' = q then closingParen cs S (i + 2) d (some q)
      else if cs.getD i ' ' = q then closingParen cs S (i + 1) d none
      else closingParen cs S (i + 1) d (some q) := by
  rw [closingParen, dif_pos h]
  simp [Bool.and_eq_true, and_assoc]

/-- What `closingParen` finds is a closing parenthesis. -/
theorem closingParen_at_close {j : Nat} {q : Option Char} (h : closingParen cs S i d q = some j) :
    cs.getD j ' ' = ')' := by
  fun_induction closingParen cs S i d q <;> simp_all +zetaDelta

theorem openQuote_quoted {q : Char} (h : sc.openQuote = some q) : ∃ st, sc.state = .quoted q st := by
  unfold Scan.openQuote at h
  split at h <;> cases h
  exact ⟨_, ‹_›⟩

/-- Inside a group, `closingParen` passes over a range the scan reads whole, its quote open exactly
where the scan's is, and finds nothing in it. -/
theorem Scans.skips (h : Scans cs stop i sc r) (hr : r.quoteFree = true) (hi : i ≤ stop) (hS : stop ≤ S)
    (hq : ∀ q, sc.openQuote = some q → isQuote q = true) (hd : 1 ≤ d) :
    closingParen cs S i d sc.openQuote = closingParen cs S stop d none := by
  induction h generalizing d with
  | @finish stop i sc r hle hfin => rw [Scan.openQuote_of_finish hfin, show i = stop by omega]
  | @group stop i close sc sc₁ inner r h hset hs hc hclose hlt hcs hin hall hrest ihin ihrest =>
    have hq₁ : sc.openQuote = none := by
      rw [← Scan.openQuote_settle hset]
      simp [Scan.openQuote, hs]
    -- the group's condition is one of the operands of the condition read
    have hinner : inner.quoteFree = true := by
      have hops := (hrest.clean hr).operands
      simp only [Condition.allQuoteFree_push, Bool.and_eq_true] at hops
      exact hops.2
    calc closingParen cs S i d sc.openQuote
        = closingParen cs S (i + 1) (d + 1) none := by rw [hq₁, closingParen_open (by omega) hc]
      _ = closingParen cs S close (d + 1) none :=
          ihin hinner (by omega) (by omega) (by simp [Scan.openQuote]) (by omega)
      _ = closingParen cs S (close + 1) d none := closingParen_close (by omega) (closingParen_at_close hclose) hd
      _ = closingParen cs S stop d none := ihrest hr (by omega) hS (by simp [Scan.openQuote]) hd
  | @step stop i sc sc₁ sc₂ skip r h hset hparen hstep hrest ih =>
    rw [← Scan.openQuote_settle hset]
    rw [← Scan.openQuote_settle hset] at hq
    cases hsq : sc₁.openQuote with
    | none =>
      obtain ⟨hskip, hlp, hrp, hopen⟩ := Scan.step_outside_quote hsq hstep
      subst hskip
      simp only [Bool.false_eq_true, if_false] at ih
      -- a quote taken into a bare value would leave a quote in a literal
      have hopen' : sc₂.openQuote = if isQuote (cs.getD i ' ') then some (cs.getD i ' ') else none := by
        rcases hopen with hopen | ⟨hs₂, htok⟩
        · exact hopen
        · have hclean := (hrest.clean hr).token hs₂
          rw [htok] at hclean
          cases hclean
      have ih' := ih hr (by omega) hS (fun q hq' => by
        rw [hopen'] at hq'
        split at hq' <;> cases hq'
        assumption) hd
      by_cases hquote : isQuote (cs.getD i ' ') = true
      · rw [closingParen_quote (by omega) hquote, ← ih', hopen', if_pos hquote]
      · have hplain : Plain (cs.getD i ' ') := by
          simp only [isQuote, Bool.or_eq_true, beq_iff_eq, not_or] at hquote
          exact ⟨hquote.1, hquote.2, hlp, hrp⟩
        rw [closingParen_plain (by omega) hplain, ← ih', hopen', if_neg hquote]
    | some q =>
      obtain ⟨st, hst⟩ := openQuote_quoted hsq
      have hqq : isQuote q = true := hq q hsq
      rcases Scan.step_in_quote hst hstep with ⟨hc, hnext, hskip, hopen⟩ | ⟨hnesc, hskip, hopen⟩
      · -- an escaped quote: both pass over two characters
        subst hskip
        simp only [nextIn] at hnext
        split at hnext <;> cases hnext
        rename_i hlt
        simp only [if_true] at ih
        rw [closingParen_quoted (by omega), if_pos ⟨hc, by omega, rfl⟩, ← hopen]
        exact ih hr (by omega) hS (by rw [hopen]; rintro q' ⟨⟩; exact hqq) hd
      · subst hskip
        simp only [Bool.false_eq_true, if_false] at ih hrest
        -- `closingParen` sees no escape either: an escape at the range's last character would
        -- leave the string open at its end
        have hnesc' : ¬(cs.getD i ' ' = '\\' ∧ i + 1 < S ∧ cs.getD (i + 1) ' ' = q) := by
          rintro ⟨hc, hlt, hcq⟩
          by_cases hlt' : i + 1 < stop
          · exact hnesc ⟨hc, by simp [nextIn, hlt', hcq]⟩
          · have hend := hrest.openQuote_of_le (by omega)
            have hcq' : cs.getD i ' ' ≠ q := by
              rintro hcq'
              rw [← hcq', hc] at hqq
              exact absurd hqq (by decide)
            rw [hopen, if_neg hcq'] at hend
            cases hend
        have ih' := ih hr (by omega) hS (fun q' hq' => by
          rw [hopen] at hq'
          split at hq' <;> cases hq'
          exact hqq) hd
        rw [closingParen_quoted (by omega), if_neg hnesc', ← ih', hopen]
        by_cases hcq : cs.getD i ' ' = q
        · rw [if_pos hcq, if_pos hcq]
        · rw [if_neg hcq, if_neg hcq]

/-! ## Deciding equality of conditions -/

mutual
/-- Equality of conditions, decided along their structure. -/
def Condition.decEq : (a b : Condition) → Decidable (a = b)
  | .all, .all => isTrue rfl
  | .clause x, .clause y =>
    if h : x = y then isTrue (h ▸ rfl) else isFalse fun e => h (Condition.clause.inj e)
  | .compound os ks, .compound os' ks' =>
    match Condition.decEqList os os' with
    | isTrue h₁ =>
      if h₂ : ks = ks' then isTrue (h₁ ▸ h₂ ▸ rfl) else isFalse fun e => h₂ (Condition.compound.inj e).2
    | isFalse h₁ => isFalse fun e => h₁ (Condition.compound.inj e).1
  | .all, .clause _ | .all, .compound _ _ | .clause _, .all | .clause _, .compound _ _
  | .compound _ _, .all | .compound _ _, .clause _ => isFalse fun e => by cases e

/-- Equality of lists of conditions, decided element by element. -/
def Condition.decEqList : (a b : List Condition) → Decidable (a = b)
  | [], [] => isTrue rfl
  | o :: os, o' :: os' =>
    match Condition.decEq o o', Condition.decEqList os os' with
    | isTrue h₁, isTrue h₂ => isTrue (h₁ ▸ h₂ ▸ rfl)
    | isFalse h₁, _ => isFalse fun e => h₁ (List.cons.inj e).1
    | _, isFalse h₂ => isFalse fun e => h₂ (List.cons.inj e).2
  | [], _ :: _ | _ :: _, [] => isFalse fun e => by cases e
end

instance : DecidableEq Condition := Condition.decEq

/-! ## A condition in parentheses -/

theorem parse_eq_ok {text : String} {t : Condition} :
    parse text = .ok t ↔ scanRange text.toList.toArray text.toList.toArray.size 0 {} = .ok t := by
  simp only [parse]
  split <;> simp_all

/-- Where no literal holds a quote, a condition that is not empty reads the same in parentheses. -/
theorem parse_group {c : String} {t : Condition} (h : parse c = .ok t) (hall : t.isAll = false)
    (hq : t.quoteFree = true) : parse ("(" ++ c ++ ")") = .ok t := by
  set n := c.toList.length
  have hat : At ("(" ++ c ++ ")").toList.toArray 0 ('(' :: (c.toList ++ [')'])) := by
    have := at_toArray ("(" ++ c ++ ")").toList
    simpa [String.toList_append] using this
  obtain ⟨hopen, hrest⟩ := at_cons.mp hat
  obtain ⟨hbody, hclose⟩ := at_append.mp hrest
  set cs' := ("(" ++ c ++ ")").toList.toArray
  have hsize : cs'.size = n + 2 := by simp [cs', String.toList_append, n]
  -- the condition's range, read one place later
  have hagree : ∀ j, j < n → cs'.getD (j + 1) ' ' = c.toList.toArray.getD j ' ' := by
    intro j hj
    have h₁ := hbody j hj
    have h₂ := at_toArray c.toList j hj
    simp only [Nat.zero_add] at h₁ h₂
    rw [Array.getD_eq_getD_getElem?, Array.getD_eq_getD_getElem?, Nat.add_comm j 1, h₁, h₂]
  have hinner : Scans cs' (n + 1) 1 {} t := by
    have := (Scans.of_scanRange (parse_eq_ok.mp h)).shift (k := 1) (by simpa using hagree) rfl
    simpa using this
  have hfound : closingParen cs' (n + 2) 0 0 none = some (n + 1) := by
    rw [closingParen_open (by omega) (getD_of_at hat),
      show closingParen cs' (n + 2) (0 + 1) (0 + 1) none = closingParen cs' (n + 2) 1 1 ({} : Scan).openQuote from rfl,
      hinner.skips hq (by omega) (by omega) (by simp [Scan.openQuote]) le_rfl,
      closingParen_found (by omega) (getD_of_at (show At cs' (n + 1) [')'] by simpa [Nat.add_comm, n] using hclose))]
  have hscan : Scans cs' (n + 2) 0 {} t :=
    .group (by omega) rfl rfl (getD_of_at hat) hfound (by omega) (by omega) hinner hall
      (.finish le_rfl (by simp [Scan.finish, pure, Except.pure, bind, Except.bind]))
  rw [parse_eq_ok, hsize]
  exact hscan.scanRange_eq

/-- A group of one clause whose value holds a quote and a closing parenthesis reads as the
clause. -/
theorem parse_group_quoted :
    parse "a == 'x)' || b < 2" = .ok (.compound [.clause ⟨"a", .eq, "x)"⟩, .clause ⟨"b", .lt, "2"⟩] [.or]) ∧
      (Condition.compound [.clause ⟨"a", .eq, "x)"⟩, .clause ⟨"b", .lt, "2"⟩] [.or]).isAll = false ∧
      (Condition.compound [.clause ⟨"a", .eq, "x)"⟩, .clause ⟨"b", .lt, "2"⟩] [.or]).quoteFree = true ∧
      parse ("(" ++ "a == 'x)' || b < 2" ++ ")") =
        .ok (.compound [.clause ⟨"a", .eq, "x)"⟩, .clause ⟨"b", .lt, "2"⟩] [.or]) :=
  have h : parse "a == 'x)' || b < 2" = .ok (.compound [.clause ⟨"a", .eq, "x)"⟩, .clause ⟨"b", .lt, "2"⟩] [.or]) := by
    decide +kernel
  ⟨h, rfl, rfl, parse_group h rfl rfl⟩

/-- A bare value may hold a quote, which `closingParen` takes for the start of a string: the
clause reads alone and not in parentheses. -/
theorem parse_group_bare_quote :
    parse "a == b\"" = .ok (.clause ⟨"a", .eq, "b\""⟩) ∧
      parse ("(" ++ "a == b\"" ++ ")") = .error ⟨"(a == b\")", 0, .closeExpected⟩ := by
  decide +kernel

end ColumnDb.Query
