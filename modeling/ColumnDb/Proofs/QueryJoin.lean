import Mathlib
import ColumnDb.Collection.Query

/-!
# Joining the results of a condition's operands

A compound condition evaluates its operands and joins their id lists: each
`&&` first, keeping the ids of the left side that the right one has, then
each `||`, adding the ids of the right side not seen yet. Read as lists this
is: the operands are cut into groups at each `||` (`orGroups`); a group gives
the ids of its first operand that all its other operands have (`groupIds`);
the groups' ids follow one another and each id is kept at its first
occurrence (`joinIds`).

`combine_ids` proves that `Matches.combine` answers exactly `joinIds` when the
ids of each operand are distinct, as those of one column's rows are. The
set-based steps become list filters (`and_ids`, `or_ids`), and
`List.eraseDups`, which keeps first occurrences, gets the few facts the
proof needs: it leaves distinct ids alone, it commutes with a filter, and a
second pass over a tail changes nothing.
-/

set_option autoImplicit false

namespace ColumnDb

open ColumnDb.Query

/-! ## First occurrences -/

section EraseDups

theorem eraseDups_of_nodup : ∀ {l : List Nat}, l.Nodup → l.eraseDups = l
  | [], _ => rfl
  | a :: l, h => by
    obtain ⟨ha, hl⟩ := List.nodup_cons.mp h
    have hkeep : (l.filter fun b => !b == a) = l :=
      List.filter_eq_self.mpr fun b hb => by simpa using fun hba : b = a => ha (hba ▸ hb)
    rw [List.eraseDups_cons, hkeep, eraseDups_of_nodup hl]

theorem nodup_eraseDups : ∀ l : List Nat, l.eraseDups.Nodup
  | [] => List.nodup_nil
  | a :: l => by
    rw [List.eraseDups_cons]
    refine List.nodup_cons.mpr ⟨fun h => ?_, nodup_eraseDups _⟩
    simp [List.mem_eraseDups] at h
termination_by l => l.length
decreasing_by exact Nat.lt_succ_of_le (List.length_filter_le _ _)

/-- Keeping first occurrences commutes with a filter. -/
theorem eraseDups_filter (p : Nat → Bool) : ∀ l : List Nat, (l.filter p).eraseDups = l.eraseDups.filter p
  | [] => rfl
  | a :: l => by
    have ih := eraseDups_filter p (l.filter fun b => !b == a)
    have hswap : ((l.filter p).filter fun b => !b == a) = (l.filter fun b => !b == a).filter p := by
      rw [List.filter_filter, List.filter_filter]
      exact List.filter_congr fun b _ => Bool.and_comm _ _
    rw [List.eraseDups_cons, List.filter_cons]
    by_cases hpa : p a = true
    · rw [List.filter_cons, if_pos hpa, if_pos hpa, List.eraseDups_cons, hswap, ih]
    · -- `a` fails the filter, so dropping it from what passes changes nothing
      have hdrop : ((l.filter p).filter fun b => !b == a) = l.filter p :=
        List.filter_eq_self.mpr fun b hb => by
          have hpb := (List.mem_filter.mp hb).2
          simpa using fun hba : b = a => hpa (hba ▸ hpb)
      rw [if_neg hpa, List.filter_cons, if_neg hpa, ← ih, ← hswap, hdrop]
termination_by l => l.length
decreasing_by exact Nat.lt_succ_of_le (List.length_filter_le _ _)

theorem removeAll_eq_filter (a b : List Nat) : b.removeAll a = b.filter fun k => decide (k ∉ a) := by
  unfold List.removeAll
  exact List.filter_congr fun k _ => by simp

/-- After distinct ids, what follows adds the ids not seen yet, each at its first occurrence. -/
theorem eraseDups_append_of_nodup {a : List Nat} (ha : a.Nodup) (b : List Nat) :
    (a ++ b).eraseDups = a ++ (b.filter fun k => decide (k ∉ a)).eraseDups := by
  rw [List.eraseDups_append, eraseDups_of_nodup ha, removeAll_eq_filter]

/-- First occurrences of a tail taken twice are taken once. -/
theorem eraseDups_append_eraseDups (a b : List Nat) : (a ++ b.eraseDups).eraseDups = (a ++ b).eraseDups := by
  rw [List.eraseDups_append, List.eraseDups_append, removeAll_eq_filter, removeAll_eq_filter,
    eraseDups_filter _ b, eraseDups_of_nodup ((nodup_eraseDups b).filter _)]

end EraseDups

/-! ## The joins as list operations -/

namespace Matches

theorem compare_beq_eq (x y : Nat) : (compare x y == .eq) = (y == x) := by
  rw [Bool.eq_iff_iff, beq_iff_eq, beq_iff_eq, compare_eq_iff_eq, eq_comm]

theorem contains_foldl_insert (L : List Nat) (s : Std.TreeSet Nat) (k : Nat) :
    (L.foldl (·.insert ·) s).contains k = (decide (k ∈ L) || s.contains k) := by
  induction L generalizing s with
  | nil => simp
  | cons x L ih =>
    rw [List.foldl_cons, ih, Std.TreeSet.contains_insert, compare_beq_eq]
    by_cases hx : x = k
    · subst hx
      simp
    · rw [beq_false_of_ne (Ne.symm hx), Bool.false_or]
      simp [Ne.symm hx]

theorem contains_ids (ids : List Nat) (k : Nat) :
    (ids.foldl (·.insert ·) (∅ : Std.TreeSet Nat)).contains k = decide (k ∈ ids) := by
  rw [contains_foldl_insert, Std.TreeSet.contains_emptyc, Bool.or_false]

/-- `&&` keeps the left ids that the right side has, in the left order. -/
theorem and_ids (a b : Matches) : (a.and b).ids = a.ids.filter fun k => decide (k ∈ b.ids) := by
  unfold Matches.and
  dsimp only
  split
  next hb =>
    rw [List.isEmpty_iff.mp hb]
    simp
  next => exact List.filter_congr fun k _ => contains_ids b.ids k

/-- The loop of `||`: each id not seen yet is pushed and then counts as seen. -/
theorem foldl_push_unseen (L : List Nat) (out : Array Nat) (seen : Std.TreeSet Nat) :
    (L.foldl (fun (acc : Array Nat × Std.TreeSet Nat) id =>
      if acc.2.contains id then acc else (acc.1.push id, acc.2.insert id)) (out, seen)).1.toList =
      out.toList ++ (L.filter fun k => !seen.contains k).eraseDups := by
  induction L generalizing out seen with
  | nil => simp
  | cons k L ih =>
    rw [List.foldl_cons, List.filter_cons]
    by_cases hk : seen.contains k = true
    · rw [if_pos hk, ih, if_neg (by simp [hk])]
    · rw [if_neg hk, ih, if_pos (by simp [hk]), List.eraseDups_cons, Array.toList_push,
        List.append_assoc, List.singleton_append]
      -- having seen `k` too is filtering `k` out after the others
      have hseen : (L.filter fun b => !(seen.insert k).contains b) =
          (L.filter fun b => !seen.contains b).filter fun b => !b == k := by
        rw [List.filter_filter]
        refine List.filter_congr fun b _ => ?_
        rw [Std.TreeSet.contains_insert, compare_beq_eq, Bool.not_or]
      rw [hseen]

/-- `||` keeps the left ids and adds the right ones not among them, each at its first
occurrence. -/
theorem or_ids (a b : Matches) :
    (a.or b).ids = a.ids ++ (b.ids.filter fun k => decide (k ∉ a.ids)).eraseDups := by
  rcases hfold : b.ids.foldl (fun (acc : Array Nat × Std.TreeSet Nat) id =>
      if acc.2.contains id then acc else (acc.1.push id, acc.2.insert id))
      (#[], a.ids.foldl (·.insert ·) ∅) with ⟨added, seen⟩
  have hadded := foldl_push_unseen b.ids #[] (a.ids.foldl (·.insert ·) ∅)
  rw [hfold] at hadded
  unfold Matches.or
  dsimp only
  rw [hfold]
  dsimp only
  have hunseen : (b.ids.filter fun k =>
      !(a.ids.foldl (·.insert ·) (∅ : Std.TreeSet Nat)).contains k) =
      b.ids.filter fun k => decide (k ∉ a.ids) :=
    List.filter_congr fun k _ => by rw [contains_ids]; simp
  rw [hadded, Array.toList_empty, List.nil_append, hunseen]

end Matches

/-! ## The join as groups -/

/-- The operands of a run, the first and then each after its connector, cut at each `||` into
the groups that `&&` joins. -/
def orGroups {α : Type} (first : α) : List (Connector × α) → List (List α)
  | [] => [[first]]
  | (.and, b) :: rest =>
    match orGroups b rest with
    | [] => [[first]]
    | g :: gs => (first :: g) :: gs
  | (.or, b) :: rest => [first] :: orGroups b rest

/-- The ids a group joined by `&&` selects: those of its first operand that all the others have. -/
def groupIds : List (List Nat) → List Nat
  | [] => []
  | first :: others => first.filter fun k => others.all fun ids => decide (k ∈ ids)

/-- The ids operand results joined by connectors select: the groups' ids one after another,
each id kept at its first occurrence. -/
def joinIds : List (List Nat) → List Connector → List Nat
  | [], _ => []
  | first :: rest, connectors => ((orGroups first (connectors.zip rest)).map groupIds).flatten.eraseDups

/-- The first group starts with the first operand, and the groups do not otherwise depend on it. -/
theorem orGroups_eq {α : Type} : ∀ pairs : List (Connector × α),
    ∃ g gs, ∀ first : α, orGroups first pairs = (first :: g) :: gs
  | [] => ⟨[], [], fun _ => rfl⟩
  | (.and, b) :: rest => by
    obtain ⟨g, gs, h⟩ := orGroups_eq rest
    exact ⟨b :: g, gs, fun first => by rw [orGroups, h b]⟩
  | (.or, b) :: rest => ⟨[], orGroups b rest, fun _ => rfl⟩

namespace Matches

/-- Folding the `&&`s gives each group's ids. -/
theorem joinAnds_ids : ∀ (pairs : List (Connector × Matches)) (cur : Matches),
    (joinAnds cur pairs).map ids = (orGroups cur.ids (pairs.map fun p => (p.1, p.2.ids))).map groupIds
  | [], cur => by simp [joinAnds, orGroups, groupIds]
  | (.and, m) :: rest, cur => by
    obtain ⟨g, gs, h⟩ := orGroups_eq (rest.map fun p => (p.1, p.2.ids))
    rw [joinAnds, joinAnds_ids rest, List.map_cons, orGroups, h, h, and_ids]
    simp only [List.map_cons, groupIds, List.filter_filter, List.all_cons]
    congr 2
    funext k
    exact Bool.and_comm _ _
  | (.or, m) :: rest, cur => by
    rw [joinAnds, List.map_cons, joinAnds_ids rest, List.map_cons, orGroups, List.map_cons]
    simp [groupIds]

/-- Every group's ids are distinct when every operand's are. -/
theorem nodup_joinAnds : ∀ (pairs : List (Connector × Matches)) (cur : Matches), cur.ids.Nodup →
    (∀ p ∈ pairs, p.2.ids.Nodup) → ∀ m ∈ joinAnds cur pairs, m.ids.Nodup
  | [], _, hcur, _, m, hm => by
    rw [joinAnds, List.mem_singleton] at hm
    exact hm ▸ hcur
  | (.and, m') :: rest, cur, hcur, hpairs, m, hm => by
    rw [joinAnds] at hm
    refine nodup_joinAnds rest _ ?_ (fun p hp => hpairs p (List.mem_cons_of_mem _ hp)) m hm
    rw [and_ids]
    exact hcur.filter _
  | (.or, m') :: rest, cur, hcur, hpairs, m, hm => by
    rw [joinAnds, List.mem_cons] at hm
    rcases hm with rfl | hm
    · exact hcur
    · exact nodup_joinAnds rest m' (hpairs _ List.mem_cons_self) (fun p hp => hpairs p (List.mem_cons_of_mem _ hp)) m hm

/-- Folding the `||`s from the right keeps each id at its first occurrence. -/
theorem joinOrs_ids : ∀ ms : List Matches, (∀ m ∈ ms, m.ids.Nodup) →
    (joinOrs ms).ids = (ms.map ids).flatten.eraseDups
  | [], _ => rfl
  | [m], h => by
    rw [joinOrs, List.map_singleton, List.flatten_singleton, eraseDups_of_nodup (h m List.mem_cons_self)]
  | m :: m' :: rest, h => by
    have hm := h m List.mem_cons_self
    have ih := joinOrs_ids (m' :: rest) fun x hx => h x (List.mem_cons_of_mem _ hx)
    have hor : joinOrs (m :: m' :: rest) = m.or (joinOrs (m' :: rest)) := rfl
    rw [hor, or_ids, ih, ← eraseDups_append_of_nodup hm, eraseDups_append_eraseDups]
    rfl

end Matches

/-- Joining operand results whose ids are distinct selects `joinIds` of their ids. -/
theorem combine_ids (results : List Matches) (connectors : List Connector)
    (h : ∀ m ∈ results, m.ids.Nodup) :
    (Matches.combine results connectors).ids = joinIds (results.map Matches.ids) connectors := by
  cases results with
  | nil => rfl
  | cons first rest =>
    have hpairs : ∀ p ∈ connectors.zip rest, p.2.ids.Nodup := fun p hp =>
      h p.2 (List.mem_cons_of_mem _ (List.of_mem_zip hp).2)
    rw [Matches.combine, Matches.joinOrs_ids _ (Matches.nodup_joinAnds _ first (h first List.mem_cons_self) hpairs),
      Matches.joinAnds_ids, List.map_cons, joinIds, List.zip_map_right]
    rfl

theorem nodup_joinIds (results : List (List Nat)) (connectors : List Connector) :
    (joinIds results connectors).Nodup := by
  cases results with
  | nil => exact List.nodup_nil
  | cons first rest => exact nodup_eraseDups _

end ColumnDb
