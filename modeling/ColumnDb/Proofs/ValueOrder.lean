import Mathlib
import ColumnDb.Value.Basic

/-!
# The order of values of one kind

Values of one kind are compared as numbers (integers, booleans), by the total
order on bit patterns (floats) or by their UTF-8 bytes (texts). Each is a
total order, so on values of one kind `Value.compare` is transitive
(`compare_le_trans`) and turns around when its arguments do
(`compare_lt_of_gt`): what a sorted column relies on to place a new value
after the last one not larger.
-/

set_option autoImplicit false

namespace ColumnDb

/-- Not larger, then not larger: not larger. -/
theorem Value.compare_le_trans : ∀ {a b c : Value}, a.kind = b.kind → b.kind = c.kind →
    a.compare b ≠ .gt → b.compare c ≠ .gt → a.compare c ≠ .gt
  | bool x, bool y, bool z, _, _, h₁, h₂ =>
    have h₁ : Ord.compare x y ≠ .gt := h₁
    have h₂ : Ord.compare y z ≠ .gt := h₂
    (Std.TransCmp.le_trans h₁ h₂ : Ord.compare x z ≠ .gt)
  | int _ x, int _ y, int _ z, _, _, h₁, h₂ =>
    have h₁ : Ord.compare x y ≠ .gt := h₁
    have h₂ : Ord.compare y z ≠ .gt := h₂
    (Std.TransCmp.le_trans h₁ h₂ : Ord.compare x z ≠ .gt)
  | float k x, float _ y, float _ z, hab, hbc, h₁, h₂ => by
    simp only [Value.kind, ValueKind.float.injEq] at hab hbc
    subst hab hbc
    -- floats compare by the integer key of their pattern
    have h₁ : Ord.compare (k.format.totalKey x) (k.format.totalKey y) ≠ .gt := h₁
    have h₂ : Ord.compare (k.format.totalKey y) (k.format.totalKey z) ≠ .gt := h₂
    exact (Std.TransCmp.le_trans h₁ h₂ : Ord.compare (k.format.totalKey x) (k.format.totalKey z) ≠ .gt)
  | text x, text y, text z, _, _, h₁, h₂ =>
    have h₁ : Ord.compare (Text.utf8Bytes x) (Text.utf8Bytes y) ≠ .gt := h₁
    have h₂ : Ord.compare (Text.utf8Bytes y) (Text.utf8Bytes z) ≠ .gt := h₂
    (Std.TransCmp.le_trans h₁ h₂ : Ord.compare (Text.utf8Bytes x) (Text.utf8Bytes z) ≠ .gt)
  | bool _, int _ _, _, hab, _, _, _ | bool _, float _ _, _, hab, _, _, _
  | bool _, text _, _, hab, _, _, _ | int _ _, bool _, _, hab, _, _, _
  | int _ _, float _ _, _, hab, _, _, _ | int _ _, text _, _, hab, _, _, _
  | float _ _, bool _, _, hab, _, _, _ | float _ _, int _ _, _, hab, _, _, _
  | float _ _, text _, _, hab, _, _, _ | text _, bool _, _, hab, _, _, _
  | text _, int _ _, _, hab, _, _, _ | text _, float _ _, _, hab, _, _, _ => by simp [Value.kind] at hab
  | bool _, bool _, int _ _, _, hbc, _, _ | bool _, bool _, float _ _, _, hbc, _, _
  | bool _, bool _, text _, _, hbc, _, _ | int _ _, int _ _, bool _, _, hbc, _, _
  | int _ _, int _ _, float _ _, _, hbc, _, _ | int _ _, int _ _, text _, _, hbc, _, _
  | float _ _, float _ _, bool _, _, hbc, _, _ | float _ _, float _ _, int _ _, _, hbc, _, _
  | float _ _, float _ _, text _, _, hbc, _, _ | text _, text _, bool _, _, hbc, _, _
  | text _, text _, int _ _, _, hbc, _, _ | text _, text _, float _ _, _, hbc, _, _ => by simp [Value.kind] at hbc

/-- Larger one way, smaller the other. -/
theorem Value.compare_lt_of_gt : ∀ {a b : Value}, a.kind = b.kind → a.compare b = .gt → b.compare a = .lt
  | bool x, bool y, _, h =>
    have h : Ord.compare x y = .gt := h
    (Std.OrientedCmp.lt_of_gt h : Ord.compare y x = .lt)
  | int _ x, int _ y, _, h =>
    have h : Ord.compare x y = .gt := h
    (Std.OrientedCmp.lt_of_gt h : Ord.compare y x = .lt)
  | float k x, float _ y, hab, h => by
    simp only [Value.kind, ValueKind.float.injEq] at hab
    subst hab
    have h : Ord.compare (k.format.totalKey x) (k.format.totalKey y) = .gt := h
    exact (Std.OrientedCmp.lt_of_gt h : Ord.compare (k.format.totalKey y) (k.format.totalKey x) = .lt)
  | text x, text y, _, h =>
    have h : Ord.compare (Text.utf8Bytes x) (Text.utf8Bytes y) = .gt := h
    (Std.OrientedCmp.lt_of_gt h : Ord.compare (Text.utf8Bytes y) (Text.utf8Bytes x) = .lt)
  | bool _, int _ _, hab, _ | bool _, float _ _, hab, _ | bool _, text _, hab, _
  | int _ _, bool _, hab, _ | int _ _, float _ _, hab, _ | int _ _, text _, hab, _
  | float _ _, bool _, hab, _ | float _ _, int _ _, hab, _ | float _ _, text _, hab, _
  | text _, bool _, hab, _ | text _, int _ _, hab, _ | text _, float _ _, hab, _ => by simp [Value.kind] at hab

/-- Turned around, a comparison of values of one kind turns around. -/
theorem Value.compare_swap : ∀ {a b : Value}, a.kind = b.kind → b.compare a = (a.compare b).swap
  | bool x, bool y, _ => (Std.OrientedCmp.eq_swap : Ord.compare y x = (Ord.compare x y).swap)
  | int _ x, int _ y, _ => (Std.OrientedCmp.eq_swap : Ord.compare y x = (Ord.compare x y).swap)
  | float k x, float _ y, hab => by
    simp only [Value.kind, ValueKind.float.injEq] at hab
    subst hab
    exact (Std.OrientedCmp.eq_swap : Ord.compare (k.format.totalKey y) (k.format.totalKey x) =
      (Ord.compare (k.format.totalKey x) (k.format.totalKey y)).swap)
  | text x, text y, _ => (Std.OrientedCmp.eq_swap : Ord.compare (Text.utf8Bytes y) (Text.utf8Bytes x) =
      (Ord.compare (Text.utf8Bytes x) (Text.utf8Bytes y)).swap)
  | bool _, int _ _, hab | bool _, float _ _, hab | bool _, text _, hab
  | int _ _, bool _, hab | int _ _, float _ _, hab | int _ _, text _, hab
  | float _ _, bool _, hab | float _ _, int _ _, hab | float _ _, text _, hab
  | text _, bool _, hab | text _, int _ _, hab | text _, float _ _, hab => by simp [Value.kind] at hab

section

variable {a b c : Value}

/-- `b` is not below `a` exactly when `a` is not above `b`. -/
theorem Value.compare_ne_lt_iff (hab : a.kind = b.kind) : b.compare a ≠ .lt ↔ a.compare b ≠ .gt := by
  rw [Value.compare_swap hab]
  cases a.compare b <;> decide

/-- Not above a value that is above a third: above the third too. -/
theorem Value.compare_gt_of_le_of_gt (hab : a.kind = b.kind) (hbc : b.kind = c.kind)
    (h₁ : a.compare b ≠ .gt) (h₂ : a.compare c = .gt) : b.compare c = .gt := by
  by_contra h
  exact Value.compare_le_trans hab hbc h₁ h h₂

/-- Not above a value that is not below a third: not below the third either. -/
theorem Value.compare_ne_lt_of_le (hab : a.kind = b.kind) (hbc : b.kind = c.kind)
    (h₁ : a.compare b ≠ .gt) (h₂ : a.compare c ≠ .lt) : b.compare c ≠ .lt := by
  have hca : c.compare a ≠ .gt := (Value.compare_ne_lt_iff (hab.trans hbc).symm).mp h₂
  exact (Value.compare_ne_lt_iff hbc.symm).mpr (Value.compare_le_trans (hab.trans hbc).symm hab hca h₁)

/-- Not above a value that is below a third: below the third too. -/
theorem Value.compare_lt_of_le_of_lt (hab : a.kind = b.kind) (hbc : b.kind = c.kind)
    (h₁ : a.compare b ≠ .gt) (h₂ : b.compare c = .lt) : a.compare c = .lt := by
  by_contra h
  have hca : c.compare a ≠ .gt := (Value.compare_ne_lt_iff (hab.trans hbc).symm).mp h
  exact (Value.compare_ne_lt_iff hbc.symm).mpr (Value.compare_le_trans (hab.trans hbc).symm hab hca h₁) h₂

end

end ColumnDb
