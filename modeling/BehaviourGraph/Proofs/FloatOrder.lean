import Mathlib.Data.Prod.Lex

/-!
# The order of floats

A float that is a number has a rank: its sign and whether it is infinite, then its exponent, then its
mantissa.  Numbers compare as their ranks do, the two zeros having the same, and nothing compares with a
float that is none.  So `≤` is a total preorder on the numbers, infinities included.
-/

namespace BehaviourGraph

open Float.Model

/-- The position of an unpacked float among the numbers. -/
def unpackedRank : UnpackedFloat → ℤ ×ₗ ℤ ×ₗ ℤ
  | .infinity .negative => toLex (-2, toLex (0, 0))
  | .finite .negative mantissa exponent _ => toLex (-1, toLex (-exponent, -mantissa))
  | .notANumber | .zero _ => toLex (0, toLex (0, 0))
  | .finite .positive mantissa exponent _ => toLex (1, toLex (exponent, mantissa))
  | .infinity .positive => toLex (2, toLex (0, 0))

def rank (x : Float) : ℤ ×ₗ ℤ ×ₗ ℤ := unpackedRank x.toModel.unpack

theorem compare_neg_neg (a b : ℤ) : compare (-a) (-b) = (compare a b).swap := by
  rcases lt_trichotomy a b with h | rfl | h
  · rw [compare_lt_iff_lt.mpr h, compare_gt_iff_gt.mpr (Int.neg_lt_neg h), Ordering.swap_lt]
  · rw [compare_eq_iff_eq.mpr rfl, compare_eq_iff_eq.mpr rfl, Ordering.swap_eq]
  · rw [compare_gt_iff_gt.mpr h, compare_lt_iff_lt.mpr (Int.neg_lt_neg h), Ordering.swap_gt]

theorem compare_natCast (a b : Nat) : compare (a : ℤ) (b : ℤ) = compare a b := by
  rcases lt_trichotomy a b with h | rfl | h
  · rw [compare_lt_iff_lt.mpr h, compare_lt_iff_lt.mpr (by exact_mod_cast h)]
  · rw [compare_eq_iff_eq.mpr rfl, compare_eq_iff_eq.mpr rfl]
  · rw [compare_gt_iff_gt.mpr h, compare_gt_iff_gt.mpr (by exact_mod_cast h)]

theorem compare_ranks_positive (e e' : ℤ) (m m' : Nat) :
    compare (toLex ((1 : ℤ), toLex (e, (m : ℤ)))) (toLex (1, toLex (e', (m' : ℤ)))) =
      (compare e e').then (compare m m') := by
  simp [Prod.Lex.compare_def, compareLex, compareOn, compare_natCast]

theorem compare_ranks_negative (e e' : ℤ) (m m' : Nat) :
    compare (toLex ((-1 : ℤ), toLex (-e, -(m : ℤ)))) (toLex (-1, toLex (-e', -(m' : ℤ)))) =
      ((compare e e').then (compare m m')).swap := by
  simp [Prod.Lex.compare_def, compareLex, compareOn, compare_neg_neg, compare_natCast,
    Ordering.swap_then]

/-- Only finite floats of the same sign are told apart by more than their constructors. -/
theorem compare_unpacked (a b : UnpackedFloat) :
    a.compare b =
      if a.isNaN || b.isNaN then none else some (compare (unpackedRank a) (unpackedRank b)) := by
  rcases a with (_ | _) | _ | _ | ⟨_ | _, m, e, _⟩ <;>
    rcases b with (_ | _) | _ | _ | ⟨_ | _, m', e', _⟩ <;>
    first
      | rfl
      | exact congrArg some (compare_ranks_negative e e' m m').symm
      | exact congrArg some (compare_ranks_positive e e' m m').symm

theorem le_iff_rank {x y : Float} :
    x ≤ y ↔ x.isNaN = false ∧ y.isNaN = false ∧ rank x ≤ rank y := by
  have h : x ≤ y ↔ (x.toModel.unpack.compare y.toModel.unpack).any (·.isLE) = true := by
    show Float.le x y = true ↔ _
    unfold Float.le
    rw [decide_eq_true_iff]
    exact Iff.rfl
  rw [h, compare_unpacked]
  show _ ↔ x.toModel.unpack.isNaN = false ∧ y.toModel.unpack.isNaN = false ∧ _
  cases x.toModel.unpack.isNaN <;> cases y.toModel.unpack.isNaN <;>
    simp [rank, Ordering.isLE_iff_ne_gt, compare_gt_iff_gt]

theorem lt_iff_rank {x y : Float} :
    x < y ↔ x.isNaN = false ∧ y.isNaN = false ∧ rank x < rank y := by
  have h : x < y ↔ (x.toModel.unpack.compare y.toModel.unpack == some .lt) = true := by
    show Float.lt x y = true ↔ _
    unfold Float.lt
    rw [decide_eq_true_iff]
    exact Iff.rfl
  rw [h, compare_unpacked]
  show _ ↔ x.toModel.unpack.isNaN = false ∧ y.toModel.unpack.isNaN = false ∧ _
  cases x.toModel.unpack.isNaN <;> cases y.toModel.unpack.isNaN <;>
    simp [rank, compare_lt_iff_lt]

theorem beq_iff_rank {x y : Float} :
    (x == y) = true ↔ x.isNaN = false ∧ y.isNaN = false ∧ rank x = rank y := by
  have h : (x == y) = (x.toModel.unpack.compare y.toModel.unpack == some .eq) := rfl
  rw [h, compare_unpacked]
  show _ ↔ x.toModel.unpack.isNaN = false ∧ y.toModel.unpack.isNaN = false ∧ _
  cases x.toModel.unpack.isNaN <;> cases y.toModel.unpack.isNaN <;>
    simp [rank, compare_eq_iff_eq]

theorem float_le_refl {x : Float} (hx : x.isNaN = false) : x ≤ x :=
  le_iff_rank.mpr ⟨hx, hx, le_rfl⟩

theorem float_le_trans {x y z : Float} (hxy : x ≤ y) (hyz : y ≤ z) : x ≤ z := by
  rw [le_iff_rank] at hxy hyz ⊢
  exact ⟨hxy.1, hyz.2.1, hxy.2.2.trans hyz.2.2⟩

theorem not_float_le {x y : Float} (hx : x.isNaN = false) (hy : y.isNaN = false) :
    ¬x ≤ y ↔ y < x := by
  rw [le_iff_rank, lt_iff_rank]
  simp only [hx, hy, true_and, not_le]

theorem float_le_iff_lt_or_beq {x y : Float} : x ≤ y ↔ x < y ∨ (x == y) = true := by
  rw [le_iff_rank, lt_iff_rank, beq_iff_rank, le_iff_lt_or_eq]
  tauto

theorem not_isNaN_of_isFinite {x : Float} (h : x.isFinite = true) : x.isNaN = false := by
  have hfinite : x.toModel.unpack.isFinite = true := h
  show x.toModel.unpack.isNaN = false
  cases hx : x.toModel.unpack <;> rw [hx] at hfinite <;> first | rfl | cases hfinite

end BehaviourGraph
