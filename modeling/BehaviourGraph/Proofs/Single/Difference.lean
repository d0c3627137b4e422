import BehaviourGraph.Proofs.Single.Order

/-!
# Differences of single floats

The difference of two finite floats of any signs is, without its sign, the float nearest to the distance
of their values, so it is no NaN, and finite where the distance is bounded.  A float less itself is zero,
and zero remains zero when it is multiplied, divided and added.
-/

namespace BehaviourGraph

open Float.Model

inductive Valued : UnpackedFloat → ℚ → Prop where
  | zero (s : UnpackedFloat.Sign) : Valued (.zero s) 0
  | finite (s : UnpackedFloat.Sign) {m : ℕ} {e : ℤ} (hm : 0 < m) (h : Stored m e) :
    Valued (.finite s m e hm) (s.apply m * 2 ^ e)

section Distances

variable {u v : UnpackedFloat} {p q : ℚ} {e t : ℤ}

theorem abs_apply (s : UnpackedFloat.Sign) (m : ℕ) (e : ℤ) : |(s.apply m * 2 ^ e : ℚ)| = m * 2 ^ e := by
  have hpower : (0 : ℚ) < 2 ^ e := by positivity
  rw [abs_mul, abs_of_pos hpower]
  cases s <;> simp [UnpackedFloat.Sign.apply]

theorem apply_neg (s : UnpackedFloat.Sign) (n : ℤ) : (-s).apply n = -s.apply n := by
  cases s with
  | negative => exact (neg_neg n).symm
  | positive => rfl

/-- Decreasing the exponent keeps the value on either side of zero. -/
theorem apply_aligned (s : UnpackedFloat.Sign) (m : ℕ) (ht : t ≤ e) :
    (s.apply (m * 2 ^ (e - t).toNat : ℕ) : ℚ) * 2 ^ t = s.apply m * 2 ^ e := by
  have haligned := value_aligned m ht
  cases s with
  | negative => simp only [UnpackedFloat.Sign.apply, Int.cast_neg, Int.cast_natCast, neg_mul, haligned]
  | positive => simp only [UnpackedFloat.Sign.apply, Int.cast_natCast, haligned]

/-- A float is as far from zero as its value is. -/
theorem Valued.abs (hu : Valued u p) : Unsigned u.abs |p| := by
  cases hu with
  | zero s =>
      rw [abs_zero]
      exact .zero
  | finite s hm h =>
      rw [abs_apply]
      exact .finite hm h

theorem Valued.isFinite (hu : Valued u p) : u.isFinite = true := by
  cases hu <;> rfl

theorem Valued.stored_rounded (hu : Valued u p) : Rounded |p| (stored u).abs := by
  rcases abs_eq_or u with h | h
  · have hrounded := hu.abs.stored_rounded
    rw [h] at hrounded
    rw [hrounded.magnitude.abs_eq]
    exact hrounded
  · have hrounded := hu.abs.stored_rounded
    rw [h, stored_neg] at hrounded
    rw [← abs_neg_unpacked, hrounded.magnitude.abs_eq]
    exact hrounded

theorem Valued.neg (hu : Valued u p) : Valued u.neg (-p) := by
  cases hu with
  | zero s =>
      rw [neg_zero]
      exact .zero _
  | @finite s m e hm h =>
      have hvalue : ((-s).apply m * 2 ^ e : ℚ) = -(s.apply m * 2 ^ e) := by
        rw [apply_neg, Int.cast_neg, neg_mul]
      rw [← hvalue]
      exact .finite _ hm h

/-- The sign of what is rounded takes no part in its distance from zero. -/
theorem normalize_distance {k : ℤ} (hk : (k : ℚ) * 2 ^ e = p) :
    Rounded |p| (stored (UnpackedFloat.normalize .binary32 k e .positive)).abs := by
  have hpower : (0 : ℚ) < 2 ^ e := by positivity
  rcases le_or_gt 0 k with hnonneg | hneg
  · have hp : 0 ≤ p := by
      rw [← hk]
      positivity
    have hrounded := normalize_rounded hk hp
    rw [abs_of_nonneg hp, hrounded.magnitude.abs_eq]
    exact hrounded
  · have hp : p < 0 := by
      rw [← hk]
      exact mul_neg_of_neg_of_pos (by exact_mod_cast hneg) hpower
    obtain ⟨m, hm⟩ := Int.eq_ofNat_of_zero_le (Int.neg_nonneg_of_nonpos hneg.le)
    have hrounded : Rounded |p| (stored (UnpackedFloat.round .binary32 .positive m e)) := by
      have hvalue : |p| = m * 2 ^ e := by
        have hcast : ((m : ℤ) : ℚ) = -k := by
          rw [← Int.cast_neg, hm]
        rw [abs_of_neg hp, ← hk, ← neg_mul, ← hcast]
        rfl
      rw [hvalue]
      exact round_rounded (by omega) e
    have hround : UnpackedFloat.normalize .binary32 k e .positive =
        (UnpackedFloat.round .binary32 .positive m e).neg := by
      rw [← round_negative]
      unfold UnpackedFloat.normalize
      rw [compare_lt_iff_lt.mpr hneg, hm]
      rfl
    rw [hround, stored_neg, abs_neg_unpacked, hrounded.magnitude.abs_eq]
    exact hrounded

/-- The difference of finite floats is nearest to the distance of their values. -/
theorem Valued.sub (hu : Valued u p) (hv : Valued v q) :
    Rounded |p - q| (stored (u.sub .binary32 v)).abs := by
  cases hv with
  | zero s' =>
      rw [sub_zero]
      cases hu with
      | zero s =>
          rw [abs_zero]
          cases s <;> cases s' <;> exact zero_rounded
      | finite s hm h => exact (Valued.finite s hm h).stored_rounded
  | @finite s' m' e' hm' h' =>
      cases hu with
      | zero s =>
          rw [zero_sub]
          exact (Valued.finite s' hm' h').neg.stored_rounded
      | @finite s m e hm h =>
          obtain ⟨t, ht⟩ : ∃ t, t = min e e' := ⟨_, rfl⟩
          have hsub : UnpackedFloat.sub .binary32 (.finite s m e hm) (.finite s' m' e' hm') =
              .normalize .binary32 (s.apply (m * 2 ^ (e - t).toNat : ℕ) -
                s'.apply (m' * 2 ^ (e' - t).toNat : ℕ)) t .positive := by
            simp only [UnpackedFloat.sub, decreaseExponent_eq, ← ht]
          rw [hsub]
          refine normalize_distance ?_
          rw [Int.cast_sub, sub_mul, apply_aligned s m (ht.trans_le (min_le_left e e')),
            apply_aligned s' m' (ht.trans_le (min_le_right e e'))]

end Distances

/-! ## Single floats -/

theorem stored_zero (s : UnpackedFloat.Sign) : stored (.zero s) = .zero s := by
  cases s <;> rfl

section Floats

variable {x y : Float32} {w : UnpackedFloat} {p q r : ℚ}

theorem single_isNaN_of_isFinite (hx : x.isFinite = true) : x.isNaN = false := by
  have hfinite : (parts x).isFinite = true := hx
  show (parts x).isNaN = false
  cases hu : parts x <;> rw [hu] at hfinite <;> first | rfl | cases hfinite

theorem valued_of_isFinite (hx : x.isFinite = true) : ∃ p, Valued (parts x) p := by
  have hparts : (parts x).isFinite = true := hx
  cases hu : parts x with
  | notANumber => simp [hu, UnpackedFloat.isFinite] at hparts
  | infinity s => simp [hu, UnpackedFloat.isFinite] at hparts
  | zero s => exact ⟨0, .zero s⟩
  | finite s m e hm => exact ⟨_, .finite s hm (stored_of_unpack hu)⟩

/-- A float that is no further from zero than a finite one has a value that is not either. -/
theorem valued_of_abs_le (hy : Measures y r) (h : x.abs ≤ y) : ∃ p, Valued (parts x) p ∧ |p| ≤ r := by
  obtain ⟨hnumber, _, hplaces⟩ := single_le_iff.mp h
  have hnumber : (parts x.abs).isNaN = false := hnumber
  rw [hy.number.nonnegative.place_eq] at hplaces
  rw [parts_abs] at hnumber hplaces
  have hbound := hy.number.code_lt
  cases hu : parts x with
  | notANumber =>
      rw [hu] at hnumber
      cases hnumber
  | infinity s =>
      rw [hu] at hplaces
      exact (Nat.not_le_of_lt hbound (Int.ofNat_le.mp hplaces)).elim
  | zero s => exact ⟨0, .zero s, by simpa using hy.number.value_nonneg⟩
  | finite s m e hm =>
      have hvalued := Valued.finite s hm (stored_of_unpack hu)
      refine ⟨_, hvalued, hvalued.abs.number.value_le hy.number ?_⟩
      rw [hu] at hplaces
      exact Int.ofNat_le.mp hplaces

theorem rounded_sub (hx : Valued (parts x) p) (hy : Valued (parts y) q) :
    Rounded |p - q| (parts (x - y)).abs :=
  hx.sub hy

theorem isNaN_sub (hx : x.isFinite = true) (hy : y.isFinite = true) : (x - y).isNaN = false := by
  obtain ⟨p, hp⟩ := valued_of_isFinite hx
  obtain ⟨q, hq⟩ := valued_of_isFinite hy
  have hmagnitude := (rounded_sub hp hq).magnitude.nonnegative
  show (parts (x - y)).isNaN = false
  rw [← isNaN_unpacked_abs]
  generalize (parts (x - y)).abs = u at hmagnitude
  cases hmagnitude <;> rfl

/-- A difference is finite if its operands are at most half as far from zero as a finite float. -/
theorem isFinite_sub (hx : Valued (parts x) p) (hy : Valued (parts y) q) (hp : |p| ≤ r) (hq : |q| ≤ r)
    (hw : Unsigned w (2 * r)) : (x - y).isFinite = true := by
  have hrounded := rounded_sub hx hy
  have hdistance : |p - q| ≤ 2 * r := by
    have htriangle := abs_sub p q
    linarith
  have hcode : code (parts (x - y)).abs < infinityCode :=
    (hrounded.code_le hw.rounded hdistance).trans_lt hw.number.code_lt
  show (parts (x - y)).isFinite = true
  rw [← isFinite_unpacked_abs]
  exact hrounded.magnitude.nonnegative.isFinite_iff.mpr hcode

theorem parts_sub_self (hx : x.isFinite = true) : parts (x - x) = .zero .positive := by
  obtain ⟨p, hp⟩ := valued_of_isFinite hx
  have hsub : parts (x - x) = stored ((parts x).sub .binary32 (parts x)) := rfl
  rw [hsub]
  generalize parts x = u at hp
  cases hp with
  | zero s => cases s <;> rfl
  | finite s hm h =>
      simp only [UnpackedFloat.sub, sub_self]
      exact stored_zero .positive

/-! ## Zeros -/

def Vanishes (x : Float32) : Prop := ∃ s, parts x = .zero s

theorem Vanishes.mul (hx : x.isFinite = true) (hy : Vanishes y) : Vanishes (x * y) := by
  obtain ⟨p, hp⟩ := valued_of_isFinite hx
  obtain ⟨s', hs'⟩ := hy
  have hmul : parts (x * y) = stored ((parts x).mul .binary32 (parts y)) := rfl
  rw [Vanishes, hmul, hs']
  generalize parts x = u at hp
  cases hp with
  | zero s => exact ⟨s * s', stored_zero _⟩
  | finite s hm h => exact ⟨s * s', stored_zero _⟩

theorem Vanishes.div (hx : Vanishes x) (hy : y.isNaN = false) (hzero : ¬Vanishes y) : Vanishes (x / y) := by
  have hnumber : (parts y).isNaN = false := hy
  obtain ⟨s, hs⟩ := hx
  have hdiv : parts (x / y) = stored ((parts x).div .binary32 (parts y)) := rfl
  rw [Vanishes, hdiv, hs]
  cases hu : parts y with
  | notANumber => simp [hu, UnpackedFloat.isNaN] at hnumber
  | zero s' => exact (hzero ⟨s', hu⟩).elim
  | infinity s' => exact ⟨s / s', stored_zero _⟩
  | finite s' m e hm => exact ⟨s / s', stored_zero _⟩

/-- Adding zero changes the sign of a zero at most. -/
theorem Vanishes.add_beq (hx : x.isFinite = true) (hy : Vanishes y) : (x + y == x) = true := by
  obtain ⟨p, hp⟩ := valued_of_isFinite hx
  obtain ⟨s', hs'⟩ := hy
  have hadd : parts (x + y) = stored ((parts x).add .binary32 (parts y)) := rfl
  have hbeq : (x + y == x) = ((parts (x + y)).compare (parts x) == some .eq) := rfl
  generalize hu : parts x = u at hp
  cases hp with
  | zero s =>
      rw [hbeq, hadd, hs', hu]
      cases s <;> cases s' <;> rfl
  | @finite s m e hm h =>
      have hsame : parts (x + y) = parts x := by
        have hsum : UnpackedFloat.add .binary32 (.finite s m e hm) (.zero s') = .finite s m e hm := rfl
        rw [hadd, hs', hu, hsum, ← hu, stored_parts]
      rw [eq_of_parts hsame]
      exact single_beq_refl (single_isNaN_of_isFinite hx)

end Floats

end BehaviourGraph
