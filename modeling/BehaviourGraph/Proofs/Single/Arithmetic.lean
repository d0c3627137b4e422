import BehaviourGraph.Proofs.Single.Rounding

/-!
# Arithmetic of single floats

Sums, differences, products and quotients of finite floats that are not negative are the floats nearest
to the exact results, so two such results are in the order of the exact ones.
-/

namespace BehaviourGraph

open Float.Model
open Float.Model.UnpackedFloat (Accuracy accuracyOfFraction decreaseExponent divCore roundWithAccuracy)

/-! ## Values -/

/-- A finite float that is no negative number, and its value. -/
inductive Number : UnpackedFloat → ℚ → Prop where
  | zero (sign : UnpackedFloat.Sign) : Number (.zero sign) 0
  | finite {m : ℕ} {e : ℤ} (hm : 0 < m) (h : Stored m e) : Number (.finite .positive m e hm) (m * 2 ^ e)

inductive Unsigned : UnpackedFloat → ℚ → Prop where
  | zero : Unsigned (.zero .positive) 0
  | finite {m : ℕ} {e : ℤ} (hm : 0 < m) (h : Stored m e) : Unsigned (.finite .positive m e hm) (m * 2 ^ e)

section Values

variable {u v : UnpackedFloat} {p q : ℚ}

theorem Nonnegative.number (hu : Nonnegative u) (hfinite : code u < infinityCode) : ∃ p, Number u p := by
  cases hu with
  | zero s => exact ⟨_, .zero s⟩
  | finite hm h => exact ⟨_, .finite hm h⟩
  | infinity => exact (lt_irrefl _ hfinite).elim

theorem Number.nonnegative (hu : Number u p) : Nonnegative u := by
  cases hu with
  | zero s => exact .zero s
  | finite hm h => exact .finite hm h

theorem Number.code_lt (hu : Number u p) : code u < infinityCode := by
  cases hu with
  | zero s => exact (by decide : 0 < infinityCode)
  | finite hm h => exact h.codeOf_lt

theorem Number.value_nonneg (hu : Number u p) : 0 ≤ p := by
  cases hu with
  | zero s => exact le_rfl
  | finite hm h => positivity

theorem rounds_zero : RoundsTo 0 0 :=
  ⟨-149, 0, le_rfl, .inl rfl, by norm_num, by simpa using nearest_self 0, rfl⟩

theorem Number.rounds (hu : Number u p) : RoundsTo p (code u) := by
  cases hu with
  | zero s => exact rounds_zero
  | finite hm h => exact h.rounds

theorem Number.unsigned (hu : Number u p) (hsign : u ≠ .zero .negative) : Unsigned u p := by
  cases hu with
  | zero s =>
      cases s with
      | negative => exact (hsign rfl).elim
      | positive => exact .zero
  | finite hm h => exact .finite hm h

theorem Unsigned.number (hu : Unsigned u p) : Number u p := by
  cases hu with
  | zero => exact .zero _
  | finite hm h => exact .finite hm h

theorem Unsigned.magnitude (hu : Unsigned u p) : Magnitude u := by
  refine ⟨hu.number.nonnegative, ?_⟩
  cases hu <;> nofun

theorem Unsigned.rounded (hu : Unsigned u p) : Rounded p u := ⟨hu.magnitude, hu.number.rounds⟩

/-- Values are ordered as codes are. -/
theorem Number.value_le (hu : Number u p) (hv : Number v q) (hle : code u ≤ code v) : p ≤ q := by
  cases hu with
  | zero s => exact hv.value_nonneg
  | @finite m e hm h =>
      cases hv with
      | zero s => exact absurd hle (codeOf_pos hm).not_ge
      | @finite m' e' hm' h' =>
          rcases lt_trichotomy e e' with hlt | rfl | hgt
          · have hsmall : (m : ℚ) ≤ 2 ^ 24 := by exact_mod_cast h.bounded.le
            have hleast := h.least
            have hlarge : (2 : ℚ) ^ 23 ≤ m' := by exact_mod_cast h'.full.resolve_left (by omega)
            have hdouble : (2 : ℚ) * 2 ^ e ≤ 2 ^ e' := by
              rw [← zpow_one_add₀ (by norm_num)]
              exact zpow_le_zpow_right₀ (by norm_num) (by omega)
            calc (m : ℚ) * 2 ^ e ≤ 2 ^ 24 * 2 ^ e := by gcongr
              _ = 2 ^ 23 * (2 * 2 ^ e) := by ring
              _ ≤ m' * 2 ^ e' := by gcongr
          · have hmantissa : m ≤ m' := Nat.le_of_add_le_add_left hle
            gcongr
          · exact absurd hle (h'.codeOf_lt_codeOf h hgt).not_ge

/-- Nearest floats are ordered as the exact values are. -/
theorem Rounded.code_le (hu : Rounded p u) (hv : Rounded q v) (hle : p ≤ q) : code u ≤ code v :=
  hu.rounds.mono hv.rounds hle

theorem Rounded.unsigned (hu : Rounded p u) (hfinite : code u < infinityCode) : ∃ q, Unsigned u q := by
  obtain ⟨q, hq⟩ := hu.magnitude.nonnegative.number hfinite
  exact ⟨q, hq.unsigned hu.magnitude.unsigned⟩

theorem Unsigned.stored_rounded (hu : Unsigned u p) : Rounded p (stored u) := by
  have hstored : stored u = u := hu.magnitude.unpack_pack
  rw [hstored]
  exact hu.rounded

theorem zero_rounded : Rounded 0 (stored (.zero .positive)) := Unsigned.zero.stored_rounded

end Values

/-! ## Operations -/

section Operations

variable {m m' : ℕ} {e e' t : ℤ} {hm : 0 < m} {hm' : 0 < m'} {u v : UnpackedFloat} {p q : ℚ}

theorem decreaseExponent_eq (m : ℕ) (e t : ℤ) :
    decreaseExponent m e t = (m * 2 ^ (e - t).toNat, min e t) := by
  unfold decreaseExponent
  exact Prod.ext (Nat.shiftLeft_eq m _) (by dsimp only; omega)

/-- Decreasing the exponent keeps the value. -/
theorem value_decreased (m : ℕ) (e t : ℤ) :
    ((m * 2 ^ (e - t).toNat : ℕ) : ℚ) * 2 ^ min e t = m * 2 ^ e := by
  have hexponent : e = (e - t).toNat + min e t := by omega
  nth_rewrite 3 [hexponent]
  rw [zpow_add₀ (by norm_num), zpow_natCast]
  push_cast
  ring

theorem value_aligned (m : ℕ) (ht : t ≤ e) : ((m * 2 ^ (e - t).toNat : ℕ) : ℚ) * 2 ^ t = m * 2 ^ e := by
  rw [← value_decreased m e t, min_eq_right ht]

theorem log2_mul_two_pow (hm : 0 < m) (n : ℕ) : (m * 2 ^ n).log2 = m.log2 + n := by
  induction n with
  | zero => rw [pow_zero, Nat.mul_one, Nat.add_zero]
  | succ n ih =>
      have hpos : 0 < m * 2 ^ n := by positivity
      rw [pow_succ', Nat.mul_left_comm, Nat.log2_two_mul hpos.ne', ih, Nat.add_assoc]

/-- Rounding takes any exponent. -/
theorem round_rounded (hm : 0 < m) (e : ℤ) :
    Rounded (m * 2 ^ e) (stored (UnpackedFloat.round .binary32 .positive m e)) := by
  obtain ⟨t, ht⟩ : ∃ t, t = max ((m.log2 + 1 : ℕ) + e - 24) (-149) := ⟨_, rfl⟩
  have hround : UnpackedFloat.round .binary32 .positive m e =
      roundWithAccuracy .binary32 .positive (m * 2 ^ (e - t).toNat) (min e t) .exact := by
    unfold UnpackedFloat.round
    rw [targetExponent_totalExponent, ← ht]
    dsimp only
    rw [decreaseExponent_eq]
  have hlog := log2_mul_two_pow hm (e - t).toNat
  rw [hround, ← value_decreased m e t]
  exact roundWithAccuracy_rounded rfl (by omega)

theorem normalize_rounded {k : ℤ} (hk : (k : ℚ) * 2 ^ e = p) (hnonneg : 0 ≤ p) :
    Rounded p (stored (UnpackedFloat.normalize .binary32 k e .positive)) := by
  have hk0 : 0 ≤ k := by
    by_contra hneg
    have hneg : (k : ℚ) < 0 := by exact_mod_cast not_le.mp hneg
    have hpower : (0 : ℚ) < 2 ^ e := by positivity
    nlinarith only [hneg, hpower, hk, hnonneg]
  unfold UnpackedFloat.normalize
  rcases hk0.eq_or_lt with rfl | hpos
  · obtain rfl : p = 0 := by simpa using hk.symm
    exact zero_rounded
  · rw [compare_gt_iff_gt.mpr hpos]
    obtain ⟨m, rfl⟩ := Int.eq_ofNat_of_zero_le hpos.le
    have hm : 0 < m := by exact_mod_cast hpos
    rw [← hk]
    exact round_rounded hm e

theorem mul_finite (h : Stored m e) (h' : Stored m' e') :
    Rounded (m * 2 ^ e * (m' * 2 ^ e'))
      (stored (.mul .binary32 (.finite .positive m e hm) (.finite .positive m' e' hm'))) := by
  have hvalue : (m : ℚ) * 2 ^ e * (m' * 2 ^ e') = (m * m' : ℕ) * 2 ^ (e + e') := by
    rw [zpow_add₀ (by norm_num)]
    push_cast
    ring
  rw [hvalue]
  refine roundWithAccuracy_rounded rfl ?_
  -- a product with a full factor is full, one of two subnormal numbers is below the least
  have hlog : e = -149 ∧ e' = -149 ∨ 23 ≤ (m * m').log2 := by
    rw [Nat.le_log2 (by positivity)]
    rcases h.full with hleast | hfull
    · exact h'.full.imp (fun hleast' => ⟨hleast, hleast'⟩) fun hfull' => by nlinarith
    · exact .inr (by nlinarith)
  omega

theorem add_finite :
    Rounded (m * 2 ^ e + m' * 2 ^ e')
      (stored (.add .binary32 (.finite .positive m e hm) (.finite .positive m' e' hm'))) := by
  obtain ⟨t, ht⟩ : ∃ t, t = min e e' := ⟨_, rfl⟩
  have hadd : UnpackedFloat.add .binary32 (.finite .positive m e hm) (.finite .positive m' e' hm') =
      .normalize .binary32 (((m * 2 ^ (e - t).toNat : ℕ) : ℤ) + (m' * 2 ^ (e' - t).toNat : ℕ)) t
        .positive := by
    simp only [UnpackedFloat.add, decreaseExponent_eq, ← ht]
    rfl
  rw [hadd]
  refine normalize_rounded ?_ (by positivity)
  rw [← value_aligned m (ht.trans_le (min_le_left e e')),
    ← value_aligned m' (ht.trans_le (min_le_right e e')), ← add_mul]
  push_cast
  rfl

theorem sub_finite (hle : (m' : ℚ) * 2 ^ e' ≤ m * 2 ^ e) :
    Rounded (m * 2 ^ e - m' * 2 ^ e')
      (stored (.sub .binary32 (.finite .positive m e hm) (.finite .positive m' e' hm'))) := by
  obtain ⟨t, ht⟩ : ∃ t, t = min e e' := ⟨_, rfl⟩
  have hsub : UnpackedFloat.sub .binary32 (.finite .positive m e hm) (.finite .positive m' e' hm') =
      .normalize .binary32 (((m * 2 ^ (e - t).toNat : ℕ) : ℤ) - (m' * 2 ^ (e' - t).toNat : ℕ)) t
        .positive := by
    simp only [UnpackedFloat.sub, decreaseExponent_eq, ← ht]
    rfl
  rw [hsub]
  refine normalize_rounded ?_ (sub_nonneg.mpr hle)
  rw [← value_aligned m (ht.trans_le (min_le_left e e')),
    ← value_aligned m' (ht.trans_le (min_le_right e e')), ← sub_mul]
  push_cast
  rfl

/-- What remains of a division tells the bits beyond the quotient. -/
theorem represents_quotient (n : ℕ) {d : ℕ} (hd : 0 < d) :
    Represents (.ofMantissaAndAccuracy (n / d) (accuracyOfFraction (n % d) d)) (n / d) := by
  have hd' : (0 : ℚ) < d := by exact_mod_cast hd
  obtain ⟨r, hr⟩ : ∃ r : ℚ, r = (n % d : ℕ) / d := ⟨_, rfl⟩
  have hsplit : (n : ℚ) / d = (n / d : ℕ) + r := by
    have hdiv : (d : ℚ) * (n / d : ℕ) + (n % d : ℕ) = n := by exact_mod_cast Nat.div_add_mod n d
    rw [hr, ← hdiv]
    field_simp
  have hone : r < 1 := by
    rw [hr, div_lt_one hd']
    exact_mod_cast Nat.mod_lt n hd
  rw [hsplit]
  unfold accuracyOfFraction
  split
  next hzero =>
    rw [hzero, Nat.cast_zero, zero_div] at hr
    rw [hr, add_zero]
    rfl
  next hrest =>
    have hpos : 0 < r := by
      have hrest : (0 : ℚ) < (n % d : ℕ) := by exact_mod_cast Nat.pos_of_ne_zero hrest
      rw [hr]
      positivity
    rcases lt_trichotomy (2 * (n % d)) d with hlt | heq | hgt
    · have hhalf : r < 1 / 2 := by
        have hlt : (2 : ℚ) * (n % d : ℕ) < d := by exact_mod_cast hlt
        rw [hr, div_lt_iff₀ hd']
        linarith
      rw [compare_lt_iff_lt.mpr hlt]
      show ((n / d : ℕ) : ℚ) < (n / d : ℕ) + r ∧ (n / d : ℕ) + r < (n / d : ℕ) + 1 / 2
      exact ⟨by linarith, by linarith⟩
    · have hhalf : r = 1 / 2 := by
        have heq : (2 : ℚ) * (n % d : ℕ) = d := by exact_mod_cast heq
        rw [hr, div_eq_iff hd'.ne']
        linarith
      rw [compare_eq_iff_eq.mpr heq, hhalf]
      rfl
    · have hhalf : 1 / 2 < r := by
        have hgt : (d : ℚ) < 2 * (n % d : ℕ) := by exact_mod_cast hgt
        rw [hr, lt_div_iff₀ hd']
        linarith
      rw [compare_gt_iff_gt.mpr hgt]
      show ((n / d : ℕ) : ℚ) + 1 / 2 < (n / d : ℕ) + r ∧ (n / d : ℕ) + r < (n / d : ℕ) + 1
      exact ⟨by linarith, by linarith⟩

/-- The quotient of mantissas has all the bits that a mantissa needs. -/
theorem log2_quotient {n : ℕ} (hm : 0 < m) (hm' : 0 < m') (hn : m'.log2 + 24 ≤ m.log2 + n) :
    23 ≤ (m * 2 ^ n / m').log2 := by
  have hlarge : 2 ^ 23 ≤ m * 2 ^ n / m' := by
    rw [Nat.le_div_iff_mul_le hm']
    calc 2 ^ 23 * m' ≤ 2 ^ 23 * 2 ^ (m'.log2 + 1) := Nat.mul_le_mul_left _ Nat.lt_log2_self.le
      _ = 2 ^ (m'.log2 + 24) := by rw [← pow_add, Nat.add_comm, Nat.add_assoc]
      _ ≤ 2 ^ (m.log2 + n) := Nat.pow_le_pow_right (by decide) hn
      _ ≤ m * 2 ^ n := by
        rw [pow_add]
        exact Nat.mul_le_mul_right _ (Nat.log2_self_le hm.ne')
  exact (Nat.le_log2 (Nat.ne_of_gt (Nat.lt_of_lt_of_le (by decide) hlarge))).mpr hlarge

theorem div_finite :
    Rounded (m * 2 ^ e / (m' * 2 ^ e'))
      (stored (.div .binary32 (.finite .positive m e hm) (.finite .positive m' e' hm'))) := by
  obtain ⟨t, ht⟩ : ∃ t, t = min (e - e')
      (max ((m.log2 + 1 : ℕ) + e - ((m'.log2 + 1 : ℕ) + e') - 24) (-149)) := ⟨_, rfl⟩
  obtain ⟨n, hn⟩ : ∃ n : ℕ, e - e' = n + t := ⟨(e - e' - t).toNat, by omega⟩
  have hcore : divCore .binary32 m e m' e' =
      (m * 2 ^ n / m', t, accuracyOfFraction (m * 2 ^ n % m') m') := by
    have hshift : (e - e' - t).toNat = n := by omega
    unfold divCore
    dsimp only
    rw [← Nat.shiftLeft_eq, ← hshift, ht]
    rfl
  have hdiv : UnpackedFloat.div .binary32 (.finite .positive m e hm) (.finite .positive m' e' hm') =
      roundWithAccuracy .binary32 .positive (m * 2 ^ n / m') t
        (accuracyOfFraction (m * 2 ^ n % m') m') := by
    simp only [UnpackedFloat.div, hcore]
    rfl
  have hvalue : (m : ℚ) * 2 ^ e / (m' * 2 ^ e') = (m * 2 ^ n : ℕ) / m' * 2 ^ t := by
    rw [mul_div_mul_comm, ← zpow_sub₀ (by norm_num), hn, zpow_add₀ (by norm_num), zpow_natCast]
    push_cast
    ring
  rw [hdiv, hvalue]
  refine roundWithAccuracy_rounded (represents_quotient _ hm') ?_
  rcases le_or_gt t (-149) with hleast | hgreat
  · exact le_max_of_le_right hleast
  · have hlog := log2_quotient hm hm' (n := n) (by omega)
    omega

namespace Unsigned

theorem mul (hu : Unsigned u p) (hv : Unsigned v q) : Rounded (p * q) (stored (u.mul .binary32 v)) := by
  cases hu with
  | zero =>
      rw [zero_mul]
      cases hv <;> exact zero_rounded
  | finite hm h =>
      cases hv with
      | zero =>
          rw [mul_zero]
          exact zero_rounded
      | finite hm' h' => exact mul_finite h h'

theorem add (hu : Unsigned u p) (hv : Number v q) : Rounded (p + q) (stored (u.add .binary32 v)) := by
  cases hu with
  | zero =>
      rw [zero_add]
      cases hv with
      | zero s => cases s <;> exact zero_rounded
      | finite hm' h' => exact (Unsigned.finite hm' h').stored_rounded
  | finite hm h =>
      cases hv with
      | zero s =>
          rw [add_zero]
          exact (Unsigned.finite hm h).stored_rounded
      | finite hm' h' => exact add_finite

theorem sub (hu : Unsigned u p) (hv : Number v q) (hle : q ≤ p) :
    Rounded (p - q) (stored (u.sub .binary32 v)) := by
  cases hv with
  | zero s =>
      rw [sub_zero]
      cases hu with
      | zero => cases s <;> exact zero_rounded
      | finite hm h => exact (Unsigned.finite hm h).stored_rounded
  | @finite m' e' hm' h' =>
      cases hu with
      | zero =>
          have hpos : (0 : ℚ) < m' * 2 ^ e' := by positivity
          exact absurd hle hpos.not_ge
      | finite hm h => exact sub_finite hle

theorem div (hu : Unsigned u p) (hv : Number v q) (hpos : 0 < q) :
    Rounded (p / q) (stored (u.div .binary32 v)) := by
  cases hv with
  | zero s => exact (lt_irrefl _ hpos).elim
  | finite hm' h' =>
      cases hu with
      | zero =>
          rw [zero_div]
          exact zero_rounded
      | finite hm h => exact div_finite

end Unsigned

end Operations

/-! ## Single floats -/

/-- A single float is a number whose sign is not set, and this is its value. -/
abbrev Measures (x : Float32) (p : ℚ) : Prop := Unsigned (parts x) p

section Floats

variable {x y : Float32} {p q : ℚ}

theorem measures_of_parts {m : ℕ} {e : ℤ} {hm : 0 < m} (h : parts x = .finite .positive m e hm) :
    Measures x (m * 2 ^ e) := by
  rw [Measures, h]
  exact .finite hm (stored_of_unpack h)

theorem Measures.mul (hx : Measures x p) (hy : Measures y q) : Rounded (p * q) (parts (x * y)) :=
  Unsigned.mul hx hy

theorem Measures.add (hx : Measures x p) (hy : Number (parts y) q) : Rounded (p + q) (parts (x + y)) :=
  Unsigned.add hx hy

theorem Measures.sub (hx : Measures x p) (hy : Number (parts y) q) (hle : q ≤ p) :
    Rounded (p - q) (parts (x - y)) :=
  Unsigned.sub hx hy hle

theorem Measures.div (hx : Measures x p) (hy : Number (parts y) q) (hpos : 0 < q) :
    Rounded (p / q) (parts (x / y)) :=
  Unsigned.div hx hy hpos

/-- What is rounded from no more than a float's value is finite as well. -/
theorem Rounded.measures_of_le (h : Rounded p (parts x)) (hy : Measures y q) (hle : p ≤ q) :
    ∃ r, Measures x r ∧ r ≤ q := by
  have hcode := h.code_le hy.rounded hle
  obtain ⟨r, hr⟩ := h.unsigned (hcode.trans_lt hy.number.code_lt)
  exact ⟨r, hr, hr.number.value_le hy.number hcode⟩

theorem measures_ofBits {c : ℕ} (hc : c < infinityCode) :
    ∃ p, Measures (.ofBits (.ofNat c)) p ∧ code (parts (.ofBits (.ofNat c))) = c := by
  obtain ⟨hmagnitude, hcode⟩ := magnitude_ofBits hc
  obtain ⟨p, hp⟩ := hmagnitude.nonnegative.number (hcode.trans_lt hc)
  exact ⟨p, hp.unsigned hmagnitude.unsigned, hcode⟩

end Floats

end BehaviourGraph
