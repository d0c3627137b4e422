import BehaviourGraph.Proofs.Single.Sign

/-!
# Decimals rounded to single floats

A decimal is rounded to the float nearest to its exact value, however great or small its exponent is.
Only one float is nearest, so a float is found again from any decimal that is close enough to it.
-/

namespace BehaviourGraph

open Float.Model
open Float.Model.UnpackedFloat (roundWithAccuracy)

/-! ## The only nearest float -/

section Nearest

variable {u v : UnpackedFloat} {q : ℚ}

/-- A float whose sign is not set is told by its code. -/
theorem Magnitude.eq_of_code (hu : Magnitude u) (hv : Magnitude v) (h : code u = code v) : u = v := by
  have hbits : UnpackedFloat.pack .binary32 u = UnpackedFloat.pack .binary32 v := by
    apply BitVec.eq_of_toNat_eq
    rw [hu.toNat_pack, hv.toNat_pack, h]
  rw [← hu.unpack_pack, ← hv.unpack_pack, hbits]

/-- Only one float is nearest. -/
theorem Rounded.eq (hu : Rounded q u) (hv : Rounded q v) : u = v :=
  hu.magnitude.eq_of_code hv.magnitude (le_antisymm (hu.code_le hv le_rfl) (hv.code_le hu le_rfl))

/-- What is at least `2 ^ 128` is rounded to infinity. -/
theorem rounded_infinity (hu : Rounded q u) (hq : 2 ^ 128 ≤ q) : Rounded q (.infinity .positive) := by
  have hlimit : RoundsTo (2 ^ 128) infinityCode := by
    refine ⟨105, 2 ^ 23, by decide, .inr ?_, ?_, ?_, by decide⟩
    · norm_num
    · norm_num
    · have hscaled : (2 : ℚ) ^ 128 / 2 ^ (105 : ℤ) = (2 ^ 23 : ℕ) := by norm_num
      rw [hscaled]
      exact nearest_self _
  have hcode : code u = infinityCode :=
    le_antisymm hu.magnitude.nonnegative.code_le (hlimit.mono hu.rounds hq)
  have hrounds := hu.rounds
  rw [hcode] at hrounds
  exact ⟨⟨.infinity, nofun⟩, hrounds⟩

/-- What is less than half of the least float is rounded to zero. -/
theorem rounded_zero (hpos : 0 ≤ q) (hq : q < 2 ^ (-150 : ℤ)) : Rounded q (.zero .positive) := by
  have hhalf : q / 2 ^ (-149 : ℤ) < 1 / 2 := by
    rw [div_lt_iff₀ (by positivity)]
    calc q < 2 ^ (-150 : ℤ) := hq
      _ = 1 / 2 * 2 ^ (-149 : ℤ) := by norm_num
  have hnonneg : 0 ≤ q / 2 ^ (-149 : ℤ) := by positivity
  refine ⟨⟨.zero _, nofun⟩, -149, 0, le_rfl, .inl rfl, by linarith, ?_, rfl⟩
  refine ⟨?_, ?_, fun _ => rfl⟩
  · push_cast
    linarith
  · push_cast
    linarith

end Nearest

/-! ## Decimals -/

section Decimals

variable {coefficient : ℕ} {scaling : ℤ}

/-- A whole number, shifted so far that its bits suffice. -/
theorem scaledUp_rounded (hpos : 0 < coefficient) (power : ℕ) :
    Rounded (coefficient * (10 : ℚ) ^ power) (stored (.mul .binary32
      (.finite .positive (coefficient <<< 24) (-24) (by rw [Nat.shiftLeft_eq]; positivity))
      (.finite .positive (10 ^ power) 0 (by positivity)))) := by
  have hvalue : (coefficient : ℚ) * (10 : ℚ) ^ power =
      ((coefficient <<< 24 * 10 ^ power : ℕ) : ℚ) * 2 ^ (-24 + 0 : ℤ) := by
    rw [Nat.shiftLeft_eq]
    push_cast
    norm_num
    ring
  rw [hvalue]
  refine roundWithAccuracy_rounded rfl (le_max_of_le_left ?_)
  have hlog : 24 ≤ (coefficient <<< 24 * 10 ^ power).log2 := by
    rw [Nat.le_log2 (by rw [Nat.shiftLeft_eq]; positivity), Nat.shiftLeft_eq]
    have hone : 1 ≤ coefficient * 10 ^ power := Nat.mul_pos hpos (by positivity)
    nlinarith
  omega

theorem scaledDown_rounded (hpos : 0 < coefficient) (power : ℕ) :
    Rounded (coefficient * (10 : ℚ) ^ (-power : ℤ)) (stored (.div .binary32
      (.finite .positive coefficient 0 hpos) (.finite .positive (10 ^ power) 0 (by positivity)))) := by
  have hvalue : (coefficient : ℚ) * (10 : ℚ) ^ (-power : ℤ) =
      coefficient * 2 ^ (0 : ℤ) / ((10 ^ power : ℕ) * 2 ^ (0 : ℤ)) := by
    rw [zpow_neg, zpow_natCast]
    push_cast
    field_simp
  rw [hvalue]
  exact div_finite

theorem power_limit {power : ℕ} (hpos : 0 < coefficient) (hgreat : 256 < power) :
    (2 : ℚ) ^ 128 ≤ coefficient * (10 : ℚ) ^ power := by
  have hone : (1 : ℚ) ≤ coefficient := by exact_mod_cast hpos
  calc (2 : ℚ) ^ 128 ≤ 10 ^ 128 := by norm_num
    _ ≤ 10 ^ power := pow_le_pow_right₀ (by norm_num) (by omega)
    _ ≤ coefficient * 10 ^ power := le_mul_of_one_le_left (by positivity) hone

theorem small_limit (hsmall : scaling < -(256 + coefficient.log2)) :
    coefficient * (10 : ℚ) ^ scaling < 2 ^ (-150 : ℤ) := by
  have hbits : (coefficient : ℚ) < 2 ^ (coefficient.log2 + 1 : ℤ) := by
    exact_mod_cast Nat.lt_log2_self
  have hpower : (10 : ℚ) ^ scaling ≤ 2 ^ scaling := by
    obtain ⟨n, rfl⟩ : ∃ n : ℕ, scaling = -n := ⟨(-scaling).toNat, by omega⟩
    rw [zpow_neg, zpow_neg, zpow_natCast, zpow_natCast]
    exact inv_anti₀ (by positivity) (pow_le_pow_left₀ (by norm_num) (by norm_num) n)
  calc coefficient * (10 : ℚ) ^ scaling < 2 ^ (coefficient.log2 + 1 : ℤ) * 10 ^ scaling := by gcongr
    _ ≤ 2 ^ (coefficient.log2 + 1 : ℤ) * 2 ^ scaling := by gcongr
    _ = 2 ^ (coefficient.log2 + 1 + scaling) := (zpow_add₀ (by norm_num) _ _).symm
    _ ≤ 2 ^ (-150 : ℤ) := zpow_le_zpow_right₀ (by norm_num) (by omega)

/-- The rounding of a decimal.  Exponents far out of the range are not computed with, but treated as what
they lead to. -/
theorem ofScientific_rounded (hpos : 0 < coefficient) (scaling : ℤ) :
    Rounded (coefficient * (10 : ℚ) ^ scaling) (stored (.ofScientific .binary32 coefficient scaling)) := by
  have hexponents : (2 : ℤ) ^ Format.binary32.exponentBits = 256 := rfl
  unfold UnpackedFloat.ofScientific
  rw [dif_neg hpos.ne', hexponents]
  by_cases hgreat : scaling > 256
  · rw [if_pos hgreat]
    obtain ⟨power, rfl⟩ := Int.eq_ofNat_of_zero_le (a := scaling) (by omega)
    rw [zpow_natCast]
    exact rounded_infinity (scaledUp_rounded hpos power) (power_limit hpos (by omega))
  · rw [if_neg hgreat]
    by_cases hsmall : scaling < -(256 + coefficient.log2)
    · rw [if_pos hsmall]
      exact rounded_zero (by positivity) (small_limit hsmall)
    · rw [if_neg hsmall]
      by_cases hsign : 0 ≤ scaling
      · rw [if_pos hsign]
        obtain ⟨power, rfl⟩ := Int.eq_ofNat_of_zero_le hsign
        rw [zpow_natCast]
        exact scaledUp_rounded hpos power
      · rw [if_neg hsign]
        obtain ⟨power, rfl⟩ : ∃ power : ℕ, scaling = -power := ⟨(-scaling).toNat, by omega⟩
        have hdown := scaledDown_rounded hpos power
        simp only [neg_neg, Int.toNat_natCast]
        exact hdown

end Decimals

end BehaviourGraph
