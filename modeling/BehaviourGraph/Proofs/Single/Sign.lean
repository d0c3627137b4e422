import BehaviourGraph.Proofs.Single.Arithmetic

/-!
# Signs of single floats

Negation changes the sign bit of a float and nothing else, and rounding does not look at the sign.  So
what is known of floats whose sign is not set carries over to their negations.
-/

namespace BehaviourGraph

open Float.Model
open Float.Model.UnpackedFloat (packComponents roundWithAccuracy)

/-! ## Unpacked floats -/

section Unpacked

theorem neg_neg_unpacked (u : UnpackedFloat) : u.neg.neg = u := by
  cases u with
  | notANumber => rfl
  | infinity s => cases s <;> rfl
  | zero s => cases s <;> rfl
  | finite s m e hm => cases s <;> rfl

/-- The sign bit is the only one that negation changes. -/
theorem unpack_negative (exponent : BitVec 8) (mantissa : BitVec 23) :
    UnpackedFloat.unpack .binary32 (packComponents .binary32 .negative exponent mantissa) =
      (UnpackedFloat.unpack .binary32 (packComponents .binary32 .positive exponent mantissa)).neg := by
  unfold UnpackedFloat.unpack
  simp only [UnpackedFloat.unpackMantissa_packComponents, UnpackedFloat.unpackExponent_packComponents,
    UnpackedFloat.unpackSign_packComponents, UnpackedFloat.Sign.ofBitVec_toBitVec]
  by_cases hmax : exponent = -1#8
  · rw [if_pos hmax, if_pos hmax]
    by_cases hmantissa : mantissa = 0#23
    · rw [if_pos hmantissa, if_pos hmantissa]
      rfl
    · rw [if_neg hmantissa, if_neg hmantissa]
      rfl
  · rw [if_neg hmax, if_neg hmax]
    by_cases hzero : exponent = 0#8
    · rw [if_pos hzero, if_pos hzero]
      by_cases hmantissa : mantissa = 0#23
      · rw [dif_pos hmantissa, dif_pos hmantissa]
        rfl
      · rw [dif_neg hmantissa, dif_neg hmantissa]
        rfl
    · rw [if_neg hzero, if_neg hzero]
      rfl

theorem stored_negative {m : ℕ} (e : ℤ) (hm : 0 < m) :
    stored (.finite .negative m e hm) = (stored (.finite .positive m e hm)).neg := by
  unfold stored UnpackedFloat.pack
  dsimp only
  split
  · rfl
  · split
    · exact unpack_negative _ _
    · exact unpack_negative _ _

/-- Negation is exact. -/
theorem stored_neg (u : UnpackedFloat) : stored u.neg = (stored u).neg := by
  cases u with
  | notANumber => rfl
  | infinity s => cases s <;> rfl
  | zero s => cases s <;> rfl
  | finite s m e hm =>
      cases s with
      | positive => exact stored_negative e hm
      | negative =>
          rw [stored_negative, neg_neg_unpacked]
          rfl

theorem isFinite_unpacked_neg (u : UnpackedFloat) : u.neg.isFinite = u.isFinite := by
  cases u <;> rfl

/-- The sign takes no part in the rounding. -/
theorem round_negative (format : Format) (m : ℕ) (e : ℤ) :
    UnpackedFloat.round format .negative m e = (UnpackedFloat.round format .positive m e).neg := by
  unfold UnpackedFloat.round roundWithAccuracy
  dsimp only
  split <;> rfl

theorem abs_neg_unpacked (u : UnpackedFloat) : u.neg.abs = u.abs := by
  cases u <;> rfl

theorem abs_eq_or (u : UnpackedFloat) : u.abs = u ∨ u.abs = u.neg := by
  cases u with
  | notANumber => exact .inl rfl
  | infinity s => cases s with
    | positive => exact .inl rfl
    | negative => exact .inr rfl
  | zero s => cases s with
    | positive => exact .inl rfl
    | negative => exact .inr rfl
  | finite s m e hm => cases s with
    | positive => exact .inl rfl
    | negative => exact .inr rfl

theorem isFinite_unpacked_abs (u : UnpackedFloat) : u.abs.isFinite = u.isFinite := by
  cases u <;> rfl

theorem isNaN_unpacked_abs (u : UnpackedFloat) : u.abs.isNaN = u.isNaN := by
  cases u <;> rfl

theorem Magnitude.abs_eq {u : UnpackedFloat} (hu : Magnitude u) : u.abs = u := by
  rcases hu with ⟨hu, hunsigned⟩
  cases hu with
  | zero s =>
      cases s with
      | negative => exact (hunsigned rfl).elim
      | positive => rfl
  | finite hm h => rfl
  | infinity => rfl

end Unpacked

/-! ## Single floats -/

section Floats

variable {x : Float32}

theorem stored_parts (x : Float32) : stored (parts x) = parts x :=
  congrArg (UnpackedFloat.unpack .binary32) (UnpackedFloat.pack_unpack_of_valid x.toModel.valid)

theorem parts_neg (x : Float32) : parts (-x) = (parts x).neg := by
  have hparts : parts (-x) = stored (parts x).neg := rfl
  rw [hparts, stored_neg, stored_parts]

/-- The parts of a float tell its bits. -/
theorem eq_of_parts {x y : Float32} (h : parts x = parts y) : x = y := by
  have hbits : x.toModel.toBits.toBitVec = y.toModel.toBits.toBitVec := by
    rw [← UnpackedFloat.pack_unpack_of_valid x.toModel.valid,
      ← UnpackedFloat.pack_unpack_of_valid y.toModel.valid]
    exact congrArg _ h
  obtain ⟨⟨⟨bits⟩, valid⟩⟩ := x
  obtain ⟨⟨⟨bits'⟩, valid'⟩⟩ := y
  subst hbits
  rfl

theorem measures_of_zero (h : parts x = .zero .positive) : Measures x 0 := by
  rw [Measures, h]
  exact .zero

/-- A finite float has no sign, or its negation has none. -/
theorem measures_or_neg (hx : x.isFinite = true) : ∃ p, Measures x p ∨ Measures (-x) p := by
  have hparts : (parts x).isFinite = true := hx
  have hneg := parts_neg x
  cases hu : parts x with
  | notANumber => simp [hu, UnpackedFloat.isFinite] at hparts
  | infinity s => simp [hu, UnpackedFloat.isFinite] at hparts
  | zero s =>
      cases s with
      | positive => exact ⟨0, .inl (measures_of_zero hu)⟩
      | negative =>
          rw [hu] at hneg
          exact ⟨0, .inr (measures_of_zero hneg)⟩
  | finite s m e hm =>
      cases s with
      | positive => exact ⟨_, .inl (measures_of_parts hu)⟩
      | negative =>
          rw [hu] at hneg
          exact ⟨_, .inr (measures_of_parts hneg)⟩

theorem neg_neg_single (x : Float32) : - -x = x := by
  apply eq_of_parts
  rw [parts_neg, parts_neg, neg_neg_unpacked]

theorem isFinite_single_neg (x : Float32) : (-x).isFinite = x.isFinite := by
  show (parts (-x)).isFinite = (parts x).isFinite
  rw [parts_neg, isFinite_unpacked_neg]

theorem parts_abs (x : Float32) : parts x.abs = (parts x).abs := by
  have hparts : parts x.abs = stored (parts x).abs := rfl
  rw [hparts]
  rcases abs_eq_or (parts x) with h | h
  · rw [h, stored_parts]
  · rw [h, stored_neg, stored_parts]

end Floats

end BehaviourGraph
