import Mathlib

/-!
# Magnitudes of single floats

A single float that is no negative number is a zero, a mantissa times a power of two, or infinite.  The
mantissa and the exponent are as the format stores them, and one natural number, the code, tells both:
it is what the bits of the float are if its sign is not set.  Such floats compare as their codes do.
-/

namespace BehaviourGraph

open Float.Model

/-! ## Codes -/

/-- A mantissa and an exponent as single floats store them; subnormal numbers have the least exponent. -/
structure Stored (m : ℕ) (e : ℤ) : Prop where
  bounded : m < 2 ^ 24
  least : -149 ≤ e
  greatest : e ≤ 104
  full : e = -149 ∨ 2 ^ 23 ≤ m

/-- The bits of a mantissa and an exponent.  The mantissa's own leading bit counts into the exponent. -/
def codeOf (m : ℕ) (e : ℤ) : ℕ := (e + 149).toNat * 2 ^ 23 + m

def infinityCode : ℕ := 0x7f800000

theorem Stored.codeOf_lt {m : ℕ} {e : ℤ} (h : Stored m e) : codeOf m e < infinityCode := by
  have hbounded := h.bounded
  have hgreatest := h.greatest
  unfold codeOf infinityCode
  omega

theorem Stored.codeOf_lt_codeOf {m m' : ℕ} {e e' : ℤ} (h : Stored m e) (h' : Stored m' e')
    (hlt : e < e') : codeOf m e < codeOf m' e' := by
  have hbounded := h.bounded
  have hleast := h.least
  have hfull := h'.full
  unfold codeOf
  omega

theorem codeOf_lt_codeOf_of_lt {m m' : ℕ} (e : ℤ) (hlt : m < m') : codeOf m e < codeOf m' e :=
  Nat.add_lt_add_left hlt _

def code : UnpackedFloat → ℕ
  | .zero _ => 0
  | .finite _ m e _ => codeOf m e
  | _ => infinityCode

/-- A float that is a number, not below zero, and stored as single floats are. -/
inductive Nonnegative : UnpackedFloat → Prop where
  | zero (sign : UnpackedFloat.Sign) : Nonnegative (.zero sign)
  | finite {m : ℕ} {e : ℤ} (hm : 0 < m) (h : Stored m e) : Nonnegative (.finite .positive m e hm)
  | infinity : Nonnegative (.infinity .positive)

structure Magnitude (u : UnpackedFloat) : Prop where
  nonnegative : Nonnegative u
  unsigned : u ≠ .zero .negative

section Codes

variable {u v : UnpackedFloat} {m m' : ℕ} {e e' : ℤ}

theorem codeOf_pos (hm : 0 < m) : 0 < codeOf m e := Nat.lt_of_lt_of_le hm (Nat.le_add_left m _)

/-- Codes are ordered by the exponent, then by the mantissa. -/
theorem Stored.compare_codeOf (h : Stored m e) (h' : Stored m' e') :
    (compare e e').then (compare m m') = compare (codeOf m e) (codeOf m' e') := by
  rcases lt_trichotomy e e' with hlt | rfl | hgt
  · rw [compare_lt_iff_lt.mpr hlt, compare_lt_iff_lt.mpr (h.codeOf_lt_codeOf h' hlt)]
    rfl
  · rw [compare_eq_iff_eq.mpr rfl, Ordering.eq_then]
    rcases lt_trichotomy m m' with hlt | rfl | hgt
    · rw [compare_lt_iff_lt.mpr hlt, compare_lt_iff_lt.mpr (codeOf_lt_codeOf_of_lt e hlt)]
    · rw [compare_eq_iff_eq.mpr rfl, compare_eq_iff_eq.mpr rfl]
    · rw [compare_gt_iff_gt.mpr hgt, compare_gt_iff_gt.mpr (codeOf_lt_codeOf_of_lt e hgt)]
  · rw [compare_gt_iff_gt.mpr hgt, compare_gt_iff_gt.mpr (h'.codeOf_lt_codeOf h hgt)]
    rfl

theorem Nonnegative.compare_eq (hu : Nonnegative u) (hv : Nonnegative v) :
    u.compare v = some (compare (code u) (code v)) := by
  cases hu with
  | zero s =>
      cases hv with
      | zero s' => rfl
      | finite hm h => exact congrArg some (compare_lt_iff_lt.mpr (codeOf_pos hm)).symm
      | infinity => rfl
  | finite hm h =>
      cases hv with
      | zero s' => exact congrArg some (compare_gt_iff_gt.mpr (codeOf_pos hm)).symm
      | finite hm' h' => exact congrArg some (h.compare_codeOf h')
      | infinity => exact congrArg some (compare_lt_iff_lt.mpr h.codeOf_lt).symm
  | infinity =>
      cases hv with
      | zero s' => rfl
      | finite hm' h' => exact congrArg some (compare_gt_iff_gt.mpr h'.codeOf_lt).symm
      | infinity => exact congrArg some (compare_eq_iff_eq.mpr rfl).symm

theorem Nonnegative.isFinite_iff (hu : Nonnegative u) : u.isFinite = true ↔ code u < infinityCode := by
  cases hu with
  | zero s => simp [UnpackedFloat.isFinite, code, infinityCode]
  | finite hm h => simp [UnpackedFloat.isFinite, code, h.codeOf_lt]
  | infinity => simp [UnpackedFloat.isFinite, code]

theorem Nonnegative.code_le (hu : Nonnegative u) : code u ≤ infinityCode := by
  cases hu with
  | zero s => exact Nat.zero_le _
  | finite hm h => exact h.codeOf_lt.le
  | infinity => exact le_rfl

/-- Every number below the code of infinity is a code. -/
theorem exists_magnitude {c : ℕ} (hc : c < infinityCode) : ∃ u, Magnitude u ∧ code u = c := by
  unfold infinityCode at hc
  rcases Nat.eq_zero_or_pos c with rfl | hpos
  · exact ⟨.zero .positive, ⟨.zero _, nofun⟩, rfl⟩
  by_cases hsubnormal : c < 2 ^ 23
  · have h : Stored c (-149) := ⟨by omega, le_rfl, by decide, .inl rfl⟩
    exact ⟨_, ⟨.finite hpos h, nofun⟩, Nat.zero_add c⟩
  · have h : Stored (2 ^ 23 + c % 2 ^ 23) ((c / 2 ^ 23 : ℕ) - 150) :=
      ⟨by omega, by omega, by omega, .inr (by omega)⟩
    refine ⟨_, ⟨.finite (by omega) h, nofun⟩, ?_⟩
    show codeOf _ _ = c
    unfold codeOf
    omega

end Codes

/-! ## Bits -/

section Bits

open UnpackedFloat (packComponents unpackExponent unpackMantissa unpackSign)

theorem toNat_append {w v : ℕ} (x : BitVec w) (y : BitVec v) :
    (x ++ y).toNat = x.toNat * 2 ^ v + y.toNat := by
  rw [BitVec.toNat_append, ← Nat.shiftLeft_add_eq_or_of_lt y.isLt, Nat.shiftLeft_eq]

/-- A normal number has a leading bit that is not stored. -/
theorem toNat_leading (mantissa : BitVec 23) : (1#1 ++ mantissa).toNat = 2 ^ 23 + mantissa.toNat := by
  rw [toNat_append]
  show 1 * 2 ^ 23 + mantissa.toNat = _
  rw [Nat.one_mul]

theorem toNat_packComponents (exponent : BitVec 8) (mantissa : BitVec 23) :
    (packComponents .binary32 .positive exponent mantissa).toNat =
      exponent.toNat * 2 ^ 23 + mantissa.toNat := by
  unfold packComponents
  rw [toNat_append, toNat_append]
  show (0 * 2 ^ 8 + exponent.toNat) * 2 ^ 23 + mantissa.toNat = _
  rw [Nat.zero_mul, Nat.zero_add]

/-- What the bits of a single float hold is stored as single floats are. -/
theorem stored_of_unpack {b : BitVec 32} {s : UnpackedFloat.Sign} {m : ℕ} {e : ℤ} {hm : 0 < m}
    (h : UnpackedFloat.unpack .binary32 b = .finite s m e hm) : Stored m e := by
  unfold UnpackedFloat.unpack at h
  dsimp only at h
  have hmantissa : (@unpackMantissa .binary32 b).toNat < 2 ^ 23 := BitVec.isLt _
  have hexponent : (@unpackExponent .binary32 b).toNat < 2 ^ 8 := BitVec.isLt _
  split at h
  next => split at h <;> cases h
  next hmax =>
    have hmax : (@unpackExponent .binary32 b).toNat ≠ 255 := fun heq =>
      hmax (BitVec.eq_of_toNat_eq heq)
    split at h
    next hzero =>
      have hzero : (@unpackExponent .binary32 b).toNat = 0 := congrArg BitVec.toNat hzero
      split at h
      next => cases h
      next =>
        rw [UnpackedFloat.finite.injEq] at h
        obtain ⟨_, rfl, rfl⟩ := h
        rw [hzero]
        exact ⟨by omega, by decide, by decide, .inl (by decide)⟩
    next hne =>
      have hne : (@unpackExponent .binary32 b).toNat ≠ 0 := fun heq =>
        hne (BitVec.eq_of_toNat_eq heq)
      rw [UnpackedFloat.finite.injEq, toNat_leading] at h
      obtain ⟨_, rfl, rfl⟩ := h
      have hbias : (Format.binary32.exponentBias : ℤ) = 127 := rfl
      rw [hbias]
      exact ⟨by omega, by omega, by omega, .inr (by omega)⟩

theorem unpack_normal {exponent : ℕ} (hpos : 0 < exponent) (hlt : exponent < 255)
    (mantissa : BitVec 23) :
    UnpackedFloat.unpack .binary32 (packComponents .binary32 .positive (.ofNat 8 exponent) mantissa) =
      .finite .positive (2 ^ 23 + mantissa.toNat) (exponent - 150) (by omega) := by
  have htoNat : (BitVec.ofNat 8 exponent).toNat = exponent := by
    rw [BitVec.toNat_ofNat]
    omega
  have hmax : BitVec.ofNat 8 exponent ≠ -1#8 := fun h => by
    have heq : exponent = 255 := htoNat.symm.trans (congrArg BitVec.toNat h)
    omega
  have hzero : BitVec.ofNat 8 exponent ≠ 0#8 := fun h => by
    have heq : exponent = 0 := htoNat.symm.trans (congrArg BitVec.toNat h)
    omega
  unfold UnpackedFloat.unpack
  simp only [UnpackedFloat.unpackMantissa_packComponents, UnpackedFloat.unpackExponent_packComponents,
    UnpackedFloat.unpackSign_packComponents, UnpackedFloat.Sign.ofBitVec_toBitVec, if_neg hmax,
    if_neg hzero, UnpackedFloat.finite.injEq, toNat_leading, htoNat]
  exact ⟨trivial, trivial, rfl⟩

theorem unpack_subnormal {m : ℕ} (hm : 0 < m) (hlt : m < 2 ^ 23) :
    UnpackedFloat.unpack .binary32 (packComponents .binary32 .positive 0#8 (.ofNat 23 m)) =
      .finite .positive m (-149) hm := by
  have htoNat : (BitVec.ofNat 23 m).toNat = m := by
    rw [BitVec.toNat_ofNat]
    omega
  have hmantissa : BitVec.ofNat 23 m ≠ 0#23 := fun h => by
    have heq : m = 0 := htoNat.symm.trans (congrArg BitVec.toNat h)
    omega
  unfold UnpackedFloat.unpack
  simp only [UnpackedFloat.unpackMantissa_packComponents, UnpackedFloat.unpackExponent_packComponents,
    UnpackedFloat.unpackSign_packComponents, UnpackedFloat.Sign.ofBitVec_toBitVec, dif_neg hmantissa]
  rw [if_neg (by decide), if_pos trivial, UnpackedFloat.finite.injEq]
  exact ⟨rfl, htoNat, rfl⟩

/-- A mantissa has all its bits just if the number is normal. -/
theorem log2_eq_iff {m : ℕ} (hm : 0 < m) (hbounded : m < 2 ^ 24) :
    m.log2 + 1 = Format.binary32.mantissaBits ↔ 2 ^ 23 ≤ m := by
  have hbits : Format.binary32.mantissaBits = 24 := rfl
  have hleast := Nat.le_log2 (k := 23) hm.ne'
  have hgreatest := (Nat.log2_lt hm.ne').mpr hbounded
  omega

/-- A rounded float, as the format stores it: too great a float is infinite. -/
theorem unpack_pack_finite {m : ℕ} {e : ℤ} (hm : 0 < m) (hbounded : m < 2 ^ 24) (hleast : -149 ≤ e)
    (hfull : e = -149 ∨ 2 ^ 23 ≤ m) :
    UnpackedFloat.unpack .binary32 (UnpackedFloat.pack .binary32 (.finite .positive m e hm)) =
      if e ≤ 104 then .finite .positive m e hm else .infinity .positive := by
  have hbias : (Format.binary32.exponentBias : ℤ) = 127 := rfl
  unfold UnpackedFloat.pack
  dsimp only
  split
  next hover =>
    have hgreat : ¬e ≤ 104 := by
      rw [hbias] at hover
      omega
    rw [if_neg hgreat, UnpackedFloat.packedInfinity, UnpackedFloat.unpack]
    simp
  next hunder =>
    have hfits : e ≤ 104 := by
      rw [hbias] at hunder
      omega
    rw [if_pos hfits]
    split
    next hlog =>
      have hlarge := (log2_eq_iff hm hbounded).mp hlog
      rw [unpack_normal (by omega) (by omega), UnpackedFloat.finite.injEq]
      exact ⟨rfl, by rw [BitVec.toNat_ofNat]; omega, by omega⟩
    next hlog =>
      have hsmall : m < 2 ^ 23 := not_le.mp (mt (log2_eq_iff hm hbounded).mpr hlog)
      obtain rfl := hfull.resolve_right hsmall.not_ge
      exact unpack_subnormal hm hsmall

theorem Magnitude.unpack_pack {u : UnpackedFloat} (hu : Magnitude u) :
    UnpackedFloat.unpack .binary32 (UnpackedFloat.pack .binary32 u) = u := by
  rcases hu with ⟨hu, hunsigned⟩
  cases hu with
  | zero s => exact UnpackedFloat.unpack_packedZero
  | finite hm h => rw [unpack_pack_finite hm h.bounded h.least h.full, if_pos h.greatest]
  | infinity => rfl

/-- The bits of a float whose sign is not set are its code. -/
theorem Magnitude.toNat_pack {u : UnpackedFloat} (hu : Magnitude u) :
    (UnpackedFloat.pack .binary32 u).toNat = code u := by
  rcases hu with ⟨hu, hunsigned⟩
  cases hu with
  | zero s =>
      cases s with
      | negative => exact (hunsigned rfl).elim
      | positive => rfl
  | @finite m e hm h =>
      have hbounded := h.bounded
      have hleast := h.least
      have hgreatest := h.greatest
      have hbias : (Format.binary32.exponentBias : ℤ) = 127 := rfl
      have hnormal := log2_eq_iff hm hbounded
      unfold UnpackedFloat.pack code codeOf
      dsimp only
      rw [if_neg (by omega)]
      split
      next hlog =>
        have hlarge := hnormal.mp hlog
        rw [toNat_packComponents, BitVec.toNat_ofNat, BitVec.toNat_ofNat]
        omega
      next hlog =>
        have hsmall : m < 2 ^ 23 := not_le.mp (mt hnormal.mpr hlog)
        have hexponent := h.full.resolve_right hsmall.not_ge
        rw [toNat_packComponents, BitVec.toNat_ofNat, hexponent]
        show 0 * 2 ^ 23 + m % 2 ^ 23 = _
        rw [Nat.mod_eq_of_lt hsmall]
        rfl
  | infinity => rfl

end Bits

/-! ## Single floats -/

section Floats

variable {x y : Float32}

def parts (x : Float32) : UnpackedFloat := x.toModel.unpack

theorem le_iff_code (hx : Nonnegative (parts x)) (hy : Nonnegative (parts y)) :
    x ≤ y ↔ code (parts x) ≤ code (parts y) := by
  have h : x ≤ y ↔ ((parts x).compare (parts y)).any (·.isLE) = true := by
    show Float32.le x y = true ↔ _
    unfold Float32.le
    rw [decide_eq_true_iff]
    exact Iff.rfl
  rw [h, hx.compare_eq hy]
  simp [Ordering.isLE_iff_ne_gt, compare_gt_iff_gt]

theorem lt_iff_code (hx : Nonnegative (parts x)) (hy : Nonnegative (parts y)) :
    x < y ↔ code (parts x) < code (parts y) := by
  have h : x < y ↔ ((parts x).compare (parts y) == some .lt) = true := by
    show Float32.lt x y = true ↔ _
    unfold Float32.lt
    rw [decide_eq_true_iff]
    exact Iff.rfl
  rw [h, hx.compare_eq hy]
  simp [compare_lt_iff_lt]

theorem isFinite_iff_code (hx : Nonnegative (parts x)) :
    x.isFinite = true ↔ code (parts x) < infinityCode :=
  hx.isFinite_iff

theorem code_eq_toBits (hx : Magnitude (parts x)) : x.toBits.toNat = code (parts x) := by
  rw [← hx.toNat_pack]
  exact congrArg BitVec.toNat (UnpackedFloat.pack_unpack_of_valid x.toModel.valid).symm

/-- Bits below those of infinity are the code of a float. -/
theorem magnitude_ofBits {c : ℕ} (hc : c < infinityCode) :
    Magnitude (parts (.ofBits (.ofNat c))) ∧ code (parts (.ofBits (.ofNat c))) = c := by
  obtain ⟨u, hu, hcode⟩ := exists_magnitude hc
  have hbits : (UInt32.ofNat c).toBitVec = UnpackedFloat.pack .binary32 u := by
    apply BitVec.eq_of_toNat_eq
    rw [hu.toNat_pack, hcode]
    have hsmall : c % 2 ^ 32 = c := Nat.mod_eq_of_lt (by unfold infinityCode at hc; omega)
    exact hsmall
  have hparts : parts (.ofBits (.ofNat c)) = u := by
    show UnpackedFloat.unpack .binary32
      (UnpackedFloat.pack .binary32 (UnpackedFloat.unpack .binary32 (UInt32.ofNat c).toBitVec)) = u
    rw [hbits, hu.unpack_pack, hu.unpack_pack]
  rw [hparts]
  exact ⟨hu, hcode⟩

/-- What is not below such a float is no negative number either. -/
theorem nonnegative_of_le (hx : Nonnegative (parts x)) (h : x ≤ y) : Nonnegative (parts y) := by
  have hle : ((parts x).compare (parts y)).any (·.isLE) = true := by
    have hle : Float32.le x y = true := h
    unfold Float32.le at hle
    rwa [decide_eq_true_iff] at hle
  cases hy : parts y with
  | zero s => exact .zero s
  | notANumber =>
      rw [hy] at hle
      cases hx' : parts x <;> rw [hx'] at hle <;> cases hle
  | infinity s =>
      cases s with
      | positive => exact .infinity
      | negative =>
          rw [hy] at hle
          generalize parts x = u at hx hle
          cases hx <;> cases hle
  | finite s m e hm =>
      cases s with
      | positive => exact .finite hm (stored_of_unpack hy)
      | negative =>
          rw [hy] at hle
          generalize parts x = u at hx hle
          cases hx <;> cases hle

end Floats

end BehaviourGraph
