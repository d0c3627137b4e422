import BehaviourGraph.Proofs.FloatOrder
import BehaviourGraph.Proofs.Single.Sign

/-!
# The order of single floats

A single float that is a number has a place among the numbers: its code, to the side of its sign.  Numbers
compare as their places do, and nothing compares with a NaN.  The place, and whether there is one, is read
off the bits.
-/

namespace BehaviourGraph

open Float.Model
open UnpackedFloat (unpackExponent unpackMantissa unpackSign)

/-! ## Places -/

/-- The place of a float among the numbers, with the zeros in the middle. -/
def place : UnpackedFloat → ℤ
  | .infinity s => s.apply infinityCode
  | .finite s m e _ => s.apply (codeOf m e)
  | _ => 0

def Storable : UnpackedFloat → Prop
  | .finite _ m e _ => Stored m e
  | _ => True

section Places

variable {u v : UnpackedFloat} {m m' : ℕ} {e e' : ℤ}

theorem Nonnegative.place_eq (hu : Nonnegative u) : place u = code u := by
  cases hu <;> rfl

theorem Stored.compare_places (h : Stored m e) (h' : Stored m' e') :
    compare (codeOf m e : ℤ) (codeOf m' e') = (compare e e').then (compare m m') := by
  rw [compare_natCast, h.compare_codeOf h']

theorem Stored.compare_neg_places (h : Stored m e) (h' : Stored m' e') :
    compare (-(codeOf m e : ℤ)) (-codeOf m' e') = ((compare e e').then (compare m m')).swap := by
  rw [compare_neg_neg, h.compare_places h']

/-- The codes of finite floats lie between those of the zeros and the infinities, so only finite floats of
the same sign are told apart by more than their constructors. -/
theorem compare_place (hu : Storable u) (hv : Storable v) :
    u.compare v = if u.isNaN || v.isNaN then none else some (compare (place u) (place v)) := by
  have hcode (m : ℕ) (e : ℤ) (hm : 0 < m) (h : Stored m e) : 0 < codeOf m e ∧ codeOf m e < infinityCode :=
    ⟨codeOf_pos hm, h.codeOf_lt⟩
  have hinfinity : 0 < infinityCode := by decide
  rcases u with (_ | _) | _ | _ | ⟨_ | _, m, e, hm⟩ <;>
    rcases v with (_ | _) | _ | _ | ⟨_ | _, m', e', hm'⟩ <;>
    simp only [Storable] at hu hv <;>
    first
      | exact congrArg some (hu.compare_places hv).symm
      | exact congrArg some (hu.compare_neg_places hv).symm
      | exact congrArg some (compare_lt_iff_lt.mpr (by grind [place, UnpackedFloat.Sign.apply])).symm
      | exact congrArg some (compare_gt_iff_gt.mpr (by grind [place, UnpackedFloat.Sign.apply])).symm
      | rfl

end Places

section Order

variable {x y z : Float32}

theorem storable_parts (x : Float32) : Storable (parts x) := by
  cases hx : parts x with
  | finite s m e hm => exact stored_of_unpack hx
  | notANumber => trivial
  | infinity s => trivial
  | zero s => trivial

theorem compare_parts (x y : Float32) :
    (parts x).compare (parts y) =
      if x.isNaN || y.isNaN then none else some (compare (place (parts x)) (place (parts y))) :=
  compare_place (storable_parts x) (storable_parts y)

theorem single_le_iff :
    x ≤ y ↔ x.isNaN = false ∧ y.isNaN = false ∧ place (parts x) ≤ place (parts y) := by
  have h : x ≤ y ↔ ((parts x).compare (parts y)).any (·.isLE) = true := by
    show Float32.le x y = true ↔ _
    unfold Float32.le
    rw [decide_eq_true_iff]
    exact Iff.rfl
  rw [h, compare_parts]
  cases x.isNaN <;> cases y.isNaN <;> simp [Ordering.isLE_iff_ne_gt, compare_gt_iff_gt]

theorem single_lt_iff :
    x < y ↔ x.isNaN = false ∧ y.isNaN = false ∧ place (parts x) < place (parts y) := by
  have h : x < y ↔ ((parts x).compare (parts y) == some .lt) = true := by
    show Float32.lt x y = true ↔ _
    unfold Float32.lt
    rw [decide_eq_true_iff]
    exact Iff.rfl
  rw [h, compare_parts]
  cases x.isNaN <;> cases y.isNaN <;> simp [compare_lt_iff_lt]

theorem single_beq_iff :
    (x == y) = true ↔ x.isNaN = false ∧ y.isNaN = false ∧ place (parts x) = place (parts y) := by
  have h : (x == y) = ((parts x).compare (parts y) == some .eq) := rfl
  rw [h, compare_parts]
  cases x.isNaN <;> cases y.isNaN <;> simp

theorem single_le_total (hx : x.isNaN = false) (hy : y.isNaN = false) : x ≤ y ∨ y ≤ x := by
  rw [single_le_iff, single_le_iff]
  simp only [hx, hy, true_and]
  exact le_total _ _

theorem single_le_refl (hx : x.isNaN = false) : x ≤ x :=
  single_le_iff.mpr ⟨hx, hx, le_rfl⟩

theorem single_beq_refl (hx : x.isNaN = false) : (x == x) = true :=
  single_beq_iff.mpr ⟨hx, hx, rfl⟩

theorem single_le_trans (hxy : x ≤ y) (hyz : y ≤ z) : x ≤ z := by
  rw [single_le_iff] at hxy hyz ⊢
  exact ⟨hxy.1, hyz.2.1, hxy.2.2.trans hyz.2.2⟩

theorem not_single_le (hx : x.isNaN = false) (hy : y.isNaN = false) : ¬x ≤ y ↔ y < x := by
  rw [single_le_iff, single_lt_iff]
  simp only [hx, hy, true_and, not_le]

theorem not_single_lt (hx : x.isNaN = false) (hy : y.isNaN = false) : ¬x < y ↔ y ≤ x := by
  rw [← not_single_le hy hx, not_not]

theorem single_lt_of_le_of_lt (hxy : x ≤ y) (hyz : y < z) : x < z := by
  rw [single_le_iff] at hxy
  rw [single_lt_iff] at hyz ⊢
  exact ⟨hxy.1, hyz.2.1, hxy.2.2.trans_lt hyz.2.2⟩

theorem single_lt_asymm (hxy : x < y) (hyx : y < x) : False := by
  rw [single_lt_iff] at hxy hyx
  exact hxy.2.2.asymm hyx.2.2

theorem single_le_of_lt (h : x < y) : x ≤ y := by
  rw [single_lt_iff] at h
  exact single_le_iff.mpr ⟨h.1, h.2.1, h.2.2.le⟩

end Order

/-! ## Bits -/

def unsignedBits (bits : UInt32) : Nat := bits.toNat % 2 ^ 31

section Bits

variable (b : BitVec 32)

theorem toNat_unpackExponent : (@unpackExponent .binary32 b).toNat = b.toNat % 2 ^ 31 / 2 ^ 23 := by
  unfold unpackExponent
  simp [BitVec.extractLsb_toNat, Nat.shiftRight_eq_div_pow]
  omega

theorem toNat_unpackMantissa : (@unpackMantissa .binary32 b).toNat = b.toNat % 2 ^ 23 := by
  unfold unpackMantissa
  simp [BitVec.extractLsb_toNat]

theorem toNat_unpackSign : (@unpackSign .binary32 b).toNat = b.toNat / 2 ^ 31 := by
  have hb := b.isLt
  unfold unpackSign
  simp [BitVec.extractLsb_toNat, Nat.shiftRight_eq_div_pow]
  omega

theorem unpackExponent_full : @unpackExponent .binary32 b = -1#8 ↔ b.toNat % 2 ^ 31 / 2 ^ 23 = 255 := by
  rw [← toNat_unpackExponent]
  exact BitVec.toNat_inj.symm

theorem unpackExponent_zero : @unpackExponent .binary32 b = 0#8 ↔ b.toNat % 2 ^ 31 / 2 ^ 23 = 0 := by
  rw [← toNat_unpackExponent]
  exact BitVec.toNat_inj.symm

theorem unpackMantissa_zero : @unpackMantissa .binary32 b = 0#23 ↔ b.toNat % 2 ^ 23 = 0 := by
  rw [← toNat_unpackMantissa]
  exact BitVec.toNat_inj.symm

theorem unpackSign_eq :
    UnpackedFloat.Sign.ofBitVec (@unpackSign .binary32 b) =
      if b.toNat < 2 ^ 31 then .positive else .negative := by
  have hzero : @unpackSign .binary32 b = 0#1 ↔ b.toNat / 2 ^ 31 = 0 := by
    rw [← toNat_unpackSign]
    exact BitVec.toNat_inj.symm
  unfold UnpackedFloat.Sign.ofBitVec
  simp only [hzero, Nat.div_eq_zero_iff_lt (by decide : 0 < 2 ^ 31)]

theorem isNaN_unpack_iff :
    (UnpackedFloat.unpack .binary32 b).isNaN = true ↔ infinityCode < b.toNat % 2 ^ 31 := by
  unfold UnpackedFloat.unpack infinityCode
  dsimp only
  split
  next hexponent =>
    rw [unpackExponent_full] at hexponent
    split
    next hmantissa =>
      rw [unpackMantissa_zero] at hmantissa
      simp only [UnpackedFloat.isNaN, Bool.false_eq_true, false_iff]
      omega
    next hmantissa =>
      rw [unpackMantissa_zero] at hmantissa
      simp only [UnpackedFloat.isNaN, true_iff]
      omega
  next hexponent =>
    rw [unpackExponent_full] at hexponent
    have hsmall : ¬0x7f800000 < b.toNat % 2 ^ 31 := by omega
    rw [iff_false_right hsmall]
    split
    · split <;> simp [UnpackedFloat.isNaN]
    · simp [UnpackedFloat.isNaN]

/-- The exponent and the mantissa of a number make up the bits without the sign. -/
theorem place_unpack (hnumber : (UnpackedFloat.unpack .binary32 b).isNaN = false) :
    place (UnpackedFloat.unpack .binary32 b) =
      (UnpackedFloat.Sign.ofBitVec (@unpackSign .binary32 b)).apply (b.toNat % 2 ^ 31 : ℕ) := by
  have hbias : (Format.binary32.exponentBias : ℤ) = 127 := rfl
  have hbits : (Format.binary32.mantissaBitsWithoutImplicit : ℤ) = 23 := rfl
  unfold UnpackedFloat.unpack at hnumber ⊢
  dsimp only at hnumber ⊢
  split at hnumber
  next hexponent =>
    split at hnumber
    next hmantissa =>
      rw [if_pos hexponent, if_pos hmantissa]
      rw [unpackExponent_full] at hexponent
      rw [unpackMantissa_zero] at hmantissa
      refine congrArg (UnpackedFloat.Sign.apply _) ?_
      unfold infinityCode
      omega
    next => cases hnumber
  next hexponent =>
    rw [if_neg hexponent]
    split
    next hzero =>
      rw [unpackExponent_zero] at hzero
      split
      next hmantissa =>
        rw [unpackMantissa_zero] at hmantissa
        have hnone : b.toNat % 2 ^ 31 = 0 := by omega
        rw [hnone]
        cases UnpackedFloat.Sign.ofBitVec (@unpackSign .binary32 b) <;> rfl
      next hmantissa =>
        refine congrArg (UnpackedFloat.Sign.apply _) ?_
        rw [toNat_unpackExponent, toNat_unpackMantissa, hbias, hbits]
        unfold codeOf
        omega
    next hzero =>
      rw [unpackExponent_zero] at hzero
      refine congrArg (UnpackedFloat.Sign.apply _) ?_
      rw [toNat_leading, toNat_unpackExponent, toNat_unpackMantissa, hbias, hbits]
      unfold codeOf
      omega

/-- Packing forgets which NaN a float was, and nothing else. -/
theorem repacked_of_number (hnumber : (UnpackedFloat.unpack .binary32 b).isNaN = false) :
    stored (UnpackedFloat.unpack .binary32 b) = UnpackedFloat.unpack .binary32 b := by
  have hvalid : Format.binary32.Valid b := by
    refine ⟨fun hexponent hmantissa => ?_⟩
    have hnumber : ¬(UnpackedFloat.unpack .binary32 b).isNaN = true := by simp [hnumber]
    unfold UnpackedFloat.unpack at hnumber
    simp [hexponent, hmantissa, UnpackedFloat.isNaN] at hnumber
  exact congrArg (UnpackedFloat.unpack .binary32) (UnpackedFloat.pack_unpack_of_valid hvalid)

theorem isNaN_repacked :
    (stored (UnpackedFloat.unpack .binary32 b)).isNaN = (UnpackedFloat.unpack .binary32 b).isNaN := by
  cases hnan : (UnpackedFloat.unpack .binary32 b).isNaN with
  | true =>
      cases hb : UnpackedFloat.unpack .binary32 b <;> rw [hb] at hnan <;> first | rfl | cases hnan
  | false => rw [repacked_of_number b hnan, hnan]

end Bits

section Floats

variable (bits : UInt32)

theorem isNaN_ofBits : (Float32.ofBits bits).isNaN = (UnpackedFloat.unpack .binary32 bits.toBitVec).isNaN :=
  isNaN_repacked bits.toBitVec

theorem isNaN_ofBits_iff : (Float32.ofBits bits).isNaN = true ↔ infinityCode < unsignedBits bits := by
  rw [isNaN_ofBits]
  exact isNaN_unpack_iff bits.toBitVec

/-- The bits of a number tell its place. -/
theorem place_ofBits (hnumber : (Float32.ofBits bits).isNaN = false) :
    place (parts (.ofBits bits)) =
      if bits.toNat < 2 ^ 31 then (bits.toNat : ℤ) else 2 ^ 31 - bits.toNat := by
  rw [isNaN_ofBits] at hnumber
  have hparts : parts (.ofBits bits) = UnpackedFloat.unpack .binary32 bits.toBitVec :=
    repacked_of_number _ hnumber
  have hbound := bits.toNat_lt
  rw [hparts, place_unpack _ hnumber, unpackSign_eq]
  show UnpackedFloat.Sign.apply (if bits.toNat < 2 ^ 31 then _ else _) (bits.toNat % 2 ^ 31 : ℕ) = _
  split <;> simp only [UnpackedFloat.Sign.apply] <;> omega

end Floats

end BehaviourGraph
