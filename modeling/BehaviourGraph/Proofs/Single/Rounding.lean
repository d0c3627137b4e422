import BehaviourGraph.Proofs.Single.Magnitude

/-!
# Rounding of single floats

A float operation computes an exact value and rounds it to the nearest float, a tie to the even mantissa.
`RoundsTo` relates an exact value to the code of that float.  A greater value has no smaller code, so the
operations are monotone, whatever the exponents and also where they overflow.
-/

namespace BehaviourGraph

open Float.Model
open Float.Model.UnpackedFloat (Accuracy ExtendedMantissa shiftToTargetExponent roundWithAccuracy)

/-! ## Nearest numbers -/

/-- A number is nearest to a value, and even if another one is as near. -/
structure Nearest (y : ℚ) (k : ℕ) : Prop where
  above : k - 1 / 2 ≤ y
  below : y ≤ k + 1 / 2
  even : y = k - 1 / 2 ∨ y = k + 1 / 2 → k % 2 = 0

theorem Nearest.mono {y y' : ℚ} {k k' : ℕ} (h : Nearest y k) (h' : Nearest y' k') (hle : y ≤ y') :
    k ≤ k' := by
  by_contra hgt
  have hsucc : k' + 1 ≤ k := by omega
  have hcast : (k' : ℚ) + 1 ≤ k := by exact_mod_cast hsucc
  have habove := h.above
  have hbelow := h'.below
  have htop : y' = k' + 1 / 2 := by linarith
  have hbottom : y = k - 1 / 2 := by linarith
  have hnext : (k : ℚ) = k' + 1 := by linarith
  have hnext : k = k' + 1 := by exact_mod_cast hnext
  have heven := h.even (.inl hbottom)
  have heven' := h'.even (.inr htop)
  omega

theorem nearest_self (k : ℕ) : Nearest k k where
  above := by linarith
  below := by linarith
  even h := by rcases h with h | h <;> linarith

/-! ## Rounding -/

/-- A code is that of the float nearest to an exact value.  The value is scaled so that its whole part is
the mantissa, as far as the exponents reach; a carry out of the mantissa counts into the exponent, and
what is too great is infinite. -/
def RoundsTo (q : ℚ) (c : ℕ) : Prop :=
  ∃ (t : ℤ) (k : ℕ), -149 ≤ t ∧ (t = -149 ∨ 2 ^ 23 ≤ q / 2 ^ t) ∧ q / 2 ^ t < 2 ^ 24 ∧
    Nearest (q / 2 ^ t) k ∧ c = min infinityCode (codeOf k t)

theorem RoundsTo.mono {q q' : ℚ} {c c' : ℕ} (h : RoundsTo q c) (h' : RoundsTo q' c') (hle : q ≤ q') :
    c ≤ c' := by
  obtain ⟨t, k, hleast, hfull, hbounded, hnearest, rfl⟩ := h
  obtain ⟨t', k', hleast', hfull', hbounded', hnearest', rfl⟩ := h'
  refine min_le_min_left _ ?_
  rcases lt_trichotomy t t' with hlt | rfl | hgt
  · have hsmall : k ≤ 2 ^ 24 := hnearest.mono (nearest_self _) (by exact_mod_cast hbounded.le)
    have hlarge : 2 ^ 23 ≤ k' :=
      (nearest_self _).mono hnearest' (by exact_mod_cast hfull'.resolve_left (by omega))
    unfold codeOf
    omega
  · have hscaled : q / 2 ^ t ≤ q' / 2 ^ t := by gcongr
    exact Nat.add_le_add_left (hnearest.mono hnearest' hscaled) _
  · exfalso
    have hlarge : 2 ^ 23 ≤ q / 2 ^ t := hfull.resolve_left (by omega)
    have hdouble : (2 : ℚ) * 2 ^ t' ≤ 2 ^ t := by
      rw [← zpow_one_add₀ (by norm_num)]
      exact zpow_le_zpow_right₀ (by norm_num) (by omega)
    rw [le_div_iff₀ (by positivity)] at hlarge
    rw [div_lt_iff₀ (by positivity)] at hbounded'
    linarith

/-- A float is the rounding of its own value. -/
theorem Stored.rounds {m : ℕ} {e : ℤ} (h : Stored m e) : RoundsTo (m * 2 ^ e) (codeOf m e) := by
  have hscaled : (m : ℚ) * 2 ^ e / 2 ^ e = m := mul_div_cancel_right₀ _ (by positivity)
  refine ⟨e, m, h.least, ?_, ?_, ?_, (Nat.min_eq_right h.codeOf_lt.le).symm⟩
  · rw [hscaled]
    exact h.full.imp_right fun hlarge => by exact_mod_cast hlarge
  · rw [hscaled]
    exact_mod_cast h.bounded
  · rw [hscaled]
    exact nearest_self m

structure Rounded (q : ℚ) (u : UnpackedFloat) : Prop where
  magnitude : Magnitude u
  rounds : RoundsTo q (code u)

/-! ## Residual bits -/

/-- A mantissa and its residual bits tell a value: the round bit is the half, the sticky bit the rest. -/
def Represents (em : ExtendedMantissa) (y : ℚ) : Prop :=
  if em.roundBit then
    if em.stickyBit then (em.mantissa : ℚ) + 1 / 2 < y ∧ y < em.mantissa + 1
    else y = em.mantissa + 1 / 2
  else
    if em.stickyBit then (em.mantissa : ℚ) < y ∧ y < em.mantissa + 1 / 2
    else y = em.mantissa

section Residual

variable {em : ExtendedMantissa} {y : ℚ}

theorem Represents.bounds (h : Represents em y) : (em.mantissa : ℚ) ≤ y ∧ y < em.mantissa + 1 := by
  rcases em with ⟨m, r, s⟩
  cases r <;> cases s <;> simp only [Represents, if_true, Bool.false_eq_true, if_false] at h <;>
    constructor <;> linarith

theorem Represents.nearest (h : Represents em y) : Nearest y em.roundedMantissa := by
  rcases em with ⟨m, r, s⟩
  cases r <;> cases s <;>
    simp only [Represents, if_true, Bool.false_eq_true, if_false] at h <;>
    simp only [ExtendedMantissa.roundedMantissa, ExtendedMantissa.accuracy, Accuracy.roundToNearestEven]
  · rw [h]
    exact nearest_self m
  · exact ⟨by linarith, by linarith, fun htie => by rcases htie with htie | htie <;> linarith⟩
  · rcases Nat.mod_two_eq_zero_or_one m with hbit | hbit
    · rw [hbit, Nat.add_zero]
      exact ⟨by linarith, by linarith, fun _ => hbit⟩
    · rw [hbit]
      exact ⟨by push_cast; linarith, by push_cast; linarith, fun _ => by omega⟩
  · refine ⟨by push_cast; linarith, by push_cast; linarith, fun htie => ?_⟩
    push_cast at htie
    rcases htie with htie | htie <;> linarith

/-- Halving a value shifts its bits by one. -/
theorem Represents.shiftRightOne (h : Represents em y) : Represents em.shiftRightOne (y / 2) := by
  rcases em with ⟨m, r, s⟩
  have hsplit : ((m % 2 : ℕ) : ℚ) + 2 * ((m / 2 : ℕ) : ℚ) = m := by exact_mod_cast Nat.mod_add_div m 2
  rcases Nat.mod_two_eq_zero_or_one m with hbit | hbit <;> rw [hbit] at hsplit <;>
    push_cast at hsplit <;> cases r <;> cases s <;>
    simp only [Represents, ExtendedMantissa.shiftRightOne, hbit, if_true, Bool.false_eq_true, if_false,
      bne_self_eq_false, Bool.or_true, Bool.or_false] at h ⊢ <;> norm_num <;>
    first | linarith | exact ⟨by linarith, by linarith⟩

theorem Represents.shiftRight (h : Represents em y) (n : ℕ) : Represents (em >>> n) (y / 2 ^ n) := by
  show Represents (n.repeat ExtendedMantissa.shiftRightOne em) _
  induction n with
  | zero => simpa [Nat.repeat] using h
  | succ n ih =>
      rw [pow_succ, ← div_div]
      exact ih.shiftRightOne

end Residual

/-! ## Rounding a mantissa -/

section Round

/-- What the format keeps of a float. -/
def stored (u : UnpackedFloat) : UnpackedFloat :=
  UnpackedFloat.unpack .binary32 (UnpackedFloat.pack .binary32 u)

variable {m k : ℕ} {e t : ℤ} {acc : Accuracy} {y : ℚ}

theorem targetExponent_totalExponent (m : ℕ) (e : ℤ) :
    Format.binary32.targetExponent (totalExponent m e) =
      max ((m.log2 + 1 : ℕ) + e - 24) (-149) := rfl

/-- A mantissa that has been rounded needs at most one more shift, and that keeps its code. -/
theorem shiftToTargetExponent_rounded (hk : k ≤ 2 ^ 24) (ht : -149 ≤ t) (hfull : t = -149 ∨ 2 ^ 23 ≤ k) :
    ∃ em e', shiftToTargetExponent .binary32 k t .exact = (em, e') ∧ em.mantissa < 2 ^ 24 ∧ -149 ≤ e' ∧
      (e' = -149 ∨ 2 ^ 23 ≤ em.mantissa) ∧ codeOf em.mantissa e' = codeOf k t := by
  unfold shiftToTargetExponent UnpackedFloat.shiftToExponent
  rw [targetExponent_totalExponent]
  refine ⟨_, _, rfl, ?_⟩
  rcases hk.lt_or_eq with hlt | rfl
  · have hlog : k.log2 < 24 := by
      rcases Nat.eq_zero_or_pos k with rfl | hpos
      · decide
      · exact (Nat.log2_lt hpos.ne').mpr hlt
    have hshift : (max ((k.log2 + 1 : ℕ) + t - 24) (-149) - t).toNat = 0 := by omega
    rw [hshift]
    have hmantissa : (ExtendedMantissa.ofMantissaAndAccuracy k .exact >>> 0).mantissa = k := rfl
    rw [hmantissa, Nat.cast_zero, add_zero]
    exact ⟨hlt, ht, hfull, rfl⟩
  · have hlog : (2 ^ 24 : ℕ).log2 = 24 := Nat.log2_two_pow
    have hshift : (max (((2 ^ 24 : ℕ).log2 + 1 : ℕ) + t - 24) (-149) - t).toNat = 1 := by omega
    rw [hshift]
    have hmantissa :
        (ExtendedMantissa.ofMantissaAndAccuracy (2 ^ 24) .exact >>> 1).mantissa = 2 ^ 23 := rfl
    rw [hmantissa]
    refine ⟨by decide, by omega, .inr le_rfl, ?_⟩
    unfold codeOf
    omega

/-- The exponent that a mantissa is shifted to leaves it 24 bits, or fewer if it is the least. -/
theorem shifted_bounds {n : ℕ} (hlow : (m : ℚ) ≤ y) (hhigh : y < m + 1)
    (ht : t = max ((m.log2 + 1 : ℕ) + e - 24) (-149)) (hn : t = e + n) :
    (t = -149 ∨ 2 ^ 23 ≤ y / 2 ^ n) ∧ y / 2 ^ n < 2 ^ 24 := by
  rw [le_div_iff₀ (by positivity), div_lt_iff₀ (by positivity), ← pow_add, ← pow_add]
  constructor
  · rcases eq_or_ne t (-149) with hleast | hleast
    · exact .inl hleast
    · have hlog : m.log2 = 23 + n := by omega
      have hpos : m ≠ 0 := by
        rintro rfl
        rw [Nat.log2_zero] at hlog
        omega
      have hpower : 2 ^ (23 + n) ≤ m := hlog ▸ Nat.log2_self_le hpos
      have hpower : (2 : ℚ) ^ (23 + n) ≤ m := by exact_mod_cast hpower
      exact .inr (hpower.trans hlow)
  · have hpower : m + 1 ≤ 2 ^ (24 + n) :=
      Nat.lt_log2_self.trans_le (Nat.pow_le_pow_right (by decide) (by omega))
    have hpower : (m : ℚ) + 1 ≤ 2 ^ (24 + n) := by exact_mod_cast hpower
    exact hhigh.trans_le hpower

/-- The format keeps the code of a rounded mantissa, if that is not too great. -/
theorem stored_rounded (hbounded : m < 2 ^ 24) (hleast : -149 ≤ e) (hfull : e = -149 ∨ 2 ^ 23 ≤ m) :
    let u := stored (if h : m = 0 then .zero .positive else .finite .positive m e (Nat.pos_of_ne_zero h))
    Magnitude u ∧ code u = min infinityCode (codeOf m e) := by
  intro u
  by_cases hzero : m = 0
  · have hu : u = .zero .positive := by
      simp only [u, dif_pos hzero, stored, UnpackedFloat.pack, UnpackedFloat.unpack_packedZero]
    obtain rfl : e = -149 := by omega
    rw [hu, hzero]
    exact ⟨⟨.zero _, nofun⟩, rfl⟩
  · have hu : u = if e ≤ 104 then .finite .positive m e (Nat.pos_of_ne_zero hzero)
        else .infinity .positive := by
      simp only [u, dif_neg hzero, stored, unpack_pack_finite _ hbounded hleast hfull]
    rw [hu]
    split
    next hfits =>
      have h : Stored m e := ⟨hbounded, hleast, hfits, hfull⟩
      exact ⟨⟨.finite _ h, nofun⟩, (Nat.min_eq_right h.codeOf_lt.le).symm⟩
    next hgreat =>
      refine ⟨⟨.infinity, nofun⟩, (Nat.min_eq_left ?_).symm⟩
      show infinityCode ≤ codeOf m e
      unfold infinityCode codeOf
      omega

/-- Rounding a mantissa, with what is known of the bits beyond it, gives the float nearest to the exact
value. -/
theorem roundWithAccuracy_rounded (hy : Represents (.ofMantissaAndAccuracy m acc) y)
    (he : e ≤ max ((m.log2 + 1 : ℕ) + e - 24) (-149)) :
    Rounded (y * 2 ^ e) (stored (roundWithAccuracy .binary32 .positive m e acc)) := by
  obtain ⟨t, ht⟩ : ∃ t, t = max ((m.log2 + 1 : ℕ) + e - 24) (-149) := ⟨_, rfl⟩
  obtain ⟨n, hn⟩ : ∃ n : ℕ, t = e + n := ⟨(t - e).toNat, by omega⟩
  have hscaled : y * 2 ^ e / 2 ^ t = y / 2 ^ n := by
    rw [hn, zpow_add₀ (by norm_num), zpow_natCast]
    field_simp
  have hshifted : shiftToTargetExponent .binary32 m e acc =
      (ExtendedMantissa.ofMantissaAndAccuracy m acc >>> n, t) := by
    unfold shiftToTargetExponent UnpackedFloat.shiftToExponent
    rw [targetExponent_totalExponent, ← ht, hn]
    simp
  have hkeeps : (ExtendedMantissa.ofMantissaAndAccuracy m acc).mantissa = m := by
    unfold ExtendedMantissa.ofMantissaAndAccuracy
    split <;> rfl
  obtain ⟨hlow, hhigh⟩ := hy.bounds
  rw [hkeeps] at hlow hhigh
  obtain ⟨hfull, hbounded⟩ := shifted_bounds hlow hhigh ht hn
  obtain ⟨k, hk⟩ : ∃ k, k = (ExtendedMantissa.ofMantissaAndAccuracy m acc >>> n).roundedMantissa :=
    ⟨_, rfl⟩
  have hnearest : Nearest (y / 2 ^ n) k := hk ▸ (hy.shiftRight n).nearest
  have hgreatest : k ≤ 2 ^ 24 := hnearest.mono (nearest_self _) (by exact_mod_cast hbounded.le)
  have hleast : t = -149 ∨ 2 ^ 23 ≤ k := hfull.imp_right fun hlarge =>
    (nearest_self _).mono hnearest (by exact_mod_cast hlarge)
  obtain ⟨em, e', hagain, hem⟩ := shiftToTargetExponent_rounded hgreatest (by omega) hleast
  have hround : roundWithAccuracy .binary32 .positive m e acc =
      if h : em.mantissa = 0 then .zero .positive
      else .finite .positive em.mantissa e' (Nat.pos_of_ne_zero h) := by
    simp only [roundWithAccuracy, hshifted, ← hk, hagain]
  obtain ⟨hmagnitude, hcode⟩ := stored_rounded hem.1 hem.2.1 hem.2.2.1
  rw [hround]
  exact ⟨hmagnitude, t, k, by omega, hscaled ▸ hfull, hscaled ▸ hbounded, hscaled ▸ hnearest,
    hcode.trans (congrArg _ hem.2.2.2)⟩

end Round

end BehaviourGraph
