import BehaviourGraph.Number.Decimal
import BehaviourGraph.Proofs.Single.Rounding

/-!
# Shortest decimals

The decimal that is written for a float lies in the float's rounding interval, so the float is nearest to
it.  The search for it ends: with seventeen digits the decimals are closer to each other than the ends of
the interval are to the float.
-/

namespace BehaviourGraph

open Float.Model

/-- The number of digits tells the magnitude. -/
theorem exists_length_toDigits {n : ℕ} (hpos : 0 < n) :
    ∃ count, (Nat.toDigits 10 n).length = count + 1 ∧ 10 ^ count ≤ n ∧ n < 10 ^ (count + 1) := by
  have hlength : 0 < (Nat.toDigits 10 n).length := List.length_pos_iff.mpr Nat.toDigits_ne_nil
  obtain ⟨count, hcount⟩ := Nat.exists_eq_add_one_of_ne_zero hlength.ne'
  refine ⟨count, hcount, ?_, ?_⟩
  · by_cases hone : count = 0
    · rw [hone]
      exact hpos
    · have hshorter := Nat.length_toDigits_le_iff (n := n) (by decide : 1 < 10) (Nat.pos_of_ne_zero hone)
      omega
  · exact (Nat.length_toDigits_le_iff (by decide) (Nat.succ_pos _)).mp hcount.le

namespace Decimal

def value (d : Decimal) : ℚ := d.coefficient * 10 ^ d.exponent

/-! ## Whole multiples -/

section Sides

/-- What the two sides of a comparison are multiplied by. -/
def sideFactor (exponent scale : ℤ) : ℚ := 10 ^ (-exponent).toNat * 2 ^ (-scale).toNat

theorem sideFactor_pos (exponent scale : ℤ) : 0 < sideFactor exponent scale := by
  unfold sideFactor
  positivity

theorem pow_toNat {b : ℚ} (hb : b ≠ 0) (n : ℤ) : b ^ n.toNat = b ^ n * b ^ (-n).toNat := by
  have hsum : (n.toNat : ℤ) = n + (-n).toNat := by omega
  rw [← zpow_natCast, ← zpow_natCast, ← zpow_add₀ hb, ← hsum]

theorem decimalSide_eq (exponent scale : ℤ) (coefficient : ℕ) :
    (decimalSide exponent scale coefficient : ℚ) =
      coefficient * 10 ^ exponent * sideFactor exponent scale := by
  unfold decimalSide sideFactor
  push_cast
  rw [Nat.pow_eq, Nat.pow_eq]
  push_cast
  rw [pow_toNat (by norm_num) exponent]
  ring

theorem binarySide_eq (exponent scale : ℤ) (coefficient : ℕ) :
    (binarySide exponent scale coefficient : ℚ) =
      coefficient * 2 ^ scale * sideFactor exponent scale := by
  unfold binarySide sideFactor
  push_cast
  rw [Nat.pow_eq, Nat.pow_eq]
  push_cast
  rw [pow_toNat (by norm_num) scale]
  ring

theorem binarySide_le_iff {exponent scale : ℤ} {b c : ℕ} :
    binarySide exponent scale b ≤ decimalSide exponent scale c ↔ (b : ℚ) * 2 ^ scale ≤ c * 10 ^ exponent := by
  rw [← Nat.cast_le (α := ℚ), binarySide_eq, decimalSide_eq,
    mul_le_mul_iff_left₀ (sideFactor_pos exponent scale)]

theorem decimalSide_le_iff {exponent scale : ℤ} {b c : ℕ} :
    decimalSide exponent scale c ≤ binarySide exponent scale b ↔ (c : ℚ) * 10 ^ exponent ≤ b * 2 ^ scale := by
  rw [← Nat.cast_le (α := ℚ), binarySide_eq, decimalSide_eq,
    mul_le_mul_iff_left₀ (sideFactor_pos exponent scale)]

/-- The quotient of the sides counts the whole powers of ten. -/
theorem le_quotient_iff {exponent scale : ℤ} {b n : ℕ} :
    n ≤ binarySide exponent scale b / decimalSide exponent scale 1 ↔ (n : ℚ) * 10 ^ exponent ≤ b * 2 ^ scale := by
  have hpos : 0 < decimalSide exponent scale 1 := by
    rw [← Nat.cast_pos (α := ℚ), decimalSide_eq]
    have hfactor := sideFactor_pos exponent scale
    positivity
  have htimes : n * decimalSide exponent scale 1 = decimalSide exponent scale n := by
    simp [decimalSide, Nat.mul_assoc]
  rw [Nat.le_div_iff_mul_le hpos, htimes, decimalSide_le_iff]

end Sides

/-! ## Intervals -/

namespace Interval

variable {i : Interval} {d : Decimal} {tie : Tie} {count : ℕ}

def middle (i : Interval) : ℚ := i.centre * 2 ^ i.scale

def Covers (i : Interval) (q : ℚ) : Prop :=
  if i.closed then i.low * 2 ^ i.scale ≤ q ∧ q ≤ i.high * 2 ^ i.scale
  else i.low * 2 ^ i.scale < q ∧ q < i.high * 2 ^ i.scale

theorem holds_iff : i.holds d = true ↔ i.Covers d.value := by
  unfold holds Covers value
  split
  · simp only [Bool.and_eq_true, decide_eq_true_eq, binarySide_le_iff, decimalSide_le_iff]
  · simp only [Bool.and_eq_true, decide_eq_true_eq, ← not_le, binarySide_le_iff, decimalSide_le_iff]

theorem covers_of_lt {q : ℚ} (hlow : i.low * 2 ^ i.scale < q) (hhigh : q < i.high * 2 ^ i.scale) :
    i.Covers q := by
  unfold Covers
  split
  · exact ⟨hlow.le, hhigh.le⟩
  · exact ⟨hlow, hhigh⟩

theorem Covers.bounds {q : ℚ} (h : i.Covers q) : i.low * 2 ^ i.scale ≤ q ∧ q ≤ i.high * 2 ^ i.scale := by
  unfold Covers at h
  split at h
  · exact h
  · exact ⟨h.1.le, h.2.le⟩

/-- The inverse quotient of the sides counts how often the middle fits into one. -/
theorem le_inverse_iff (hcentre : 0 < i.centre) {n : ℕ} :
    n ≤ decimalSide 0 i.scale 1 / binarySide 0 i.scale i.centre ↔ n * i.middle ≤ 1 := by
  have hpos : 0 < binarySide 0 i.scale i.centre := by
    rw [← Nat.cast_pos (α := ℚ), binarySide_eq]
    have hfactor := sideFactor_pos 0 i.scale
    positivity
  have htimes : n * binarySide 0 i.scale i.centre = binarySide 0 i.scale (n * i.centre) := by
    simp [binarySide, Nat.mul_assoc]
  rw [Nat.le_div_iff_mul_le hpos, htimes, binarySide_le_iff]
  simp [middle, mul_assoc]

/-- From one on, the digits of the whole part tell the magnitude. -/
theorem digits_of_one_le (hone : decimalSide 0 i.scale 1 ≤ binarySide 0 i.scale i.centre) :
    ∃ count, (Nat.toDigits 10 (binarySide 0 i.scale i.centre / decimalSide 0 i.scale 1)).length = count + 1 ∧
      10 ^ count ≤ i.middle ∧ i.middle < 10 ^ (count + 1) := by
  obtain ⟨n, hn⟩ : ∃ n, n = binarySide 0 i.scale i.centre / decimalSide 0 i.scale 1 := ⟨_, rfl⟩
  have hpos : 0 < n := by
    rw [decimalSide_le_iff] at hone
    rw [hn, Nat.lt_iff_add_one_le, le_quotient_iff]
    simpa using hone
  obtain ⟨count, hcount, hlow, hhigh⟩ := exists_length_toDigits hpos
  rw [hn, le_quotient_iff] at hlow
  rw [← not_le, hn, le_quotient_iff, not_le] at hhigh
  refine ⟨count, hn ▸ hcount, ?_, ?_⟩
  · simpa [middle] using hlow
  · simpa [middle] using hhigh

/-- Below one, the digits of the whole part of the inverse tell it, powers of ten apart. -/
theorem digits_of_lt_one (hcentre : 0 < i.centre)
    (hone : ¬decimalSide 0 i.scale 1 ≤ binarySide 0 i.scale i.centre) :
    ∃ count, (Nat.toDigits 10 (decimalSide 0 i.scale 1 / binarySide 0 i.scale i.centre)).length = count + 1 ∧
      10 ^ count * i.middle ≤ 1 ∧ 1 < 10 ^ (count + 1) * i.middle := by
  obtain ⟨n, hn⟩ : ∃ n, n = decimalSide 0 i.scale 1 / binarySide 0 i.scale i.centre := ⟨_, rfl⟩
  have hpos : 0 < n := by
    rw [decimalSide_le_iff, not_le] at hone
    rw [hn, Nat.lt_iff_add_one_le, le_inverse_iff hcentre]
    simpa [middle] using hone.le
  obtain ⟨count, hcount, hlow, hhigh⟩ := exists_length_toDigits hpos
  rw [hn, le_inverse_iff hcentre] at hlow
  rw [← not_le, hn, le_inverse_iff hcentre, not_le] at hhigh
  refine ⟨count, hn ▸ hcount, ?_, ?_⟩
  · exact_mod_cast hlow
  · exact_mod_cast hhigh

theorem le_raised_iff (count : ℕ) :
    decimalSide 0 i.scale 1 ≤ binarySide 0 i.scale i.centre * Nat.pow 10 count ↔ 1 ≤ 10 ^ count * i.middle := by
  have htimes : binarySide 0 i.scale i.centre * Nat.pow 10 count =
      binarySide 0 i.scale (10 ^ count * i.centre) := by
    simp only [binarySide, Nat.pow_eq]
    ring
  rw [htimes, decimalSide_le_iff]
  simp [middle, mul_assoc]

/-- The magnitude of an interval is that of its middle. -/
theorem magnitude_spec (hcentre : 0 < i.centre) :
    (10 : ℚ) ^ (i.magnitude - 1) ≤ i.middle ∧ i.middle < 10 ^ i.magnitude := by
  unfold magnitude
  dsimp only
  by_cases hone : decimalSide 0 i.scale 1 ≤ binarySide 0 i.scale i.centre
  · obtain ⟨count, hcount, hlow, hhigh⟩ := digits_of_one_le hone
    have hless : ((count + 1 : ℕ) : ℤ) - 1 = count := by omega
    rw [if_pos hone, hcount, hless, zpow_natCast, zpow_natCast]
    exact ⟨hlow, hhigh⟩
  · obtain ⟨count, hcount, hlow, hhigh⟩ := digits_of_lt_one hcentre hone
    have hpos : (0 : ℚ) < 10 ^ count := by positivity
    rw [if_neg hone, hcount, Nat.add_sub_cancel]
    by_cases hexact : 1 ≤ 10 ^ count * i.middle
    · have hmiddle : i.middle = (10 ^ count)⁻¹ := eq_inv_of_mul_eq_one_right (le_antisymm hlow hexact)
      have hless : (2 : ℤ) - (count + 1 : ℕ) - 1 = -count := by omega
      have hsame : (2 : ℤ) - (count + 1 : ℕ) = -count + 1 := by omega
      rw [if_pos ((le_raised_iff count).mpr hexact), hless, hsame, zpow_add₀ (by norm_num), zpow_neg,
        zpow_natCast, hmiddle]
      have hinverse : (0 : ℚ) < (10 ^ count)⁻¹ := by positivity
      exact ⟨le_rfl, by linarith⟩
    · have hless : (1 : ℤ) - (count + 1 : ℕ) - 1 = -(count + 1 : ℕ) := by omega
      have hsame : (1 : ℤ) - (count + 1 : ℕ) = -count := by omega
      rw [if_neg (mt (le_raised_iff count).mp hexact), hless, hsame, zpow_neg, zpow_neg, zpow_natCast,
        zpow_natCast, ← one_div, ← one_div, div_le_iff₀' (by positivity), lt_div_iff₀' hpos]
      exact ⟨hhigh.le, not_le.mp hexact⟩

/-- The number of steps of a grid that fit below the middle. -/
def stepsBelow (i : Interval) (exponent : ℤ) : ℕ :=
  binarySide exponent i.scale i.centre / decimalSide exponent i.scale 1

theorem stepsBelow_spec (i : Interval) (exponent : ℤ) :
    (i.stepsBelow exponent : ℚ) * 10 ^ exponent ≤ i.middle ∧
      i.middle < (i.stepsBelow exponent + 1 : ℕ) * 10 ^ exponent := by
  constructor
  · exact le_quotient_iff.mp (le_refl (i.stepsBelow exponent))
  · rw [← not_le]
    exact fun hle => Nat.not_succ_le_self _ (le_quotient_iff.mpr hle)

theorem roundDiv_eq (num den : ℕ) (tie : Tie) :
    roundDiv num den tie = num / den ∨ roundDiv num den tie = num / den + 1 := by
  unfold roundDiv
  dsimp only
  split
  · exact .inl rfl
  · split
    · exact .inr rfl
    · cases tie with
      | up => exact .inr rfl
      | even =>
          dsimp only
          omega

/-- What is found is one of the two neighbours of the middle, and lies in the interval. -/
theorem holds_of_nearest (h : i.nearest? tie count = some d) :
    i.holds d = true ∧ d.coefficient ≤ i.stepsBelow (i.magnitude - count) + 1 := by
  unfold nearest? at h
  dsimp only at h
  split at h
  next hbelow habove =>
    cases h
    refine ⟨?_, ?_⟩
    · rcases roundDiv_eq (binarySide (i.magnitude - count) i.scale i.centre)
        (decimalSide (i.magnitude - count) i.scale 1) tie with heq | heq
      · rw [heq]
        exact hbelow
      · rw [heq]
        exact habove
    · show roundDiv _ _ _ ≤ _
      have heq := roundDiv_eq (binarySide (i.magnitude - count) i.scale i.centre)
        (decimalSide (i.magnitude - count) i.scale 1) tie
      unfold stepsBelow
      omega
  next hbelow _ =>
    cases h
    exact ⟨hbelow, Nat.le_succ _⟩
  next _ habove =>
    cases h
    exact ⟨habove, le_rfl⟩
  next => cases h

/-- Enough digits make a grid so fine that its point below the middle lies in the interval. -/
theorem nearest_ne_none (hlow : i.low < i.centre) (hhigh : i.centre < i.high)
    (hfine : i.centre ≤ 10 ^ count) : i.nearest? tie (count + 1) ≠ none := by
  obtain ⟨exponent, hexponent⟩ : ∃ exponent, exponent = i.magnitude - (count + 1 : ℕ) := ⟨_, rfl⟩
  obtain ⟨hbelow, habove⟩ := i.stepsBelow_spec exponent
  have hstep : (10 : ℚ) ^ exponent ≤ 2 ^ i.scale := by
    have hmagnitude := (magnitude_spec (i := i) (by omega)).1
    have hsplit : i.magnitude - 1 = exponent + count := by omega
    have hfine : (i.centre : ℚ) ≤ 10 ^ count := by exact_mod_cast hfine
    rw [hsplit, zpow_add₀ (by norm_num), zpow_natCast] at hmagnitude
    have hgrid : (10 : ℚ) ^ exponent * 10 ^ count ≤ 2 ^ i.scale * 10 ^ count := by
      calc (10 : ℚ) ^ exponent * 10 ^ count ≤ i.centre * 2 ^ i.scale := hmagnitude
        _ ≤ 10 ^ count * 2 ^ i.scale := by gcongr
        _ = 2 ^ i.scale * 10 ^ count := mul_comm _ _
    exact le_of_mul_le_mul_right hgrid (by positivity)
  have hholds : i.holds ⟨i.stepsBelow exponent, exponent⟩ = true := by
    rw [holds_iff]
    have hgap : (i.low : ℚ) + 1 ≤ i.centre := by exact_mod_cast hlow
    have hroom : (i.centre : ℚ) < i.high := by exact_mod_cast hhigh
    have hscale : (0 : ℚ) < 2 ^ i.scale := by positivity
    have hvalue : value ⟨i.stepsBelow exponent, exponent⟩ = i.stepsBelow exponent * 10 ^ exponent := rfl
    rw [hvalue]
    unfold middle at hbelow habove
    push_cast at habove
    apply covers_of_lt
    · nlinarith only [hgap, hscale, habove, hstep]
    · nlinarith only [hroom, hscale, hbelow]
  unfold nearest?
  dsimp only
  rw [← hexponent]
  split
  · nofun
  · nofun
  · nofun
  next hnone _ =>
    unfold stepsBelow at hholds
    rw [hnone] at hholds
    cases hholds

/-- What is found has no more digits than are asked for, or is a power of ten. -/
theorem coefficient_le (hcentre : 0 < i.centre) (h : i.nearest? tie count = some d) :
    d.coefficient ≤ 10 ^ count := by
  refine (holds_of_nearest h).2.trans ?_
  have hbelow := (i.stepsBelow_spec (i.magnitude - count)).1
  have hmiddle := (magnitude_spec hcentre).2
  have hsplit : i.magnitude = i.magnitude - count + count := by omega
  rw [hsplit, zpow_add₀ (by norm_num), zpow_natCast, mul_comm] at hmiddle
  have hless : (i.stepsBelow (i.magnitude - count) : ℚ) < 10 ^ count :=
    lt_of_mul_lt_mul_right (hbelow.trans_lt hmiddle) (by positivity)
  have hless : i.stepsBelow (i.magnitude - count) < 10 ^ count := by exact_mod_cast hless
  omega

end Interval

/-! ## The search -/

section Search

variable {i : Interval} {d : Decimal} {tie : Tie}

/-- Trailing zeros take no part in the value. -/
theorem value_trim (rounds : ℕ) (d : Decimal) : (trim rounds d).value = d.value := by
  induction rounds generalizing d with
  | zero => rfl
  | succ rounds ih =>
      unfold trim
      split
      next htrailing =>
        have hwhole : d.coefficient / 10 * 10 = d.coefficient :=
          Nat.div_mul_cancel (Nat.dvd_of_mod_eq_zero htrailing.2)
        have hcast : ((d.coefficient / 10 : ℕ) : ℚ) * 10 = d.coefficient := by exact_mod_cast hwhole
        rw [ih]
        unfold value
        rw [zpow_add_one₀ (by norm_num), ← hcast]
        ring
      next => rfl

theorem trim_coefficient_le (rounds : ℕ) (d : Decimal) : (trim rounds d).coefficient ≤ d.coefficient := by
  induction rounds generalizing d with
  | zero => exact le_rfl
  | succ rounds ih =>
      unfold trim
      split
      · exact (ih _).trans (Nat.div_le_self _ _)
      · exact le_rfl

/-- The search ends with a decimal in the interval. -/
theorem exists_found (tie : Tie) (hlow : i.low < i.centre) (hhigh : i.centre < i.high) (hcentre : i.centre ≤ 10 ^ 16) :
    ∃ d, (List.range enoughDigits).findSome? (fun n => i.nearest? tie (n + 1)) = some d ∧
      i.Covers d.value ∧ d.coefficient ≤ 10 ^ enoughDigits := by
  cases hfound : (List.range enoughDigits).findSome? fun n => i.nearest? tie (n + 1) with
  | none =>
      have hnone := List.findSome?_eq_none_iff.mp hfound 16 (by decide)
      exact (Interval.nearest_ne_none hlow hhigh hcentre hnone).elim
  | some d =>
      obtain ⟨n, hn, hnearest⟩ := List.exists_of_findSome?_eq_some hfound
      have hcount : n + 1 ≤ enoughDigits := List.mem_range.mp hn
      refine ⟨d, rfl, Interval.holds_iff.mp (Interval.holds_of_nearest hnearest).1, ?_⟩
      exact (Interval.coefficient_le (by omega) hnearest).trans (Nat.pow_le_pow_right (by decide) hcount)

end Search

/-! ## Single floats -/

section Singles

variable {m : ℕ} {e : ℤ} {q : ℚ}

/-- Half of what the mantissa's last place is worth below the float, in units of that place. -/
def gapBelow (m : ℕ) (e : ℤ) : ℚ := if m = 2 ^ 23 ∧ e ≠ -149 then 1 / 4 else 1 / 2

theorem gapBelow_le (m : ℕ) (e : ℤ) : gapBelow m e ≤ 1 / 2 := by
  unfold gapBelow
  split <;> norm_num

/-- The rounding interval reaches half way to the neighbours; its ends belong to even mantissas. -/
theorem scaled_of_covers (hm : 0 < m) (hq : (Interval.ofFloat .binary32 m e).Covers q) :
    (m - gapBelow m e ≤ q / 2 ^ e ∧ q / 2 ^ e ≤ m + 1 / 2) ∧
      (m % 2 ≠ 0 → m - gapBelow m e < q / 2 ^ e ∧ q / 2 ^ e < m + 1 / 2) := by
  have hlow : ((Interval.ofFloat .binary32 m e).low : ℚ) = 4 * (m - gapBelow m e) := by
    show ((4 * m - (if m = 2 ^ 23 ∧ e ≠ -149 then 1 else 2) : ℕ) : ℚ) = _
    rw [Nat.cast_sub (by split <;> omega)]
    unfold gapBelow
    split <;> push_cast <;> ring
  have hhigh : ((Interval.ofFloat .binary32 m e).high : ℚ) = 4 * (m + 1 / 2) := by
    show ((4 * m + 2 : ℕ) : ℚ) = _
    push_cast
    ring
  have hscale : (2 : ℚ) ^ (e - 2) = 2 ^ e / 4 := by
    rw [zpow_sub₀ (by norm_num)]
    norm_num
  have hunit : (0 : ℚ) < 2 ^ e := by positivity
  obtain ⟨y, rfl⟩ : ∃ y, q = y * 2 ^ e := ⟨q / 2 ^ e, (div_mul_cancel₀ _ hunit.ne').symm⟩
  have hends (x : ℚ) : 4 * x * 2 ^ (e - 2) = x * 2 ^ e := by
    rw [hscale]
    ring
  unfold Interval.Covers at hq
  rw [hlow, hhigh] at hq
  have hscale' : (Interval.ofFloat .binary32 m e).scale = e - 2 := rfl
  have hclosed : (Interval.ofFloat .binary32 m e).closed = decide (m % 2 = 0) := rfl
  rw [hscale', hends, hends, hclosed] at hq
  rw [mul_div_cancel_right₀ _ hunit.ne']
  by_cases heven : m % 2 = 0
  · simp only [heven, decide_true, if_true, mul_le_mul_iff_left₀ hunit] at hq
    exact ⟨hq, fun hodd => (hodd heven).elim⟩
  · simp only [heven, decide_false, Bool.false_eq_true, if_false, mul_lt_mul_iff_left₀ hunit] at hq
    exact ⟨⟨hq.1.le, hq.2.le⟩, fun _ => hq⟩

/-- A float is nearest to every number in its rounding interval. -/
theorem rounds_of_covers (h : Stored m e) (hm : 0 < m) (hq : (Interval.ofFloat .binary32 m e).Covers q) :
    RoundsTo q (codeOf m e) := by
  obtain ⟨⟨hlow, hhigh⟩, hodd⟩ := scaled_of_covers hm hq
  have hgap := gapBelow_le m e
  have hcode := h.codeOf_lt.le
  have hbounded : (m : ℚ) + 1 ≤ 2 ^ 24 := by exact_mod_cast h.bounded
  by_cases hfull : e = -149 ∨ 2 ^ 23 ≤ q / 2 ^ e
  · refine ⟨e, m, h.least, hfull, by linarith, ⟨by linarith, hhigh, fun htie => ?_⟩, (min_eq_right hcode).symm⟩
    by_contra hne
    obtain ⟨hlow, hhigh⟩ := hodd hne
    rcases htie with htie | htie <;> linarith
  · -- just below a power of two the number has one more place
    obtain ⟨hleast, hless⟩ := not_or.mp hfull
    have hless : q / 2 ^ e < 2 ^ 23 := not_le.mp hless
    have hlarge := h.full.resolve_left hleast
    have hpower : (m : ℚ) < (2 ^ 23 : ℕ) + 1 := by
      push_cast
      linarith
    have hpower : m = 2 ^ 23 := by
      have hpower : m < 2 ^ 23 + 1 := by exact_mod_cast hpower
      omega
    have hquarter : gapBelow m e = 1 / 4 := if_pos ⟨hpower, hleast⟩
    have hdouble : q / 2 ^ (e - 1) = 2 * (q / 2 ^ e) := by
      rw [zpow_sub_one₀ (by norm_num)]
      field_simp
    rw [hquarter, hpower] at hlow
    push_cast at hlow
    have hleast' := h.least
    refine ⟨e - 1, 2 ^ 24, by omega, .inr ?_, ?_, ⟨?_, ?_, fun _ => rfl⟩, ?_⟩
    · rw [hdouble]
      linarith
    · rw [hdouble]
      linarith
    · rw [hdouble]
      push_cast
      linarith
    · rw [hdouble]
      push_cast
      linarith
    · have hsame : codeOf (2 ^ 24) (e - 1) = codeOf m e := by
        rw [hpower]
        unfold codeOf
        omega
      rw [hsame, min_eq_right hcode]

/-- The shortest decimal of a float is positive, has few digits, and is rounded to the float. -/
theorem shortest_spec (h : Stored m e) (hm : 0 < m) (tie : Tie) :
    0 < (shortest .binary32 tie m e).coefficient ∧ (shortest .binary32 tie m e).coefficient ≤ 10 ^ enoughDigits ∧
      RoundsTo (shortest .binary32 tie m e).value (codeOf m e) := by
  have hbounded := h.bounded
  obtain ⟨i, hi⟩ : ∃ i, i = Interval.ofFloat .binary32 m e := ⟨_, rfl⟩
  have hlow : i.low < i.centre := by
    rw [hi]
    show 4 * m - _ < 4 * m
    split <;> omega
  have hhigh : i.centre < i.high := by
    rw [hi]
    exact Nat.lt_add_of_pos_right (by decide)
  have hcentre : i.centre ≤ 10 ^ 16 := by
    rw [hi]
    show 4 * m ≤ _
    omega
  have hlowest : 0 < i.low := by
    rw [hi]
    show 0 < 4 * m - _
    split <;> omega
  obtain ⟨d, hfound, hcovers, hfew⟩ := exists_found tie hlow hhigh hcentre
  have hshortest : shortest .binary32 tie m e = trim enoughDigits d := by
    unfold shortest
    dsimp only
    rw [← hi, hfound]
    rfl
  have hvalue : (trim enoughDigits d).value = d.value := value_trim _ _
  rw [hshortest]
  refine ⟨?_, (trim_coefficient_le _ _).trans hfew, ?_⟩
  · rw [Nat.pos_iff_ne_zero]
    intro hzero
    have hlowest : (0 : ℚ) < i.low := by exact_mod_cast hlowest
    have hscale : (0 : ℚ) < i.low * 2 ^ i.scale := by positivity
    have hpositive := hscale.trans_le hcovers.bounds.1
    rw [← hvalue, value, hzero] at hpositive
    simp at hpositive
  · rw [hvalue]
    exact rounds_of_covers h hm (hi ▸ hcovers)

end Singles

end Decimal

end BehaviourGraph
