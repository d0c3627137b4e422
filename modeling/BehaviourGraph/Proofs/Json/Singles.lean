import BehaviourGraph.Proofs.Json.Reading
import BehaviourGraph.Proofs.Shortest
import BehaviourGraph.Proofs.Single.Scientific

/-!
# Single floats in texts

A finite float is written as its shortest decimal in one of three layouts, each of which is the text of a
number with the decimal's value.  That number has few digits, so it is compared by all of them, and the
float nearest to it is the one that was written.
-/

namespace BehaviourGraph.Json

open Float.Model

/-! ## The value of a number -/

section Value

def Number.value (n : Number) : ℚ := digitsValue (n.whole ++ n.fraction) * 10 ^ (n.power - n.fraction.length)

theorem digitsValue_dropWhile (ds : List Nat) : digitsValue (ds.dropWhile (· = 0)) = digitsValue ds := by
  have hzeros : digitsValue (ds.takeWhile (· = 0)) = 0 :=
    digitsValue_zeros fun d hd => by simpa using List.mem_takeWhile_imp hd
  conv_rhs => rw [← List.takeWhile_append_dropWhile (p := (· = 0)) (l := ds), digitsValue_append, hzeros]
  simp

variable {n : Number}

theorem exists_trailing (n : Number) :
    ∃ zeros, n.fraction = n.fractionDigits ++ zeros ∧ ∀ d ∈ zeros, d = 0 := by
  refine ⟨(n.fraction.reverse.takeWhile (· = 0)).reverse, ?_, ?_⟩
  · unfold Number.fractionDigits
    rw [← List.reverse_append, List.takeWhile_append_dropWhile, List.reverse_reverse]
  · intro d hd
    simpa using List.mem_takeWhile_imp (List.mem_reverse.mp hd)

/-- With few digits, a number is compared by its exact value. -/
theorem cut_value (hfew : n.whole.length + n.fraction.length ≤ decisiveDigits) :
    (n.cut.1 : ℚ) * 10 ^ n.cut.2 = n.value := by
  obtain ⟨zeros, hfraction, hzeros⟩ := exists_trailing n
  have hlength : n.significantDigits.length ≤ decisiveDigits := by
    have hdropped := (List.dropWhile_sublist (p := (· = 0)) (l := n.whole ++ n.fractionDigits)).length_le
    rw [hfraction] at hfew
    simp only [List.length_append] at hfew hdropped
    unfold Number.significantDigits
    omega
  have hcut : n.cut = (digitsValue n.significantDigits, n.power - n.fractionDigits.length) := by
    unfold Number.cut
    dsimp only
    rw [if_pos (by omega)]
  have hdigits : digitsValue (n.whole ++ n.fraction) =
      digitsValue n.significantDigits * 10 ^ zeros.length := by
    rw [hfraction, ← List.append_assoc, digitsValue_append, digitsValue_zeros hzeros, Nat.add_zero,
      Number.significantDigits, digitsValue_dropWhile]
  have hplaces : n.power - n.fractionDigits.length = n.power - n.fraction.length + zeros.length := by
    rw [hfraction, List.length_append]
    push_cast
    omega
  rw [hcut, Number.value, hdigits, hplaces, zpow_add₀ (by norm_num), zpow_natCast]
  push_cast
  ring

end Value

/-! ## Layouts -/

section Layouts

/-- A numeral that stands for a decimal, cannot be taken for a whole number, and has few digits. -/
structure Spells (t : Numeral) (d : Decimal) : Prop where
  proper : t.Proper
  value : ∀ negative, (t.number negative).value = d.value
  marked : t.fraction = [] → t.exponent ≠ none
  short : t.whole.length + t.fraction.length ≤ d.digits.length + 14

variable {d : Decimal} {t : Numeral}

theorem numeral_value {negative : Bool} {coefficient : ℕ} {exponent : ℤ}
    (hdigits : Nat.ofDigitChars 10 (t.whole ++ t.fraction) 0 = coefficient)
    (hexponent : (t.number negative).power - t.fraction.length = exponent) :
    (t.number negative).value = coefficient * 10 ^ exponent := by
  have hvalue : digitsValue ((t.number negative).whole ++ (t.number negative).fraction) = coefficient := by
    rw [← hdigits, ← digitsValue_map, List.map_append]
    rfl
  have hlength : (t.number negative).fraction.length = t.fraction.length := List.length_map _
  rw [Number.value, hvalue, hlength, hexponent]

theorem fractionText_of_ne {digits : List Char} (hne : digits ≠ []) :
    Numeral.fractionText digits = '.' :: digits := by
  cases digits with
  | nil => exact (hne rfl).elim
  | cons c cs => rfl

theorem digits_ne (d : Decimal) : d.digits ≠ [] := Nat.toDigits_ne_nil

theorem length_digits_pos (d : Decimal) : 0 < d.digits.length := List.length_pos_iff.mpr (digits_ne d)

theorem isDigit_of_mem_digits : ∀ c ∈ d.digits, c.isDigit = true := isDigit_of_mem_toDigits

theorem ofDigitChars_digits (d : Decimal) : Nat.ofDigitChars 10 d.digits 0 = d.coefficient :=
  Nat.ofDigitChars_ten_toDigits

theorem isDigit_of_mem_replicate {n : Nat} : ∀ c ∈ List.replicate n '0', c.isDigit = true := by
  intro c hc
  rw [List.eq_of_mem_replicate hc]
  rfl

theorem isDigit_of_mem_append {as bs : List Char} (has : ∀ c ∈ as, c.isDigit = true)
    (hbs : ∀ c ∈ bs, c.isDigit = true) : ∀ c ∈ as ++ bs, c.isDigit = true := by
  intro c hc
  rcases List.mem_append.mp hc with hc | hc
  · exact has c hc
  · exact hbs c hc

/-- A point in front of all digits. -/
theorem spells_front (hpoint : d.point ≤ 0) (hnear : -5 ≤ d.point) :
    Spells ⟨['0'], List.replicate (-d.point).toNat '0' ++ d.digits, none⟩ d where
  proper :=
    { whole_ne := List.cons_ne_nil _ _
      whole := isDigit_of_mem_replicate (n := 1)
      leading := fun _ => rfl
      fraction := isDigit_of_mem_append isDigit_of_mem_replicate isDigit_of_mem_digits
      exponent := nofun }
  value negative := by
    apply numeral_value
    · rw [Nat.ofDigitChars_append, Nat.ofDigitChars_append, Nat.ofDigitChars_replicate_zero]
      exact ofDigitChars_digits d
    · have hpower : d.point = d.digits.length + d.exponent := rfl
      simp only [Numeral.number, Number.power, Option.map_none, List.length_append, List.length_replicate]
      omega
  marked hnone := (List.append_ne_nil_of_right_ne_nil _ (digits_ne d) hnone).elim
  short := by
    simp only [List.length_append, List.length_replicate, List.length_singleton]
    omega

/-- A point between the digits. -/
theorem spells_between (hpos : 0 < d.coefficient) (hpoint : 0 < d.point) (hinside : d.point < d.digits.length) :
    Spells ⟨d.digits.take d.point.toNat, d.digits.drop d.point.toNat, none⟩ d where
  proper :=
    { whole_ne := by
        simp [digits_ne]
        omega
      whole := fun c hc => isDigit_of_mem_digits c (List.mem_of_mem_take hc)
      leading := by
        intro hzero
        rw [List.head?_take, if_neg (by omega)] at hzero
        exact (head_toDigits_ne hpos hzero).elim
      fraction := fun c hc => isDigit_of_mem_digits c (List.mem_of_mem_drop hc)
      exponent := nofun }
  value negative := by
    apply numeral_value
    · rw [List.take_append_drop]
      exact ofDigitChars_digits d
    · have hpower : d.point = d.digits.length + d.exponent := rfl
      simp only [Numeral.number, Number.power, Option.map_none, List.length_drop]
      omega
  marked hnone := by
    rw [List.drop_eq_nil_iff] at hnone
    omega
  short := by
    rw [List.length_take, List.length_drop]
    omega

/-- A point behind all digits, and the zeros up to it. -/
theorem spells_behind (hpos : 0 < d.coefficient) (hpoint : d.digits.length ≤ d.point) (hnear : d.point ≤ 13) :
    Spells ⟨d.digits ++ List.replicate (d.point.toNat - d.digits.length) '0', ['0'], none⟩ d where
  proper :=
    { whole_ne := List.append_ne_nil_of_left_ne_nil (digits_ne d) _
      whole := isDigit_of_mem_append isDigit_of_mem_digits isDigit_of_mem_replicate
      leading := by
        intro hzero
        rw [List.head?_append_of_ne_nil _ (digits_ne d)] at hzero
        exact (head_toDigits_ne hpos hzero).elim
      fraction := isDigit_of_mem_replicate (n := 1)
      exponent := nofun }
  value negative := by
    obtain ⟨zeros, hzeros⟩ : ∃ zeros : ℕ, d.exponent = zeros := by
      unfold Decimal.point at hpoint
      exact Int.eq_ofNat_of_zero_le (by omega)
    have hcount : d.point.toNat - d.digits.length = zeros := by
      unfold Decimal.point
      omega
    have hvalue : d.value = (d.coefficient * 10 ^ (zeros + 1) : ℕ) * 10 ^ (-1 : ℤ) := by
      rw [Decimal.value, hzeros]
      push_cast
      rw [zpow_natCast, pow_succ]
      ring
    rw [hvalue]
    apply numeral_value
    · have hlast : ['0'] = List.replicate 1 '0' := rfl
      rw [hcount, hlast, List.append_assoc, ← List.replicate_add, Nat.ofDigitChars_append, ofDigitChars_digits,
        Nat.ofDigitChars_replicate_zero, Nat.mul_comm]
    · simp [Numeral.number, Number.power]
  marked := nofun
  short := by
    simp only [List.length_append, List.length_replicate, List.length_singleton]
    omega

/-- A point behind the first digit, and an exponent. -/
theorem spells_scientific (d : Decimal) :
    Spells ⟨d.digits.take 1, d.digits.drop 1, some (d.point < 1, Nat.toDigits 10 (d.point - 1).natAbs)⟩ d where
  proper :=
    { whole_ne := by simp [digits_ne]
      whole := fun c hc => isDigit_of_mem_digits c (List.mem_of_mem_take hc)
      leading := by
        intro _
        have hlength := length_digits_pos d
        rw [List.length_take]
        omega
      fraction := fun c hc => isDigit_of_mem_digits c (List.mem_of_mem_drop hc)
      exponent := by
        intro negative digits hdigits
        cases hdigits
        exact ⟨Nat.toDigits_ne_nil, isDigit_of_mem_toDigits⟩ }
  value negative := by
    apply numeral_value
    · rw [List.take_append_drop]
      exact ofDigitChars_digits d
    · have hlength := length_digits_pos d
      have hpower : (Numeral.number ⟨d.digits.take 1, d.digits.drop 1,
          some (d.point < 1, Nat.toDigits 10 (d.point - 1).natAbs)⟩ negative).power = d.point - 1 := by
        simp only [Numeral.number, Number.power, Option.map_some]
        by_cases hsign : d.point < 1
        · simp only [hsign, decide_true, digitsValue_toDigits]
          omega
        · simp only [hsign, decide_false, digitsValue_toDigits]
          omega
      rw [hpower, List.length_drop]
      unfold Decimal.point
      omega
  marked _ := Option.some_ne_none _
  short := by
    rw [List.length_take, List.length_drop]
    omega

theorem toList_toString_int (n : ℤ) :
    (toString n).toList = if 0 ≤ n then Nat.toDigits 10 n.natAbs else '-' :: Nat.toDigits 10 n.natAbs := by
  have hrepr : toString n = n.repr := rfl
  rw [hrepr, Int.repr_eq_if]
  by_cases hsign : 0 ≤ n
  · have hsame : n.toNat = n.natAbs := by omega
    rw [if_pos hsign, if_pos hsign, hsame, ← Nat.toString_eq_repr, Nat.toString_eq_ofList_toDigits,
      String.toList_ofList]
  · have hsame : (-n).toNat = n.natAbs := by omega
    rw [if_neg hsign, if_neg hsign, hsame, ← Nat.toString_eq_repr, Nat.toString_eq_ofList_toDigits]
    simp

/-- The layout with an exponent, outside of the positional range. -/
theorem layScientific_eq (hfar : ¬(-5 ≤ d.point ∧ d.point ≤ 13)) :
    (FloatStyle.stored.layScientific d.digits d.point).toList =
      Numeral.text ⟨d.digits.take 1, d.digits.drop 1, some (d.point < 1, Nat.toDigits 10 (d.point - 1).natAbs)⟩ := by
  have hfraction : (if d.digits.length ≤ 1 then "" else "." ++ .ofList (d.digits.drop 1)).toList =
      Numeral.fractionText (d.digits.drop 1) := by
    split
    next hone =>
      rw [List.drop_eq_nil_of_le hone]
      rfl
    next hmore =>
      have hrest : d.digits.drop 1 ≠ [] := by
        rw [Ne, List.drop_eq_nil_iff]
        exact hmore
      rw [fractionText_of_ne hrest]
      simp
  unfold FloatStyle.layScientific Numeral.text
  rw [String.toList_append, String.toList_append, String.toList_append, hfraction, toList_toString_int,
    String.toList_ofList, List.append_assoc, List.append_assoc]
  congr 2
  by_cases hsmall : d.point < 1
  · have hplus : (FloatStyle.stored.plusSign && decide (1 < d.point)) = false := by
      simp
      omega
    rw [hplus, if_neg (by omega : ¬0 ≤ d.point - 1)]
    simp [Numeral.exponentText, hsmall]
  · have hplus : (FloatStyle.stored.plusSign && decide (1 < d.point)) = true := by
      simp [FloatStyle.stored]
      omega
    rw [hplus, if_pos (by omega : 0 ≤ d.point - 1)]
    simp [Numeral.exponentText, hsmall]

/-- Every layout is the text of a numeral that stands for the decimal. -/
theorem exists_spelled (hpos : 0 < d.coefficient) :
    ∃ t, Spells t d ∧ (FloatStyle.stored.layOut d).toList = t.text := by
  unfold FloatStyle.layOut
  by_cases hnear : FloatStyle.stored.isPositional d.point = true
  · have hrange : -5 ≤ d.point ∧ d.point ≤ 13 := by
      simpa [FloatStyle.isPositional, FloatStyle.stored] using hnear
    rw [if_pos hnear]
    unfold FloatStyle.layPositional
    by_cases hfront : d.point ≤ 0
    · refine ⟨_, spells_front hfront hrange.1, ?_⟩
      rw [if_pos hfront, String.toList_append, String.toList_append, String.toList_ofList, String.toList_ofList,
        Numeral.text, fractionText_of_ne (List.append_ne_nil_of_right_ne_nil _ (digits_ne d))]
      simp [Numeral.exponentText]
    · rw [if_neg hfront]
      dsimp only
      by_cases hinside : d.point < d.digits.length
      · have hrest : d.digits.drop d.point.toNat ≠ [] := by
          rw [Ne, List.drop_eq_nil_iff]
          omega
        refine ⟨_, spells_between hpos (by omega) hinside, ?_⟩
        have hzeros : d.point.toNat - d.digits.length = 0 := by omega
        rw [hzeros, if_neg (by simpa using hrest), String.toList_append, String.toList_append,
          String.toList_ofList, String.toList_ofList, Numeral.text, fractionText_of_ne hrest]
        simp [Numeral.exponentText]
      · have hrest : d.digits.drop d.point.toNat = [] := List.drop_eq_nil_of_le (by omega)
        have hwhole : d.digits.take d.point.toNat = d.digits := List.take_of_length_le (by omega)
        refine ⟨_, spells_behind hpos (by omega) hrange.2, ?_⟩
        rw [hrest, hwhole, String.toList_append, String.toList_ofList]
        rfl
  · have hfar : ¬(-5 ≤ d.point ∧ d.point ≤ 13) := by
      simpa [FloatStyle.isPositional, FloatStyle.stored] using hnear
    rw [if_neg hnear]
    exact ⟨_, spells_scientific d, layScientific_eq hfar⟩

end Layouts

/-! ## Writing, then reading -/

section Written

variable {n : Number} {x : Float32} {m : ℕ} {e : ℤ} {hm : 0 < m}

theorem parts_ofModel (u : UnpackedFloat) : parts (.ofModel (.pack u)) = stored u := rfl

theorem belowSigned?_of_marked (hmarked : n.fraction = [] → n.exponent ≠ none) : n.belowSigned? = none := by
  have hnone : n.magnitude? = none := by
    unfold Number.magnitude?
    split
    next hfraction hexponent _ => exact (hmarked hfraction hexponent).elim
    next => rfl
  unfold Number.belowSigned?
  rw [hnone]
  split <;> rfl

/-- A number whose value is rounded to a float is compared to that float. -/
theorem nearestSingle?_eq (hx : parts x = .finite .positive m e hm) (hrounds : RoundsTo n.value (codeOf m e))
    (hpos : 0 < n.value) (hfew : n.whole.length + n.fraction.length ≤ decisiveDigits) :
    n.nearestSingle? = some (if n.negative then -x else x) := by
  have hvalue := cut_value hfew
  obtain ⟨coefficient, scaling, hcut⟩ : ∃ coefficient scaling, n.cut = (coefficient, scaling) :=
    ⟨n.cut.1, n.cut.2, rfl⟩
  rw [hcut] at hvalue
  have hcoefficient : 0 < coefficient := by
    rw [Nat.pos_iff_ne_zero]
    rintro rfl
    simp [← hvalue] at hpos
  obtain ⟨y, hy⟩ : ∃ y, y = Float32.ofModel (.pack (.ofScientific .binary32 coefficient scaling)) := ⟨_, rfl⟩
  -- both floats are nearest to the number's value, and only one float is
  have hread : Rounded n.value (parts y) := by
    rw [hy, parts_ofModel, ← hvalue]
    exact ofScientific_rounded hcoefficient scaling
  have hwritten : Rounded n.value (parts x) := by
    rw [hx]
    exact ⟨⟨.finite hm (stored_of_unpack hx), nofun⟩, hrounds⟩
  have hsame : y = x := eq_of_parts (hread.eq hwritten)
  have hfinite : x.isFinite = true := by
    show (parts x).isFinite = true
    rw [hx]
    rfl
  unfold Number.nearestSingle?
  rw [hcut]
  dsimp only
  rw [← hy, hsame, if_pos hfinite]

theorem length_digits_shortest (h : Stored m e) (hm : 0 < m) (tie : Tie) :
    (Decimal.shortest .binary32 tie m e).digits.length ≤ 18 := by
  have hfew := (Decimal.shortest_spec h hm tie).2.1
  unfold Decimal.enoughDigits at hfew
  refine (Nat.length_toDigits_le_iff (by decide) (by decide)).mpr ?_
  omega

theorem proper_zero : Numeral.Proper ⟨['0'], ['0'], none⟩ where
  whole_ne := List.cons_ne_nil _ _
  whole := isDigit_of_mem_replicate (n := 1)
  leading := fun _ => rfl
  fraction := isDigit_of_mem_replicate (n := 1)
  exponent := nofun

/-- Zero is written with a fraction, which keeps its sign. -/
theorem single?_zero (negative : Bool) :
    (Numeral.number ⟨['0'], ['0'], none⟩ negative).single? =
      some (if negative then -.ofModel (.pack (.zero .positive)) else .ofModel (.pack (.zero .positive))) := by
  cases negative <;> rfl

/-- A numeral that stands for the shortest decimal of a float is read as the float, whatever its sign. -/
theorem single?_of_spells (hx : parts x = .finite .positive m e hm) {t : Numeral}
    (ht : Spells t (Decimal.shortest .binary32 FloatStyle.stored.tie m e)) (negative : Bool) :
    (t.number negative).single? = some (if negative then -x else x) := by
  have hstored : Stored m e := stored_of_unpack hx
  obtain ⟨hpos, _, hrounds⟩ := Decimal.shortest_spec hstored hm FloatStyle.stored.tie
  have hdigits := length_digits_shortest hstored hm FloatStyle.stored.tie
  obtain ⟨d, hd⟩ : ∃ d, d = Decimal.shortest .binary32 FloatStyle.stored.tie m e := ⟨_, rfl⟩
  rw [← hd] at ht hpos hrounds hdigits
  have hvalue := ht.value negative
  have hpositive : 0 < d.value := by
    have hpos : (0 : ℚ) < d.coefficient := by exact_mod_cast hpos
    unfold Decimal.value
    positivity
  have hfew : (t.number negative).whole.length + (t.number negative).fraction.length ≤ decisiveDigits := by
    have hshort := ht.short
    simp only [Numeral.number, List.length_map, decisiveDigits]
    omega
  have hmarked : (t.number negative).fraction = [] → (t.number negative).exponent ≠ none := by
    simpa [Numeral.number] using ht.marked
  unfold Number.single?
  rw [belowSigned?_of_marked hmarked]
  exact nearestSingle?_eq hx (hvalue ▸ hrounds) (hvalue ▸ hpositive) hfew

/-- The text of a float whose sign is not set is read as the float, and with a minus sign in front as its
negation. -/
theorem exists_numeral {p : ℚ} (hx : Measures x p) :
    ∃ t : Numeral, t.Proper ∧ (FloatStyle.stored.single x).toList = t.text ∧
      ∀ negative, (t.number negative).single? = some (if negative then -x else x) := by
  obtain ⟨u, hu⟩ : ∃ u, parts x = u := ⟨_, rfl⟩
  have hwrite : FloatStyle.stored.single x = FloatStyle.stored.write .binary32 u :=
    congrArg (FloatStyle.stored.write .binary32) hu
  rw [Measures, hu] at hx
  rw [hwrite]
  cases hx with
  | zero =>
      obtain rfl : Float32.ofModel (.pack (.zero .positive)) = x := eq_of_parts hu.symm
      exact ⟨_, proper_zero, rfl, single?_zero⟩
  | @finite m e hm h =>
      obtain ⟨t, ht, htext⟩ := exists_spelled (Decimal.shortest_spec h hm FloatStyle.stored.tie).1
      refine ⟨t, ht.proper, ?_, single?_of_spells hu ht⟩
      rw [← htext]
      simp [FloatStyle.write, signText]

/-- A negative float is written with a minus sign in front. -/
theorem single_neg {p : ℚ} (hx : Measures x p) :
    FloatStyle.stored.single (-x) = "-" ++ FloatStyle.stored.single x := by
  have hwrite : FloatStyle.stored.single (-x) = FloatStyle.stored.write .binary32 (parts x).neg :=
    congrArg (FloatStyle.stored.write .binary32) (parts_neg x)
  obtain ⟨u, hu⟩ : ∃ u, parts x = u := ⟨_, rfl⟩
  have hplain : FloatStyle.stored.single x = FloatStyle.stored.write .binary32 u :=
    congrArg (FloatStyle.stored.write .binary32) hu
  rw [Measures, hu] at hx
  rw [hwrite, hplain, hu]
  cases hx with
  | zero => rfl
  | finite hm h => simp [UnpackedFloat.neg, FloatStyle.write, signText]

/-- A finite float is written as a number that is read as the same float. -/
theorem exists_written (hx : x.isFinite = true) :
    ∃ n, Reads (writeSingle x).toList (.number n) ∧ n.single? = some x := by
  unfold writeSingle
  rw [if_pos hx]
  obtain ⟨p, hp | hp⟩ := measures_or_neg hx
  · obtain ⟨t, ht, htext, hread⟩ := exists_numeral hp
    refine ⟨t.number false, ?_, hread false⟩
    rw [htext]
    exact Numeral.reads_signed ht false
  · obtain ⟨t, ht, htext, hread⟩ := exists_numeral hp
    have hsigned : (FloatStyle.stored.single x).toList = t.signed true := by
      rw [← neg_neg_single x, single_neg hp, String.toList_append, htext]
      rfl
    refine ⟨t.number true, ?_, ?_⟩
    · rw [hsigned]
      exact Numeral.reads_signed ht true
    · rw [hread true, if_pos rfl, neg_neg_single]

end Written

/-! ## Finite floats -/

section Finite

open UnpackedFloat (ExtendedMantissa roundWithAccuracy shiftToTargetExponent shiftToExponent decreaseExponent)

variable {n : Number} {x : Float32} {u : UnpackedFloat} {value : ℕ}

theorem mantissa_shiftRight_le (em : ExtendedMantissa) (count : ℕ) : (em >>> count).mantissa ≤ em.mantissa := by
  show (count.repeat ExtendedMantissa.shiftRightOne em).mantissa ≤ _
  induction count with
  | zero => exact le_rfl
  | succ count ih => exact (Nat.div_le_self _ 2).trans ih

theorem roundedMantissa_le (em : ExtendedMantissa) : em.roundedMantissa ≤ em.mantissa + 1 := by
  unfold ExtendedMantissa.roundedMantissa UnpackedFloat.Accuracy.roundToNearestEven
  split <;> omega

/-- A count of 64 bits that is rounded to double precision stays far below the range of single precision. -/
theorem round_count (hgreat : 2 ^ 63 ≤ value) (hsmall : value < 2 ^ 64) :
    UnpackedFloat.round .binary64 .positive value 0 = .zero .positive ∨
      ∃ m e hm, UnpackedFloat.round .binary64 .positive value 0 = .finite .positive m e hm ∧
        m ≤ 2 ^ 64 ∧ e ≤ 23 := by
  have hlog : value.log2 = 63 := (Nat.log2_eq_iff (by omega)).mpr ⟨hgreat, hsmall⟩
  have htarget (k : ℕ) (t : ℤ) : Format.binary64.targetExponent (totalExponent k t) =
      max ((k.log2 + 1 : ℤ) + t - 53) (-1074) := rfl
  have hshift (k : ℕ) (t : ℤ) : shiftToTargetExponent .binary64 k t .exact =
      (ExtendedMantissa.ofMantissaAndAccuracy k .exact >>> (max ((k.log2 + 1 : ℤ) + t - 53) (-1074) - t).toNat,
        t + (max ((k.log2 + 1 : ℤ) + t - 53) (-1074) - t).toNat) := rfl
  have hstart : UnpackedFloat.round .binary64 .positive value 0 =
      roundWithAccuracy .binary64 .positive value 0 .exact := by
    unfold UnpackedFloat.round
    rw [htarget, hlog]
    rfl
  -- eleven of the 64 bits do not fit; rounding them may carry, which the second shift takes up
  obtain ⟨k, hk⟩ : ∃ k, k = (ExtendedMantissa.ofMantissaAndAccuracy value .exact >>> 11).roundedMantissa :=
    ⟨_, rfl⟩
  have hfirst : shiftToTargetExponent .binary64 value 0 .exact =
      (ExtendedMantissa.ofMantissaAndAccuracy value .exact >>> 11, 11) := by
    rw [hshift, hlog]
    rfl
  have hbounded : k ≤ 2 ^ 64 := by
    have hrounded := roundedMantissa_le (ExtendedMantissa.ofMantissaAndAccuracy value .exact >>> 11)
    have hshifted := mantissa_shiftRight_le (ExtendedMantissa.ofMantissaAndAccuracy value .exact) 11
    have hkeeps : (ExtendedMantissa.ofMantissaAndAccuracy value .exact).mantissa = value := rfl
    omega
  have hbits : k.log2 ≤ 64 := by
    rcases Nat.eq_zero_or_pos k with rfl | hpos
    · decide
    · have hlow := Nat.log2_self_le hpos.ne'
      exact (Nat.pow_le_pow_iff_right (by decide : 1 < 2)).mp (hlow.trans hbounded)
  rw [hstart]
  unfold roundWithAccuracy
  rw [hfirst]
  dsimp only
  rw [← hk, hshift]
  dsimp only
  split
  next => exact .inl rfl
  next hm =>
    refine .inr ⟨_, _, Nat.pos_of_ne_zero hm, rfl, ?_, by omega⟩
    exact (mantissa_shiftRight_le _ _).trans hbounded

theorem isFinite_toSingle_count (hgreat : 2 ^ 63 ≤ value) (hsmall : value < 2 ^ 64) :
    (toSingle (.round .binary64 .negative value 0)).isFinite = true := by
  rw [round_negative]
  rcases round_count hgreat hsmall with hzero | ⟨m, e, hm, hfinite, hmantissa, hexponent⟩
  · rw [hzero]
    rfl
  · have hvalue : (m : ℚ) * 2 ^ e ≤ (2 ^ 23 : ℕ) * 2 ^ (104 : ℤ) := by
      have hmantissa : (m : ℚ) ≤ 2 ^ 64 := by exact_mod_cast hmantissa
      calc (m : ℚ) * 2 ^ e ≤ 2 ^ 64 * 2 ^ (23 : ℤ) := by gcongr; norm_num
        _ ≤ (2 ^ 23 : ℕ) * 2 ^ (104 : ℤ) := by norm_num
    have hgreatest : Stored (2 ^ 23) 104 := ⟨by decide, by decide, le_rfl, .inr le_rfl⟩
    have hrounded := round_rounded hm e
    have hcode := (hrounded.rounds.mono hgreatest.rounds hvalue).trans_lt hgreatest.codeOf_lt
    have hparts : parts (toSingle (UnpackedFloat.finite .positive m e hm).neg) =
        stored (UnpackedFloat.round .binary32 .negative m e) := rfl
    show (parts (toSingle _)).isFinite = true
    rw [hfinite, hparts, round_negative, stored_neg, isFinite_unpacked_neg]
    exact hrounded.magnitude.nonnegative.isFinite_iff.mpr hcode

theorem accumulate_le (digits : List ℕ) {significand : ℕ} (h : significand ≤ greatestCount) :
    (accumulate significand digits).1 ≤ greatestCount := by
  induction digits generalizing significand with
  | nil => exact h
  | cons digit digits ih =>
      unfold accumulate
      dsimp only
      split
      next hfits => exact ih hfits
      next => exact h

theorem magnitude?_le (h : n.magnitude? = some value) : value ≤ greatestCount := by
  have haccumulated := accumulate_le n.whole (Nat.zero_le greatestCount)
  unfold Number.magnitude? at h
  split at h
  next hwhole =>
    cases h
    rwa [hwhole] at haccumulated
  next => cases h

/-- A single float that is read is finite. -/
theorem isFinite_of_single? (h : n.single? = some x) : x.isFinite = true := by
  unfold Number.single? at h
  split at h
  next value hbelow =>
    cases h
    unfold Number.belowSigned? at hbelow
    split at hbelow
    next =>
      obtain ⟨hmagnitude, hgreat⟩ := Option.filter_eq_some_iff.mp hbelow
      have hsmall := magnitude?_le hmagnitude
      have hgreat : 2 ^ 63 < value := of_decide_eq_true hgreat
      unfold greatestCount at hsmall
      simp only [Nat.pow_eq] at hsmall
      exact isFinite_toSingle_count hgreat.le (by omega)
    next => cases hbelow
  next =>
    unfold Number.nearestSingle? at h
    dsimp only at h
    split at h
    next hfinite =>
      cases h
      split
      · rwa [isFinite_single_neg]
      · exact hfinite
    next => cases h

end Finite

end BehaviourGraph.Json
