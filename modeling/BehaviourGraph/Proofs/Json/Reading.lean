import BehaviourGraph.Json.Codec
import Mathlib.Data.List.Intervals
import Mathlib.Tactic

/-!
# Reading what is written

The reader takes a written value off the front of a text, whatever separator or closing bracket follows.
Arrays and objects are read if their parts are; the fuel is twice the length of the text, and each part
leaves enough of it for the next.
-/

namespace BehaviourGraph.Json

/-- What may follow a value: nothing, a separator or a closing bracket. -/
def Follows (rest : List Char) : Prop := ∀ c ∈ rest.head?, c = ',' ∨ c = ']' ∨ c = '\x7d'

/-- The reader takes a value off the front of a text and leaves the rest. -/
def Reads (text : List Char) (value : Value) : Prop :=
  ∀ fuel rest, 2 * text.length < fuel → Follows rest → readValue fuel (text ++ rest) = some (value, rest)

theorem follows_nil : Follows [] := nofun

theorem follows_cons {c : Char} (hc : c = ',' ∨ c = ']' ∨ c = '\x7d') (rest : List Char) :
    Follows (c :: rest) := by
  intro d hd
  cases hd
  exact hc

theorem skipSpace_cons {c : Char} (hc : isSpace c = false) (cs : List Char) : skipSpace (c :: cs) = c :: cs := by
  simp [skipSpace, hc]

/-- A text that is read as a value stands for it. -/
theorem Reads.ofText {text : String} {value : Value} (h : Reads text.toList value) :
    Value.ofText? text = some value := by
  have hread := h (2 * text.toList.length + 2) [] (by omega) follows_nil
  rw [List.append_nil] at hread
  unfold Value.ofText?
  simp [hread, skipSpace]

/-! ## Digits -/

section Digits

def EndsDigits (rest : List Char) : Prop := ∀ c ∈ rest.head?, c.isDigit = false

variable {cs rest : List Char}

theorem readDigits_append (hcs : ∀ c ∈ cs, c.isDigit = true) (hrest : EndsDigits rest) :
    readDigits (cs ++ rest) = (cs.map digitValue, rest) := by
  have htake : rest.takeWhile Char.isDigit = [] := by
    cases rest with
    | nil => rfl
    | cons c rest => simp [hrest c rfl]
  have hdrop : rest.dropWhile Char.isDigit = rest := by
    cases rest with
    | nil => rfl
    | cons c rest => simp [hrest c rfl]
  unfold readDigits
  rw [List.takeWhile_append_of_pos hcs, List.dropWhile_append_of_pos hcs, htake, hdrop, List.append_nil]

theorem readSomeDigits_append (hne : cs ≠ []) (hcs : ∀ c ∈ cs, c.isDigit = true) (hrest : EndsDigits rest) :
    readSomeDigits (cs ++ rest) = some (cs.map digitValue, rest) := by
  unfold readSomeDigits
  rw [readDigits_append hcs hrest]
  cases cs with
  | nil => exact (hne rfl).elim
  | cons c cs => rfl

theorem digitsValue_append (a b : List Nat) :
    digitsValue (a ++ b) = digitsValue a * 10 ^ b.length + digitsValue b := by
  induction b using List.reverseRecOn with
  | nil => simp [digitsValue]
  | append_singleton b d ih =>
      have hlast (ds : List Nat) : digitsValue (ds ++ [d]) = 10 * digitsValue ds + d := by
        simp [digitsValue]
      rw [← List.append_assoc, hlast, hlast, ih, List.length_append, List.length_singleton, pow_succ]
      ring

theorem digitsValue_zeros {ds : List Nat} (h : ∀ d ∈ ds, d = 0) : digitsValue ds = 0 := by
  induction ds using List.reverseRecOn with
  | nil => rfl
  | append_singleton ds d ih =>
      rw [digitsValue_append, ih fun d' hd' => h d' (List.mem_append_left _ hd'), h d (by simp)]
      simp [digitsValue]

theorem digitsValue_map (cs : List Char) : digitsValue (cs.map digitValue) = Nat.ofDigitChars 10 cs 0 := by
  rw [Nat.ofDigitChars_eq_foldl]
  unfold digitsValue
  rw [List.foldl_map]
  rfl

theorem digitsValue_toDigits (n : Nat) : digitsValue ((Nat.toDigits 10 n).map digitValue) = n := by
  rw [digitsValue_map, Nat.ofDigitChars_ten_toDigits]

theorem isDigit_of_mem_toDigits {n : Nat} : ∀ c ∈ Nat.toDigits 10 n, c.isDigit = true :=
  fun _ hc => Nat.isDigit_of_mem_toDigits (by decide) (by decide) hc

/-- Digits of a positive number do not start with a zero. -/
theorem head_toDigits_ne {n : Nat} (hpos : 0 < n) : (Nat.toDigits 10 n).head? ≠ some '0' := by
  induction n using Nat.strong_induction_on with
  | _ n ih =>
      rw [Nat.toDigits_eq_if (by decide)]
      split
      next hsmall =>
        have hdigit : n.digitChar ≠ '0' := by
          interval_cases n <;> decide
        simpa using hdigit
      next hlarge =>
        rw [List.head?_append_of_ne_nil _ Nat.toDigits_ne_nil]
        exact ih (n / 10) (by omega) (by omega)

end Digits

/-! ## Numbers -/

/-- The characters of a written number without its sign.  An exponent is always signed. -/
structure Numeral where
  whole : List Char
  fraction : List Char := []
  /-- Whether the exponent is negative, and its digits. -/
  exponent : Option (Bool × List Char) := none

namespace Numeral

def fractionText : List Char → List Char
  | [] => []
  | digits => '.' :: digits

def exponentText : Option (Bool × List Char) → List Char
  | none => []
  | some (negative, digits) => 'e' :: (if negative then '-' else '+') :: digits

def text (t : Numeral) : List Char := t.whole ++ (fractionText t.fraction ++ exponentText t.exponent)

def number (t : Numeral) (negative : Bool) : Number where
  negative := negative
  whole := t.whole.map digitValue
  fraction := t.fraction.map digitValue
  exponent := t.exponent.map fun e => (e.1, e.2.map digitValue)

/-- The form of a number: digits where they belong, and no zero in front of others. -/
structure Proper (t : Numeral) : Prop where
  whole_ne : t.whole ≠ []
  whole : ∀ c ∈ t.whole, c.isDigit = true
  leading : t.whole.head? = some '0' → t.whole.length = 1
  fraction : ∀ c ∈ t.fraction, c.isDigit = true
  exponent : ∀ negative digits, t.exponent = some (negative, digits) →
    digits ≠ [] ∧ ∀ c ∈ digits, c.isDigit = true

section Reading

variable {t : Numeral} {rest : List Char}

theorem eq_zero_of_digitValue {c : Char} (hc : c.isDigit = true) (hzero : digitValue c = 0) : c = '0' := by
  unfold Char.isDigit at hc
  unfold digitValue at hzero
  simp only [Bool.and_eq_true, decide_eq_true_eq, UInt32.le_iff_toNat_le] at hc
  apply Char.toNat_inj.mp
  have hlow : 48 ≤ c.toNat := hc.1
  have hvalue : c.toNat - 48 = 0 := hzero
  show c.toNat = 48
  omega

theorem readWhole_append (h : t.Proper) (hrest : EndsDigits rest) :
    readWhole (t.whole ++ rest) = some (t.whole.map digitValue, rest) := by
  unfold readWhole
  rw [readSomeDigits_append h.whole_ne h.whole hrest]
  obtain ⟨c, cs, hcs⟩ := List.exists_cons_of_ne_nil h.whole_ne
  have hdigit := h.whole c (hcs ▸ List.mem_cons_self)
  have hleading := h.leading
  rw [hcs] at hleading ⊢
  split
  next hzeros =>
    simp only [List.map_cons, Option.some.injEq, Prod.mk.injEq, List.cons.injEq] at hzeros
    obtain ⟨⟨hzero, hmore⟩, _⟩ := hzeros
    rw [eq_zero_of_digitValue hdigit hzero] at hleading
    have hnone : cs = [] := by simpa using hleading rfl
    simp [hnone] at hmore
  next => rfl

theorem readFraction_append (h : t.Proper) (hrest : EndsDigits rest) (hpoint : rest.head? ≠ some '.') :
    readFraction (fractionText t.fraction ++ rest) = some (t.fraction.map digitValue, rest) := by
  have hfraction := h.fraction
  cases hdigits : t.fraction with
  | nil =>
      cases rest with
      | nil => rfl
      | cons c rest =>
          have hc : c ≠ '.' := by simpa using hpoint
          unfold readFraction fractionText
          simp [hc]
  | cons c cs =>
      rw [hdigits] at hfraction
      exact readSomeDigits_append (List.cons_ne_nil c cs) hfraction hrest

theorem readExponent_append (h : t.Proper) (hrest : EndsDigits rest)
    (hletter : rest.head? ≠ some 'e' ∧ rest.head? ≠ some 'E') :
    readExponent (exponentText t.exponent ++ rest) =
      some (t.exponent.map fun e => (e.1, e.2.map digitValue), rest) := by
  cases hexponent : t.exponent with
  | none =>
      cases rest with
      | nil => rfl
      | cons c rest =>
          have hc : c ≠ 'e' ∧ c ≠ 'E' := by simpa using hletter
          unfold readExponent exponentText
          simp [hc]
  | some e =>
      obtain ⟨negative, digits⟩ := e
      obtain ⟨hne, hdigits⟩ := h.exponent negative digits hexponent
      have hread := readSomeDigits_append hne hdigits hrest
      cases negative <;> simp [exponentText, readExponent, readSignedDigits, hread]

/-- No fraction and no digit of an exponent begin where a value ends. -/
theorem endsDigits_of_follows (h : Follows rest) : EndsDigits rest := by
  intro c hc
  rcases h c hc with rfl | rfl | rfl <;> rfl

theorem head_ne_of_follows {c : Char} (h : Follows rest) (hc : c ≠ ',' ∧ c ≠ ']' ∧ c ≠ '}') :
    rest.head? ≠ some c := by
  intro hhead
  have hor := h c hhead
  simp [hc] at hor

theorem readUnsigned_text (h : t.Proper) (hrest : Follows rest) (negative : Bool) :
    readUnsigned negative (t.text ++ rest) = some (t.number negative, rest) := by
  have hends := endsDigits_of_follows hrest
  have hexponent := readExponent_append h hends
    ⟨head_ne_of_follows hrest (by decide), head_ne_of_follows hrest (by decide)⟩
  have hletter : EndsDigits (exponentText t.exponent ++ rest) := by
    cases t.exponent with
    | none => exact hends
    | some e => intro c hc; cases hc; rfl
  have hpoint : (exponentText t.exponent ++ rest).head? ≠ some '.' := by
    cases t.exponent with
    | none => exact head_ne_of_follows hrest (by decide)
    | some e => simp [exponentText]
  have hfraction := readFraction_append h hletter hpoint
  have hdigit : EndsDigits (fractionText t.fraction ++ (exponentText t.exponent ++ rest)) := by
    cases t.fraction with
    | nil => exact hletter
    | cons c cs => intro c hc; cases hc; rfl
  have hwhole := readWhole_append h hdigit
  unfold readUnsigned text
  simp only [List.append_assoc, hwhole, hfraction, hexponent, Option.bind_eq_bind, Option.bind_some]
  rfl

def signed (t : Numeral) (negative : Bool) : List Char := if negative then '-' :: t.text else t.text

theorem readNumber_signed (h : t.Proper) (hrest : Follows rest) (negative : Bool) :
    readNumber (t.signed negative ++ rest) = some (t.number negative, rest) := by
  cases negative with
  | true => exact readUnsigned_text h hrest true
  | false =>
      have hread := readUnsigned_text h hrest false
      obtain ⟨c, cs, hcs⟩ := List.exists_cons_of_ne_nil h.whole_ne
      have hminus : c ≠ '-' := by
        rintro rfl
        have hdigit := h.whole '-' (hcs ▸ List.mem_cons_self)
        cases hdigit
      unfold signed text at *
      rw [hcs] at hread ⊢
      unfold readNumber
      simpa [hminus] using hread

/-- What begins with a digit or a minus sign is read as a number. -/
theorem readValue_of_number {c : Char} (hc : c = '-' ∨ c.isDigit = true) (cs : List Char) (fuel : Nat) :
    readValue (fuel + 1) (c :: cs) =
      (readNumber (c :: cs)).map fun found => (.number found.1, found.2) := by
  have hspace : isSpace c = false := by
    rw [Bool.eq_false_iff]
    intro hspace
    simp only [isSpace, Bool.or_eq_true, beq_iff_eq] at hspace
    rcases hspace with ((rfl | rfl) | rfl) | rfl <;> rcases hc with hc | hc <;> cases hc
  unfold readValue
  rw [skipSpace_cons hspace]
  split
  case h_7 => rfl
  all_goals
    next heq =>
      obtain ⟨rfl, -⟩ := List.cons.inj heq
      rcases hc with hc | hc <;> cases hc

theorem reads_signed (h : t.Proper) (negative : Bool) :
    Reads (t.signed negative) (.number (t.number negative)) := by
  intro fuel rest hfuel hrest
  have hread := readNumber_signed h hrest negative
  obtain ⟨fuel, rfl⟩ := Nat.exists_eq_add_one_of_ne_zero (Nat.ne_zero_of_lt hfuel)
  obtain ⟨c, cs, hcs⟩ := List.exists_cons_of_ne_nil h.whole_ne
  have hdigit := h.whole c (hcs ▸ List.mem_cons_self)
  cases negative with
  | true =>
      rw [signed, if_pos rfl, List.cons_append] at hread ⊢
      rw [readValue_of_number (.inl rfl), hread]
      rfl
  | false =>
      rw [signed, if_neg (by decide), text, hcs, List.cons_append, List.cons_append] at hread ⊢
      rw [readValue_of_number (.inr hdigit), hread]
      rfl

end Reading

def ofNat (n : Nat) : Numeral where
  whole := Nat.toDigits 10 n

theorem proper_ofNat (n : Nat) : (ofNat n).Proper where
  whole_ne := Nat.toDigits_ne_nil
  whole := isDigit_of_mem_toDigits
  leading hzero := by
    by_cases hn : n = 0
    · subst hn
      rfl
    · exact (head_toDigits_ne (Nat.pos_of_ne_zero hn) hzero).elim
  fraction := nofun
  exponent := nofun

theorem reads_toString (n : Nat) : Reads (toString n).toList (.number ((ofNat n).number false)) := by
  have htext : (toString n).toList = (ofNat n).signed false := by
    rw [Nat.toString_eq_ofList_toDigits, String.toList_ofList]
    simp [signed, text, ofNat, fractionText, exponentText]
  rw [htext]
  exact reads_signed (proper_ofNat n) false

end Numeral

/-! ## Strings -/

section Strings

def IsPlain (c : Char) : Prop := 0x20 ≤ c.toNat ∧ c.toNat < 0x7f ∧ c ≠ '"' ∧ c ≠ '\\'

instance (c : Char) : Decidable (IsPlain c) := inferInstanceAs (Decidable (_ ∧ _))

def IsPlainText (text : String) : Prop := ∀ c ∈ text.toList, IsPlain c

instance (text : String) : Decidable (IsPlainText text) := List.decidableBAll IsPlain text.toList

theorem readString_plain {cs : List Char} (hcs : ∀ c ∈ cs, IsPlain c) (rest : List Char) :
    readString (cs ++ '"' :: rest) = some (cs.map Char.toNat, rest) := by
  induction cs with
  | nil => simp [readString]
  | cons c cs ih =>
      obtain ⟨hlow, _, hquote, hslash⟩ := hcs c List.mem_cons_self
      have htail := ih fun c' hc' => hcs c' (List.mem_cons_of_mem c hc')
      simp [readString, hslash, hlow, htail]

theorem charsOf_plain {cs : List Char} (hcs : ∀ c ∈ cs, IsPlain c) : charsOf (cs.map Char.toNat) = some cs := by
  induction cs with
  | nil => rfl
  | cons c cs ih =>
      have hplain := hcs c List.mem_cons_self
      have htail := ih fun c' hc' => hcs c' (List.mem_cons_of_mem c hc')
      have hhigh : isHighSurrogate c.toNat = false := by
        have hsmall := hplain.2.1
        simp [isHighSurrogate]
        omega
      have hlow : isLowSurrogate c.toNat = false := by
        have hsmall := hplain.2.1
        simp [isLowSurrogate]
        omega
      cases cs with
      | nil => simp [charsOf, hhigh, hlow]
      | cons d cs =>
          rw [List.map_cons] at htail
          simp [charsOf, hhigh, hlow, htail]

theorem textOf_plain {name : String} (hname : IsPlainText name) :
    textOf (name.toList.map Char.toNat) = some name := by
  unfold textOf
  rw [charsOf_plain hname]
  simp

theorem reads_string (name : String) (hname : IsPlainText name) :
    Reads ('"' :: name.toList ++ ['"']) (.string (some name)) := by
  intro fuel rest hfuel hrest
  obtain ⟨fuel, rfl⟩ := Nat.exists_eq_add_one_of_ne_zero (Nat.ne_zero_of_lt hfuel)
  have hread := readString_plain hname rest
  simp [readValue, skipSpace_cons, isSpace, hread, textOf_plain hname]

end Strings

/-! ## Arrays and objects -/

section Composites

/-- No value begins with a closing bracket. -/
theorem readValue_of_bracket {s rest : List Char} (h : skipSpace s = ']' :: rest) (fuel : Nat) :
    readValue fuel s = none := by
  cases fuel with
  | zero => rfl
  | succ fuel =>
      unfold readValue
      rw [h]
      rfl

theorem Reads.skipSpace_ne {text : List Char} {value : Value} (h : Reads text value) {rest : List Char}
    (hrest : Follows rest) (tail : List Char) : skipSpace (text ++ rest) ≠ ']' :: tail := by
  intro hbracket
  have hread := h (2 * text.length + 1) rest (Nat.lt_succ_self _) hrest
  rw [readValue_of_bracket hbracket] at hread
  cases hread

/-- What follows the first of several parts ends a value. -/
theorem exists_follows (text : List Char) (texts : List (List Char)) {closing : Char}
    (hclosing : closing = ',' ∨ closing = ']' ∨ closing = '\x7d') (rest : List Char) :
    ∃ tail, List.intercalate [','] (text :: texts) ++ closing :: rest = text ++ tail ∧ Follows tail := by
  cases texts with
  | nil =>
      rw [List.intercalate_singleton]
      exact ⟨_, rfl, follows_cons hclosing rest⟩
  | cons second others =>
      rw [List.intercalate_cons_cons, List.append_assoc, List.append_assoc]
      exact ⟨_, rfl, follows_cons (.inl rfl) _⟩

/-- Elements are read if each of them is. -/
theorem readElements_intercalate {texts : List (List Char)} {values : List Value}
    (h : List.Forall₂ Reads texts values) (hne : texts ≠ []) (rest : List Char) (fuel : Nat)
    (hfuel : 2 * (List.intercalate [','] texts).length + 1 < fuel) :
    readElements fuel (List.intercalate [','] texts ++ ']' :: rest) = some (values, rest) := by
  induction h generalizing fuel with
  | nil => exact (hne rfl).elim
  | @cons text value texts values hfirst hothers ih =>
      obtain ⟨fuel, rfl⟩ := Nat.exists_eq_add_one_of_ne_zero (Nat.ne_zero_of_lt hfuel)
      unfold readElements
      cases hothers with
      | nil =>
          rw [List.intercalate_singleton] at hfuel ⊢
          have hread := hfirst fuel (']' :: rest) (by omega) (follows_cons (by decide) rest)
          simp [hread, skipSpace_cons, isSpace]
      | @cons second _ others _ hsecond hmore =>
          rw [List.intercalate_cons_cons] at hfuel ⊢
          simp only [List.length_append, List.length_singleton] at hfuel
          have htail := ih (List.cons_ne_nil _ _) fuel (by omega)
          have hread := hfirst fuel (',' :: (List.intercalate [','] (second :: others) ++ ']' :: rest)) (by omega)
            (follows_cons (by decide) _)
          simp [hread, skipSpace_cons, isSpace, htail]

theorem reads_array {texts : List (List Char)} {values : List Value} (h : List.Forall₂ Reads texts values) :
    Reads ('[' :: List.intercalate [','] texts ++ [']']) (.array values) := by
  intro fuel rest hfuel hrest
  obtain ⟨fuel, rfl⟩ := Nat.exists_eq_add_one_of_ne_zero (Nat.ne_zero_of_lt hfuel)
  simp only [List.cons_append, List.length_cons, List.length_append, List.length_nil] at hfuel
  cases h with
  | nil =>
      unfold readValue
      rfl
  | @cons text value texts values hfirst hothers =>
      have helements := readElements_intercalate (.cons hfirst hothers) (List.cons_ne_nil _ _) rest fuel (by omega)
      obtain ⟨tail, htext, htail⟩ := exists_follows text texts (by decide : ']' = ',' ∨ _) rest
      unfold readValue
      rw [List.cons_append, List.cons_append, skipSpace_cons rfl]
      simp only [List.append_assoc, List.nil_append, List.cons_append]
      -- the bracket of an empty array is no beginning of a value
      split
      next hclose =>
        rw [htext] at hclose
        exact (hfirst.skipSpace_ne htail _ hclose).elim
      next =>
        rw [helements]
        rfl

def fieldText (field : String × String) : List Char := '"' :: field.1.toList ++ '"' :: ':' :: field.2.toList

structure ReadsField (field : String × String) (value : Value) : Prop where
  name : IsPlainText field.1
  value : Reads field.2.toList value

def named (fields : List (String × String)) (values : List Value) : List (Option String × Value) :=
  (fields.map fun field => some field.1).zip values

theorem length_fieldText (field : String × String) :
    (fieldText field).length = field.1.toList.length + field.2.toList.length + 3 := by
  simp [fieldText]
  omega

/-- The last field ends the object. -/
theorem readFields_last {field : String × String} {value : Value} (h : ReadsField field value) (rest : List Char)
    {fuel : Nat} (hfuel : 2 * (fieldText field).length < fuel) :
    readFields (fuel + 1) (fieldText field ++ '\x7d' :: rest) = some ([(some field.1, value)], rest) := by
  have hname := readString_plain h.name (':' :: (field.2.toList ++ '\x7d' :: rest))
  have htext := textOf_plain h.name
  have hread := h.value fuel ('\x7d' :: rest) (by rw [length_fieldText] at hfuel; omega)
    (follows_cons (by decide) rest)
  unfold readFields
  simp [fieldText, skipSpace_cons, isSpace, hname, htext, hread]

/-- A field with a comma behind it is read before the others. -/
theorem readFields_more {field : String × String} {value : Value} (h : ReadsField field value)
    {next rest : List Char} {others : List (Option String × Value)} {fuel : Nat}
    (hfuel : 2 * (fieldText field).length < fuel) (hothers : readFields fuel next = some (others, rest)) :
    readFields (fuel + 1) (fieldText field ++ ',' :: next) = some ((some field.1, value) :: others, rest) := by
  have hname := readString_plain h.name (':' :: (field.2.toList ++ ',' :: next))
  have htext := textOf_plain h.name
  have hread := h.value fuel (',' :: next) (by rw [length_fieldText] at hfuel; omega)
    (follows_cons (by decide) next)
  unfold readFields
  simp [fieldText, skipSpace_cons, isSpace, hname, htext, hread, hothers]

/-- Fields are read if each of them is. -/
theorem readFields_intercalate {fields : List (String × String)} {values : List Value}
    (h : List.Forall₂ ReadsField fields values) (hne : fields ≠ []) (rest : List Char) (fuel : Nat)
    (hfuel : 2 * (List.intercalate [','] (fields.map fieldText)).length + 1 < fuel) :
    readFields fuel (List.intercalate [','] (fields.map fieldText) ++ '\x7d' :: rest) =
      some (named fields values, rest) := by
  induction h generalizing fuel with
  | nil => exact (hne rfl).elim
  | @cons field value fields values hfirst hothers ih =>
      obtain ⟨fuel, rfl⟩ := Nat.exists_eq_add_one_of_ne_zero (Nat.ne_zero_of_lt hfuel)
      cases hothers with
      | nil =>
          rw [List.map_singleton, List.intercalate_singleton] at hfuel ⊢
          exact readFields_last hfirst rest (by omega)
      | @cons second _ others _ hsecond hmore =>
          rw [List.map_cons, List.map_cons, List.intercalate_cons_cons] at hfuel ⊢
          simp only [List.length_append, List.length_singleton] at hfuel
          have htail := ih (List.cons_ne_nil _ _) fuel (by rw [List.map_cons]; omega)
          rw [List.append_assoc, List.append_assoc, List.singleton_append]
          exact readFields_more hfirst (by omega) htail

theorem reads_object {fields : List (String × String)} {values : List Value}
    (h : List.Forall₂ ReadsField fields values) (hne : fields ≠ []) :
    Reads ('\x7b' :: List.intercalate [','] (fields.map fieldText) ++ ['\x7d']) (.object (named fields values)) := by
  intro fuel rest hfuel hrest
  obtain ⟨fuel, rfl⟩ := Nat.exists_eq_add_one_of_ne_zero (Nat.ne_zero_of_lt hfuel)
  simp only [List.cons_append, List.length_cons, List.length_append, List.length_nil] at hfuel
  have hread := readFields_intercalate h hne rest fuel (by omega)
  obtain ⟨field, others, rfl⟩ := List.exists_cons_of_ne_nil hne
  obtain ⟨tail, htext, _⟩ := exists_follows (fieldText field) (others.map fieldText) (by decide : '\x7d' = ',' ∨ _) rest
  rw [List.map_cons] at hread
  rw [List.map_cons]
  unfold readValue
  rw [List.cons_append, List.cons_append, skipSpace_cons rfl]
  simp only [List.append_assoc, List.nil_append, List.cons_append]
  split
  next hclose =>
    rw [htext] at hclose
    cases hclose
  next =>
    rw [hread]
    rfl

/-- The characters of a written record. -/
theorem toList_writeRecord (fields : List (String × String)) :
    (writeRecord fields).toList = '\x7b' :: List.intercalate [','] (fields.map fieldText) ++ ['\x7d'] := by
  have hbody : (fields.map fun field => "\"" ++ field.1 ++ "\":" ++ field.2).map String.toList =
      fields.map fieldText := by
    rw [List.map_map]
    apply List.map_congr_left
    intro field _
    simp [fieldText]
  unfold writeRecord
  dsimp only
  rw [String.toList_append, String.toList_append, String.toList_intercalate, hbody]
  rfl

theorem toList_writeArray (elements : List String) :
    (writeArray elements).toList = '[' :: List.intercalate [','] (elements.map String.toList) ++ [']'] := by
  unfold writeArray
  rw [String.toList_append, String.toList_append, String.toList_intercalate]
  rfl

end Composites

end BehaviourGraph.Json
