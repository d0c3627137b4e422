import BehaviourGraph.Proofs.Json.Singles

/-!
# Records in texts

What is written for a value restores it if a reader takes it off a text and gives it the same value.
Counts below their bound and finite floats are restored, and so is a list of values, by position in an array
or by name in an object.
-/

namespace BehaviourGraph.Json

/-- A text that the reader takes for one value, which a decoder gives the meaning `a`. -/
def Restores {α : Type} (decode : Value → Option α) (text : String) (a : α) : Prop :=
  ∃ value, Reads text.toList value ∧ decode value = some a

section Restores

variable {α β : Type} {decode : Value → Option α} {text : String} {a : α}

theorem Restores.ofText (h : Restores decode text a) : (Value.ofText? text).bind decode = some a := by
  obtain ⟨value, hreads, hdecode⟩ := h
  rw [hreads.ofText]
  exact hdecode

theorem Restores.map (h : Restores decode text a) (f : α → β) :
    Restores (fun value => (decode value).map f) text (f a) := by
  obtain ⟨value, hreads, hdecode⟩ := h
  exact ⟨value, hreads, congrArg (Option.map f) hdecode⟩

theorem mapM_eq_some_iff {f : α → Option β} {as : List α} {bs : List β} :
    as.mapM f = some bs ↔ List.Forall₂ (fun a b => f a = some b) as bs := by
  induction as generalizing bs with
  | nil => simp [eq_comm]
  | cons a as ih =>
      simp only [List.mapM_cons, Option.bind_eq_bind, Option.bind_eq_some_iff, ih, List.forall₂_cons_left_iff]
      constructor
      · rintro ⟨b, hb, rest, hrest, heq⟩
        exact ⟨b, rest, hb, hrest, (Option.some.inj heq).symm⟩
      · rintro ⟨b, rest, hb, hrest, rfl⟩
        exact ⟨b, hb, rest, hrest, rfl⟩

/-- What holds of everything that can be decoded holds of a whole list. -/
theorem forall_of_mapM {f : α → Option β} {P : β → Prop} (hP : ∀ a b, f a = some b → P b) {as : List α}
    {bs : List β} (h : as.mapM f = some bs) : ∀ b ∈ bs, P b := by
  rw [mapM_eq_some_iff] at h
  induction h with
  | nil => exact List.forall_mem_nil P
  | cons hfirst _ ih => exact List.forall_mem_cons.mpr ⟨hP _ _ hfirst, ih⟩

theorem exists_of_mapM_pair {f : α → Option β} {as : List α} {b c : β} (h : as.mapM f = some [b, c]) :
    ∃ x y, as = [x, y] ∧ f x = some b ∧ f y = some c := by
  obtain ⟨x, others, hx, hothers, rfl⟩ := List.forall₂_cons_right_iff.mp (mapM_eq_some_iff.mp h)
  obtain ⟨y, none, hy, hnone, rfl⟩ := List.forall₂_cons_right_iff.mp hothers
  rw [List.forall₂_nil_right_iff.mp hnone]
  exact ⟨x, y, rfl, hx, hy⟩

/-- Restored values come from one list of values that are read. -/
theorem exists_values {encode : α → String} {as : List α} (h : ∀ a ∈ as, Restores decode (encode a) a) :
    ∃ values, List.Forall₂ Reads (as.map fun a => (encode a).toList) values ∧ values.mapM decode = some as := by
  simp only [mapM_eq_some_iff]
  induction as with
  | nil => exact ⟨[], .nil, .nil⟩
  | cons a as ih =>
      obtain ⟨value, hreads, hdecode⟩ := h a List.mem_cons_self
      obtain ⟨values, hothers, hdecoded⟩ := ih fun a' ha' => h a' (List.mem_cons_of_mem a ha')
      exact ⟨value :: values, .cons hreads hothers, .cons hdecode hdecoded⟩

theorem restores_array {encode : α → String} {as : List α} (h : ∀ a ∈ as, Restores decode (encode a) a) :
    ∃ values, Reads (writeArray (as.map encode)).toList (.array values) ∧ values.mapM decode = some as := by
  obtain ⟨values, hreads, hdecode⟩ := exists_values h
  refine ⟨values, ?_, hdecode⟩
  rw [toList_writeArray, List.map_map]
  exact reads_array hreads

end Restores

/-! ## Counts -/

section Counts

variable {bound n : ℕ} {value : Value}

theorem le_foldl (digits : List ℕ) (significand : ℕ) :
    significand ≤ digits.foldl (fun value digit => 10 * value + digit) significand := by
  induction digits generalizing significand with
  | nil => exact le_rfl
  | cons digit digits ih => exact (by omega : significand ≤ 10 * significand + digit).trans (ih _)

/-- Digits are read to the end if their value fits. -/
theorem accumulate_eq (digits : List ℕ) (significand : ℕ)
    (hfits : digits.foldl (fun value digit => 10 * value + digit) significand ≤ greatestCount) :
    accumulate significand digits =
      (digits.foldl (fun value digit => 10 * value + digit) significand, []) := by
  induction digits generalizing significand with
  | nil => rfl
  | cons digit digits ih =>
      have hnext : 10 * significand + digit ≤ greatestCount := (le_foldl digits _).trans hfits
      unfold accumulate
      dsimp only
      rw [if_pos hnext]
      exact ih _ hfits

theorem count?_ofNat (hn : n < countBound) : ((Numeral.ofNat n).number false).count? = some n := by
  have hvalue : digitsValue ((Nat.toDigits 10 n).map digitValue) = n := digitsValue_toDigits n
  have hfits : n ≤ greatestCount := Nat.le_sub_one_of_lt hn
  have hread : accumulate 0 ((Nat.toDigits 10 n).map digitValue) = (n, []) := by
    have hread := accumulate_eq ((Nat.toDigits 10 n).map digitValue) 0
    unfold digitsValue at hvalue
    rw [hvalue] at hread
    exact hread hfits
  unfold Number.count? Number.magnitude? Numeral.number Numeral.ofNat
  simp [hread]

theorem restores_count (hn : n < bound) (hbound : bound ≤ countBound) :
    Restores (Value.count? bound) (toString n) n := by
  refine ⟨_, Numeral.reads_toString n, ?_⟩
  unfold Value.count? Value.number?
  simp [count?_ofNat (hn.trans_le hbound), hn]

theorem restores_word (word : UInt64) : Restores Value.word? (toString word) word := by
  have hcount := (restores_count word.toNat_lt le_rfl).map UInt64.ofNat
  rw [UInt64.ofNat_toNat] at hcount
  exact hcount

theorem lt_of_count? (h : value.count? bound = some n) : n < bound := by
  unfold Value.count? at h
  simp only [Option.bind_eq_bind, Option.bind_eq_some_iff] at h
  obtain ⟨_, _, _, _, h⟩ := h
  split at h
  next hless =>
    cases h
    exact hless
  next => cases h

end Counts

/-! ## Single floats -/

section Singles

variable {x : Float32} {value : Value}

theorem restores_single (hx : x.isFinite = true) : Restores Value.single? (writeSingle x) x := by
  obtain ⟨n, hreads, hsingle⟩ := exists_written hx
  exact ⟨_, hreads, hsingle⟩

theorem isFinite_of_value_single? (h : value.single? = some x) : x.isFinite = true := by
  unfold Value.single? at h
  simp only [Option.bind_eq_bind, Option.bind_eq_some_iff] at h
  obtain ⟨_, _, hsingle⟩ := h
  exact isFinite_of_single? hsingle

end Singles

/-! ## Records -/

section Records

variable {names : List String} {values : List Value}

theorem named_zip_of_notMem {name : String} (h : name ∉ names) (values : List Value) :
    Value.named ((names.map some).zip values) name = [] := by
  unfold Value.named
  rw [List.map_eq_nil_iff, List.filter_eq_nil_iff]
  rintro ⟨field, value⟩ hmem hsame
  obtain ⟨other, hother, rfl⟩ := List.mem_map.mp (List.of_mem_zip hmem).1
  have hsame : other = name := by simpa using hsame
  exact h (hsame ▸ hother)

/-- If no two names are the same, each field is the only one of its name. -/
theorem named_zip (hnodup : names.Nodup) {name : String} {value : Value} (h : (name, value) ∈ names.zip values) :
    Value.named ((names.map some).zip values) name = [value] := by
  induction names generalizing values with
  | nil => simp at h
  | cons first names ih =>
      obtain ⟨hfirst, hothers⟩ := List.nodup_cons.mp hnodup
      cases values with
      | nil => simp at h
      | cons head values =>
          rw [List.zip_cons_cons] at h
          rcases List.mem_cons.mp h with heq | hmem
          · cases heq
            have hnone := named_zip_of_notMem hfirst values
            unfold Value.named at hnone ⊢
            simp [hnone]
          · have hne : first ≠ name := fun heq => hfirst (heq ▸ (List.of_mem_zip hmem).1)
            have htail := ih hothers hmem
            unfold Value.named at htail ⊢
            simp [hne, htail]

/-- An object with one field for each name has all of them. -/
theorem record?_object (hnodup : names.Nodup) (hlength : names.length = values.length) :
    (Value.object ((names.map some).zip values)).record? names = some (values.map some) := by
  have hsome : (((names.map some).zip values).all fun field => field.1.isSome) = true := by
    rw [List.all_eq_true]
    intro field hfield
    obtain ⟨name, _, hname⟩ := List.mem_map.mp (List.of_mem_zip (a := field.1) (b := field.2) hfield).1
    rw [← hname]
    rfl
  unfold Value.record?
  dsimp only
  rw [if_pos hsome, mapM_eq_some_iff, List.forall₂_map_right_iff, List.forall₂_iff_zip]
  refine ⟨hlength, fun hmem => ?_⟩
  rw [named_zip hnodup hmem]

theorem fullRecord?_of_record? {value : Value} (h : value.record? names = some (values.map some)) :
    value.fullRecord? names = some values := by
  unfold Value.fullRecord?
  simp only [h, Option.bind_eq_bind, Option.bind_some]
  rw [mapM_eq_some_iff, List.forall₂_map_left_iff]
  exact List.forall₂_same.mpr fun _ _ => rfl

/-- What is written for fields is a record of them. -/
theorem exists_record {fields : List (String × String)} (h : List.Forall₂ ReadsField fields values)
    (hne : fields ≠ []) (hnodup : (fields.map (·.1)).Nodup) :
    ∃ value, Reads (writeRecord fields).toList value ∧
      value.record? (fields.map (·.1)) = some (values.map some) := by
  refine ⟨.object (named fields values), ?_, ?_⟩
  · rw [toList_writeRecord]
    exact reads_object h hne
  · have hnamed : named fields values = ((fields.map (·.1)).map some).zip values := by
      rw [List.map_map]
      rfl
    rw [hnamed]
    exact record?_object hnodup (by rw [List.length_map, h.length_eq])

structure FieldNames (names : List String) : Prop where
  ne : names ≠ []
  nodup : names.Nodup
  plain : ∀ name ∈ names, IsPlainText name

instance (names : List String) : Decidable (FieldNames names) :=
  decidable_of_iff (names ≠ [] ∧ names.Nodup ∧ ∀ name ∈ names, IsPlainText name)
    ⟨fun h => ⟨h.1, h.2.1, h.2.2⟩, fun h => ⟨h.ne, h.nodup, h.plain⟩⟩

theorem readsFields_zip {texts : List String} (hplain : ∀ name ∈ names, IsPlainText name)
    (h : List.Forall₂ Reads (texts.map String.toList) values) (hlength : names.length = texts.length) :
    List.Forall₂ ReadsField (names.zip texts) values := by
  induction names generalizing texts values with
  | nil =>
      cases texts with
      | nil =>
          rw [List.forall₂_nil_left_iff.mp h]
          exact .nil
      | cons text texts => cases hlength
  | cons name names ih =>
      cases texts with
      | nil => cases hlength
      | cons text texts =>
          obtain ⟨value, others, hvalue, hothers, rfl⟩ := List.forall₂_cons_left_iff.mp h
          refine .cons ⟨hplain name List.mem_cons_self, hvalue⟩ ?_
          exact ih (fun other hother => hplain other (List.mem_cons_of_mem name hother)) hothers
            (Nat.succ.inj hlength)

/-- A record of finite floats is restored, float by float. -/
theorem exists_singles (hnames : FieldNames names) (xs : List Float32) (hlength : names.length = xs.length)
    (hfinite : ∀ x ∈ xs, x.isFinite = true) :
    ∃ value values, Reads (writeRecord (names.zip (xs.map writeSingle))).toList value ∧
      value.fullRecord? names = some values ∧ values.mapM Value.single? = some xs := by
  obtain ⟨values, hreads, hsingles⟩ := exists_values fun x hx => restores_single (hfinite x hx)
  have htexts : names.length = (xs.map writeSingle).length := by rw [hlength, List.length_map]
  have hnamed : (names.zip (xs.map writeSingle)).map (·.1) = names := List.map_fst_zip htexts.le
  have hfields : List.Forall₂ ReadsField (names.zip (xs.map writeSingle)) values :=
    readsFields_zip hnames.plain (by rwa [List.map_map]) htexts
  have hne : names.zip (xs.map writeSingle) ≠ [] := by
    intro hnil
    rw [hnil] at hnamed
    exact hnames.ne hnamed.symm
  obtain ⟨value, hvalue, hrecord⟩ := exists_record hfields hne (by rw [hnamed]; exact hnames.nodup)
  rw [hnamed] at hrecord
  exact ⟨value, values, hvalue, fullRecord?_of_record? hrecord, hsingles⟩

end Records

end BehaviourGraph.Json
