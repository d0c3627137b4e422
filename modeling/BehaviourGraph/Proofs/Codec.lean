import BehaviourGraph.Proofs.Json.Records

/-!
# Stored forms are read back

Whatever a text is read as, the text that is written for it is read as the same.  What can be read has
finite floats and counts below their bounds, whichever form it was read from, and what is written for such
values restores them.
-/

namespace BehaviourGraph

open Json (Value Restores Reads ReadsField FieldNames countBound writeArray writeRecord writeSingle)

/-- Whatever a text is read as, the text that is written for it is read as the same. -/
def RoundTrips {α : Type} (decode : Value → Option α) (encode : α → String) : Prop :=
  ∀ text a, (Value.ofText? text).bind decode = some a → (Value.ofText? (encode a)).bind decode = some a

theorem roundTrips_of_restores {α : Type} {decode : Value → Option α} {encode : α → String}
    (h : ∀ value a, decode value = some a → Restores decode (encode a) a) : RoundTrips decode encode := by
  intro text a hread
  obtain ⟨value, _, hdecode⟩ := Option.bind_eq_some_iff.mp hread
  exact (h value a hdecode).ofText

/-! ## Identifiers and steps -/

section Counts

variable {value : Value}

theorem NodeId.restores {id : NodeId} (h : NodeId.ofJson? value = some id) :
    Restores NodeId.ofJson? id.toJson id := by
  obtain ⟨index, hcount, rfl⟩ := Option.map_eq_some_iff.mp h
  exact (Json.restores_count (Json.lt_of_count? hcount) (by decide)).map NodeId.mk

theorem TransitionId.restores {id : TransitionId} (h : TransitionId.ofJson? value = some id) :
    Restores TransitionId.ofJson? id.toJson id := by
  obtain ⟨index, hcount, rfl⟩ := Option.map_eq_some_iff.mp h
  exact (Json.restores_count (Json.lt_of_count? hcount) (by decide)).map TransitionId.mk

theorem Step.restores (s : Step) : Restores Step.ofJson? s.toJson s :=
  (Json.restores_word s.count).map Step.mk

end Counts

/-! ## Configurations -/

namespace Config

variable {value : Value} {c : Config}

/-- A depth that is read is a count, and so is the one that is taken if none is there. -/
theorem depth_lt_of_ofJson? (h : ofJson? {} value = some c) : c.maxTickDepth < countBound := by
  unfold ofJson? at h
  simp only [Option.bind_eq_bind, Option.bind_eq_some_iff] at h
  obtain ⟨fields, _, h⟩ := h
  split at h
  next seed depth _ =>
    simp only [Option.bind_eq_some_iff] at h
    obtain ⟨_, _, read, hdepth, h⟩ := h
    cases h
    cases depth with
    | none =>
        cases hdepth
        exact (by decide : 256 < countBound)
    | some depth => exact Json.lt_of_count? hdepth
  next => cases h

theorem restores (hdepth : c.maxTickDepth < countBound) : Restores (ofJson? {}) c.toJson c := by
  obtain ⟨seed, hseed, hword⟩ := Json.restores_word c.seed
  obtain ⟨depth, hreads, hcount⟩ := Json.restores_count hdepth le_rfl
  have hnames : FieldNames ["seed", "max_tick_depth"] := by decide
  have hfields : List.Forall₂ ReadsField
      [("seed", toString c.seed), ("max_tick_depth", toString c.maxTickDepth)] [seed, depth] :=
    .cons ⟨hnames.plain _ (by simp), hseed⟩ (.cons ⟨hnames.plain _ (by simp), hreads⟩ .nil)
  obtain ⟨value, hvalue, hrecord⟩ := Json.exists_record hfields (List.cons_ne_nil _ _) hnames.nodup
  refine ⟨value, hvalue, ?_⟩
  unfold ofJson?
  simp only [List.map_cons, List.map_nil] at hrecord
  simp [hrecord, Value.orElse, hword, hcount]

end Config

/-! ## Windows -/

namespace Window

variable {value : Value} {w : Window}

theorem isFinite_of_ofJson? (h : ofJson? value = some w) : w.min.isFinite = true ∧ w.max.isFinite = true := by
  unfold ofJson? at h
  simp only [Option.bind_eq_bind, Option.bind_eq_some_iff] at h
  obtain ⟨fields, _, h⟩ := h
  split at h
  next =>
    simp only [Option.bind_eq_some_iff] at h
    obtain ⟨min, hmin, max, hmax, h⟩ := h
    cases h
    exact ⟨Json.isFinite_of_value_single? hmin, Json.isFinite_of_value_single? hmax⟩
  next => cases h

theorem restores (hmin : w.min.isFinite = true) (hmax : w.max.isFinite = true) :
    Restores ofJson? w.toJson w := by
  have hnames : FieldNames ["min", "max"] := by decide
  have hfinite : ∀ x ∈ [w.min, w.max], x.isFinite = true := by simp [hmin, hmax]
  obtain ⟨value, values, hvalue, hrecord, hsingles⟩ := Json.exists_singles hnames _ rfl hfinite
  refine ⟨value, hvalue, ?_⟩
  obtain ⟨min, max, rfl, hmin, hmax⟩ := Json.exists_of_mapM_pair hsingles
  unfold ofJson?
  simp [hrecord, hmin, hmax]

end Window

/-! ## Curves -/

namespace Keyframe

variable {value : Value} {k : Keyframe}

theorem restores (h : ofJson? value = some k) : Restores ofJson? k.toJson k := by
  unfold ofJson? at h
  simp only [Option.bind_eq_bind, Option.bind_eq_some_iff] at h
  obtain ⟨elements, _, h⟩ := h
  split at h
  next =>
    simp only [Option.bind_eq_some_iff] at h
    obtain ⟨x, hx, y, hy, h⟩ := h
    cases h
    have hfinite : ∀ z ∈ [x, y], z.isFinite = true := by
      simp [Json.isFinite_of_value_single? hx, Json.isFinite_of_value_single? hy]
    obtain ⟨values, hvalue, hsingles⟩ := Json.restores_array fun z hz => Json.restores_single (hfinite z hz)
    refine ⟨.array values, ?_, ?_⟩
    · unfold toJson Keyframe.x
      dsimp only
      rw [Float32.ofBits_toBits]
      exact hvalue
    · obtain ⟨a, b, rfl, ha, hb⟩ := Json.exists_of_mapM_pair hsingles
      unfold ofJson? Value.array?
      simp [ha, hb]
  next => cases h

end Keyframe

namespace Curve

variable {value : Value} {c : Curve} {tag text : String}

theorem isFinite_of_parameters? {names : List String} {xs : List Float32}
    (h : parameters? names value = some xs) : ∀ x ∈ xs, x.isFinite = true := by
  unfold parameters? at h
  simp only [Option.bind_eq_bind, Option.bind_eq_some_iff] at h
  obtain ⟨values, _, hsingles⟩ := h
  exact Json.forall_of_mapM (fun _ _ => Json.isFinite_of_value_single?) hsingles

/-- Parameters are restored, name by name. -/
theorem restores_parameters {names : List String} (hnames : FieldNames names) {xs : List Float32}
    (hlength : names.length = xs.length) (hfinite : ∀ x ∈ xs, x.isFinite = true) :
    Restores (parameters? names) (writeRecord (names.zip (xs.map writeSingle))) xs := by
  obtain ⟨value, values, hvalue, hrecord, hsingles⟩ := Json.exists_singles hnames xs hlength hfinite
  refine ⟨value, hvalue, ?_⟩
  unfold parameters?
  simp [hrecord, hsingles]

/-- A tagged value is restored as the curve of its tag. -/
theorem restores_tagged (htag : Json.IsPlainText tag) (h : Restores (ofTagged? tag) text c) :
    Restores ofJson? (writeTagged tag text) c := by
  obtain ⟨value, hreads, hdecode⟩ := h
  refine ⟨.object [(some tag, value)], ?_, hdecode⟩
  have hfield : ReadsField (tag, text) value := ⟨htag, hreads⟩
  unfold writeTagged
  rw [Json.toList_writeRecord]
  exact Json.reads_object (.cons hfield .nil) (List.cons_ne_nil _ _)

theorem restores_keyframes {keys : List Keyframe} (h : ∀ k ∈ keys, Restores Keyframe.ofJson? k.toJson k) :
    Restores ofJson? (keyframes keys).toJson (keyframes keys) := by
  obtain ⟨values, hvalue, hkeys⟩ := Json.restores_array h
  have htext : (keyframes keys).toJson = writeTagged "Keyframes" (writeArray (keys.map Keyframe.toJson)) := rfl
  rw [htext]
  refine restores_tagged (by decide) ⟨.array values, hvalue, ?_⟩
  unfold ofTagged? Value.array?
  simp [hkeys]

theorem restores_identity : Restores ofJson? identity.toJson identity := by
  refine ⟨.string (some "Identity"), ?_, rfl⟩
  have htext : identity.toJson.toList = '"' :: "Identity".toList ++ ['"'] := by decide
  rw [htext]
  exact Json.reads_string "Identity" (by decide)

/-- Parameters that are read are restored under the tag of their curve. -/
theorem restores_named (tag : String) {names : List String} {xs : List Float32} (htag : Json.IsPlainText tag)
    (hnames : FieldNames names) (hparameters : parameters? names value = some xs)
    (hlength : names.length = xs.length)
    (htext : c.toJson = writeTagged tag (writeRecord (names.zip (xs.map writeSingle))))
    (hcurve : ∀ written, parameters? names written = some xs → ofTagged? tag written = some c) :
    Restores ofJson? c.toJson c := by
  rw [htext]
  obtain ⟨written, hreads, hagain⟩ := restores_parameters hnames hlength (isFinite_of_parameters? hparameters)
  exact restores_tagged htag ⟨written, hreads, hcurve written hagain⟩

/-- A curve that is read from a tag is restored from it. -/
theorem restores_of_ofTagged? (h : ofTagged? tag value = some c) : Restores ofJson? c.toJson c := by
  unfold ofTagged? at h
  simp only [Option.bind_eq_bind] at h
  split at h
  next =>
    split at h
    next =>
      cases h
      exact restores_identity
    next => cases h
  next =>
    obtain ⟨parameters, hparameters, h⟩ := Option.bind_eq_some_iff.mp h
    split at h
    next slope intercept =>
      cases h
      exact restores_named "Linear" (by decide) (by decide) hparameters rfl rfl
        fun written hagain => by simp [ofTagged?, hagain]
    next => cases h
  next =>
    obtain ⟨parameters, hparameters, h⟩ := Option.bind_eq_some_iff.mp h
    split at h
    next exponent scale =>
      cases h
      exact restores_named "Power" (by decide) (by decide) hparameters rfl rfl
        fun written hagain => by simp [ofTagged?, hagain]
    next => cases h
  next =>
    obtain ⟨parameters, hparameters, h⟩ := Option.bind_eq_some_iff.mp h
    split at h
    next steepness midpoint =>
      cases h
      exact restores_named "Logistic" (by decide) (by decide) hparameters rfl rfl
        fun written hagain => by simp [ofTagged?, hagain]
    next => cases h
  next =>
    obtain ⟨parameters, hparameters, h⟩ := Option.bind_eq_some_iff.mp h
    split at h
    next threshold low high =>
      cases h
      exact restores_named "Step" (by decide) (by decide) hparameters rfl rfl
        fun written hagain => by simp [ofTagged?, hagain]
    next => cases h
  next =>
    simp only [Option.bind_eq_some_iff] at h
    obtain ⟨elements, _, keys, hkeys, h⟩ := h
    cases h
    exact restores_keyframes (Json.forall_of_mapM (fun _ _ => Keyframe.restores) hkeys)
  next => cases h

theorem restores (h : ofJson? value = some c) : Restores ofJson? c.toJson c := by
  unfold ofJson? at h
  split at h
  next =>
    cases h
    exact restores_identity
  next => exact restores_of_ofTagged? h
  next => cases h

end Curve

/-- Decoding undoes encoding: whatever a text is read as, in any of its forms and with any numbers that are
let through, is written in a form that is read as the same, floats bit for bit. -/
theorem stored_forms_round_trip :
    RoundTrips (Config.ofJson? {}) Config.toJson ∧ RoundTrips Curve.ofJson? Curve.toJson ∧
      RoundTrips Window.ofJson? Window.toJson ∧ RoundTrips NodeId.ofJson? NodeId.toJson ∧
      RoundTrips TransitionId.ofJson? TransitionId.toJson ∧ RoundTrips Step.ofJson? Step.toJson := by
  refine ⟨?config, ?curve, ?window, ?nodeId, ?transitionId, ?step⟩
  case config => exact roundTrips_of_restores fun _ _ h => Config.restores (Config.depth_lt_of_ofJson? h)
  case curve => exact roundTrips_of_restores fun _ _ => Curve.restores
  case window =>
    apply roundTrips_of_restores
    intro value w h
    obtain ⟨hmin, hmax⟩ := Window.isFinite_of_ofJson? h
    exact Window.restores hmin hmax
  case nodeId => exact roundTrips_of_restores fun _ _ => NodeId.restores
  case transitionId => exact roundTrips_of_restores fun _ _ => TransitionId.restores
  case step => exact roundTrips_of_restores fun _ s _ => Step.restores s

/-- An array in field order with a default, keys with a negative zero and with numbers that are rounded, and
the bounds that come closest to infinity. -/
theorem rounded_forms_round_trip :
    (∃ c, (Value.ofText? "[7]").bind (Config.ofJson? {}) = some c ∧
        (Value.ofText? c.toJson).bind (Config.ofJson? {}) = some c) ∧
      (∃ c, (Value.ofText? "\x7b\"Keyframes\":[[-0.0,1e-46],[16777217,-9223372036854775809]]\x7d").bind
          Curve.ofJson? = some c ∧
        (Value.ofText? c.toJson).bind Curve.ofJson? = some c) ∧
      ∃ w, (Value.ofText? "[-3.4028235677973365e38,3.4028235677973365e38]").bind Window.ofJson? = some w ∧
        (Value.ofText? w.toJson).bind Window.ofJson? = some w := by
  have hconfig : ((Value.ofText? "[7]").bind (Config.ofJson? {})).isSome = true := by decide +kernel
  have hcurve : ((Value.ofText? "\x7b\"Keyframes\":[[-0.0,1e-46],[16777217,-9223372036854775809]]\x7d").bind
      Curve.ofJson?).isSome = true := by decide +kernel
  have hwindow : ((Value.ofText? "[-3.4028235677973365e38,3.4028235677973365e38]").bind
      Window.ofJson?).isSome = true := by decide +kernel
  obtain ⟨c, hc⟩ := Option.isSome_iff_exists.mp hconfig
  obtain ⟨k, hk⟩ := Option.isSome_iff_exists.mp hcurve
  obtain ⟨w, hw⟩ := Option.isSome_iff_exists.mp hwindow
  exact ⟨⟨c, hc, stored_forms_round_trip.1 _ _ hc⟩, ⟨k, hk, stored_forms_round_trip.2.1 _ _ hk⟩,
    ⟨w, hw, stored_forms_round_trip.2.2.1 _ _ hw⟩⟩

end BehaviourGraph
