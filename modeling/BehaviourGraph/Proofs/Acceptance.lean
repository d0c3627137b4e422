import BehaviourGraph.Proofs.Single.Magnitude
import BehaviourGraph.Proofs.Wiring
import BehaviourGraph.Run.Operation

/-!
# What is accepted and what is refused

A step of building is accepted just if what it is given fits the graph that has been built so far, and a
request to a session just if it names an element of the graph and a finite time.  What is refused is
named, the first fault before others, and changes nothing.
-/

namespace BehaviourGraph

/-! ## Windows -/

section Windows

variable {w : Window}

/-- A bound below another finite one is finite. -/
theorem isFinite_of_le {x y : Float32} (hx : Nonnegative (parts x)) (hle : x ≤ y)
    (hfinite : y.isFinite = true) : x.isFinite = true := by
  have hy := nonnegative_of_le hx hle
  rw [isFinite_iff_code hx]
  exact ((le_iff_code hx hy).mp hle).trans_lt ((isFinite_iff_code hy).mp hfinite)

theorem Window.suits_probability_iff :
    w.suits .probability = true ↔ 0.0 ≤ w.min ∧ w.min ≤ w.max ∧ w.max ≤ percentMax := by
  simp only [Window.suits, Bool.and_eq_true, decide_eq_true_eq]
  constructor
  · rintro ⟨⟨⟨_, hpos⟩, hle⟩, hlimit⟩
    exact ⟨hpos, hle, hlimit⟩
  · rintro ⟨hpos, hle, hlimit⟩
    have hmin := nonnegative_of_le (x := 0.0) (.zero .positive) hpos
    have hmax := isFinite_of_le (nonnegative_of_le hmin hle) hlimit (by decide)
    exact ⟨⟨⟨⟨isFinite_of_le hmin hle hmax, hmax⟩, hpos⟩, hle⟩, hlimit⟩

/-- The limit of cooldowns is the greatest finite float. -/
theorem Window.suits_cooldown_iff :
    w.suits .cooldown = true ↔
      0.0 ≤ w.min ∧ w.min ≤ w.max ∧ w.min.isFinite = true ∧ w.max.isFinite = true := by
  simp only [Window.suits, Bool.and_eq_true, decide_eq_true_eq]
  constructor
  · rintro ⟨⟨⟨⟨hmin, hmax⟩, hpos⟩, hle⟩, _⟩
    exact ⟨hpos, hle, hmin, hmax⟩
  · rintro ⟨hpos, hle, hmin, hmax⟩
    have hnonneg := nonnegative_of_le (nonnegative_of_le (x := 0.0) (.zero .positive) hpos) hle
    obtain ⟨hgreatest, hcode⟩ := magnitude_ofBits (c := 0x7f7fffff) (by decide)
    refine ⟨⟨⟨⟨hmin, hmax⟩, hpos⟩, hle⟩, (le_iff_code hnonneg hgreatest.nonnegative).mpr ?_⟩
    rw [hcode]
    exact Nat.le_of_lt_succ ((isFinite_iff_code hnonneg).mp hmax)

structure TransitionSpec.Bounded {κ : Type} (spec : TransitionSpec κ) : Prop where
  probability : 0.0 ≤ spec.probability.min ∧ spec.probability.min ≤ spec.probability.max ∧
    spec.probability.max ≤ percentMax
  cooldown : 0.0 ≤ spec.cooldown.min ∧ spec.cooldown.min ≤ spec.cooldown.max
  finite : spec.cooldown.min.isFinite = true ∧ spec.cooldown.max.isFinite = true

theorem TransitionSpec.suitable_iff {κ : Type} {spec : TransitionSpec κ} :
    spec.Suitable ↔ spec.Bounded := by
  constructor
  · intro h
    obtain ⟨hpos, hle, hfinite⟩ := Window.suits_cooldown_iff.mp h.cooldown
    exact ⟨Window.suits_probability_iff.mp h.probability, ⟨hpos, hle⟩, hfinite⟩
  · intro h
    exact ⟨Window.suits_probability_iff.mpr h.probability,
      Window.suits_cooldown_iff.mpr ⟨h.cooldown.1, h.cooldown.2, h.finite⟩⟩

end Windows

variable {κ : Type}

/-! ## Ports and options -/

def Node.Offers (n : Node κ) : Port → Prop
  | .out => n.kind = .entry ∨ n.kind = .action
  | .whenTrue => n.kind = .condition
  | .whenFalse => n.kind = .condition
  | .body => n.kind = .loop
  | .finish => n.kind = .loop
  | .branch index => n.kind = .utility ∧ index < n.behaviour.branchCount

theorem Node.offers_iff {n : Node κ} {port : Port} :
    n.Offers port ↔ n.behaviour.hasPort port = true := by
  rcases n with ⟨label, behaviour, _, _, _⟩
  cases behaviour <;> cases port <;>
    simp [Node.Offers, Node.kind, Behaviour.kind, Behaviour.hasPort, Behaviour.branchCount]

/-- What an option asks for that not all kinds of nodes have. -/
def NodeOption.special : NodeOption κ → Option SpecialOption
  | .branch _ => some .branch
  | .reverse _ => some .reverse
  | _ => none

def NodeKind.accepts : NodeKind → SpecialOption → Bool
  | .utility, .branch => true
  | .condition, .reverse => true
  | .loop, .reverse => true
  | _, _ => false

def NodeOption.Allowed (option : NodeOption κ) (kind : NodeKind) : Prop :=
  ∀ special, option.special = some special → kind.accepts special = true

namespace Node

variable {n : Node κ} {option : NodeOption κ} {options : List (NodeOption κ)} {special : SpecialOption}

theorem apply_of_allowed (h : option.Allowed n.kind) :
    ∃ n', n.apply option = .ok n' ∧ n'.label = n.label ∧ n'.kind = n.kind := by
  rcases n with ⟨label, behaviour, capturesControl, before, after⟩
  cases option with
  | branch branch =>
      have haccepts := h .branch rfl
      cases behaviour with
      | utility branches => exact ⟨_, rfl, rfl, rfl⟩
      | _ => cases haccepts
  | reverse reverse =>
      have haccepts := h .reverse rfl
      cases behaviour with
      | condition guard old => exact ⟨_, rfl, rfl, rfl⟩
      | loop guard old => exact ⟨_, rfl, rfl, rfl⟩
      | _ => cases haccepts
  | _ => exact ⟨_, rfl, rfl, rfl⟩

theorem apply_of_refused (hspecial : option.special = some special)
    (hrefused : n.kind.accepts special = false) : n.apply option = .error special := by
  rcases n with ⟨label, behaviour, capturesControl, before, after⟩
  cases option <;> cases hspecial <;> cases behaviour <;> first | rfl | cases hrefused

theorem applyAll_of_allowed (h : ∀ option ∈ options, option.Allowed n.kind) :
    ∃ n', n.applyAll options = .ok n' ∧ n'.label = n.label ∧ n'.kind = n.kind := by
  induction options generalizing n with
  | nil => exact ⟨n, rfl, rfl, rfl⟩
  | cons option options ih =>
      obtain ⟨m, hm, hlabel, hkind⟩ := apply_of_allowed (h option List.mem_cons_self)
      obtain ⟨n', hn', hlabel', hkind'⟩ :=
        ih (n := m) fun o ho => hkind ▸ h o (List.mem_cons_of_mem _ ho)
      refine ⟨n', ?_, hlabel'.trans hlabel, hkind'.trans hkind⟩
      rw [applyAll, hm]
      exact hn'

/-- The first option that is refused is the one that is named. -/
theorem applyAll_of_refused {after : List (NodeOption κ)} (h : ∀ option ∈ options, option.Allowed n.kind)
    (hspecial : option.special = some special) (hrefused : n.kind.accepts special = false) :
    n.applyAll (options ++ option :: after) = .error special := by
  induction options generalizing n with
  | nil =>
      rw [List.nil_append, applyAll, apply_of_refused hspecial hrefused]
      rfl
  | cons earlier options ih =>
      obtain ⟨m, hm, _, hkind⟩ := apply_of_allowed (h earlier List.mem_cons_self)
      rw [List.cons_append, applyAll, hm]
      exact ih (fun o ho => hkind ▸ h o (List.mem_cons_of_mem _ ho)) (hkind ▸ hrefused)

end Node

/-- Either all options are allowed, or there is a first one that is not. -/
theorem allowed_or_refused (options : List (NodeOption κ)) (kind : NodeKind) :
    (∀ option ∈ options, option.Allowed kind) ∨
      ∃ before option after special, options = before ++ option :: after ∧
        (∀ option ∈ before, option.Allowed kind) ∧ option.special = some special ∧
        kind.accepts special = false := by
  induction options with
  | nil => exact .inl (by simp)
  | cons option options ih =>
      by_cases hallowed : option.Allowed kind
      · rcases ih with hall | ⟨before, refused, after, special, rfl, hbefore, hrefused⟩
        · exact .inl (List.forall_mem_cons.mpr ⟨hallowed, hall⟩)
        · exact .inr ⟨option :: before, refused, after, special, rfl,
            List.forall_mem_cons.mpr ⟨hallowed, hbefore⟩, hrefused⟩
      · simp only [NodeOption.Allowed, not_forall, Bool.not_eq_true] at hallowed
        obtain ⟨special, hspecial, hrefused⟩ := hallowed
        exact .inr ⟨[], option, options, special, rfl, by simp, hspecial, hrefused⟩

/-! ## Steps -/

namespace Builder

variable {b b' : Builder κ}

section Add

variable {label : String} {behaviour : Behaviour κ} {options : List (NodeOption κ)}

theorem add_of_allowed (label : String) (hroom : b.nodes.size < identifierCount)
    (h : ∀ option ∈ options, option.Allowed behaviour.kind) :
    ∃ n : Node κ, n.label = label ∧ n.kind = behaviour.kind ∧
      add label behaviour options b = .ok ⟨b.nodes.size⟩ (b.pushNode n) := by
  obtain ⟨n, hn, hlabel, hkind⟩ := Node.applyAll_of_allowed (n := { label, behaviour }) h
  refine ⟨n, hlabel, hkind, ?_⟩
  have hid : NodeId.ofNat? b.nodes.size = some ⟨b.nodes.size⟩ := if_pos hroom
  unfold add
  rw [hn]
  refine Building.bind_eq_ok_iff.mpr ⟨b, b, rfl, ?_⟩
  exact Building.bind_eq_ok_iff.mpr ⟨_, b, demand_eq_ok_iff.mpr ⟨hid, rfl⟩, rfl⟩

theorem add_of_refused {option : NodeOption κ} {after : List (NodeOption κ)} {special : SpecialOption}
    (h : ∀ option ∈ options, option.Allowed behaviour.kind) (hspecial : option.special = some special)
    (hrefused : behaviour.kind.accepts special = false) :
    add label behaviour (options ++ option :: after) b =
      .error (.optionMismatch label behaviour.kind special) b := by
  rw [add, Node.applyAll_of_refused (n := { label, behaviour }) h hspecial hrefused]
  rfl

theorem add_ok_iff (hroom : b.nodes.size < identifierCount) :
    (∃ id b', add label behaviour options b = .ok id b') ↔
      ∀ option ∈ options, option.Allowed behaviour.kind := by
  constructor
  · rintro ⟨id, b', hadd⟩
    rcases allowed_or_refused options behaviour.kind with
      hall | ⟨_, _, _, _, rfl, hbefore, hspecial, hrefused⟩
    · exact hall
    · rw [add_of_refused hbefore hspecial hrefused] at hadd
      cases hadd
  · intro hall
    obtain ⟨n, _, _, hadd⟩ := add_of_allowed label hroom hall
    exact ⟨_, _, hadd⟩

end Add

theorem connect_ok_iff {start finish : NodeId} {port : Port} {spec : TransitionSpec κ}
    {id : TransitionId} (hroom : b.transitions.size < identifierCount) :
    connect start port finish spec b = .ok id b' ↔
      (∃ source, b.nodes[start.index]? = some source ∧ source.Offers port) ∧
        finish.index < b.nodes.size ∧ spec.Bounded ∧ id = ⟨b.transitions.size⟩ ∧
        b' = b.enrol id { spec with start, port, finish } := by
  have hid : TransitionId.ofNat? b.transitions.size = some ⟨b.transitions.size⟩ := if_pos hroom
  rw [connect_eq_ok_iff, hid]
  simp only [← Node.offers_iff, TransitionSpec.suitable_iff]
  constructor
  · rintro ⟨source, target, hsource, htarget, hoffers, hbounded, hid, rfl⟩
    exact ⟨⟨source, hsource, hoffers⟩, (Array.getElem?_eq_some_iff.mp htarget).1, hbounded,
      (Option.some.inj hid).symm, rfl⟩
  · rintro ⟨⟨source, hsource, hoffers⟩, hfinish, hbounded, rfl, rfl⟩
    exact ⟨source, _, hsource, Array.getElem?_eq_getElem hfinish, hoffers, hbounded, rfl, rfl⟩

theorem addBranch_ok_iff {id : NodeId} {branch : Branch κ} :
    (∃ port b', addBranch id branch b = .ok port b') ↔
      ∃ n, b.nodes[id.index]? = some n ∧ n.kind = .utility := by
  constructor
  · rintro ⟨port, b', h⟩
    obtain ⟨n, branches, hn, hbehaviour, _⟩ := addBranch_eq_ok_iff.mp h
    refine ⟨n, hn, ?_⟩
    rw [Node.kind, hbehaviour]
    rfl
  · rintro ⟨n, hn, hkind⟩
    cases hbehaviour : n.behaviour with
    | utility branches =>
        exact ⟨_, _, addBranch_eq_ok_iff.mpr ⟨n, branches, hn, hbehaviour, rfl, rfl⟩⟩
    | _ =>
        rw [Node.kind, hbehaviour] at hkind
        cases hkind

end Builder

/-! ## Graphs -/

def Node.Pointless (n : Node κ) : Prop := n.kind = .utility ∧ n.behaviour.branchCount = 0

namespace Builder

variable {b : Builder κ}

theorem isEmptyUtility_iff {n : Node κ} : isEmptyUtility n = true ↔ n.Pointless := by
  simp [isEmptyUtility, Node.Pointless]

theorem nodesWhere_eq_nil_iff {nodes : Array (Node κ)} {test : Node κ → Bool} :
    nodesWhere nodes test = [] ↔ ∀ (i : Nat) (n : Node κ), nodes[i]? = some n → ¬test n = true := by
  simp only [nodesWhere, List.map_eq_nil_iff, List.filter_eq_nil_iff, List.mem_range, Option.any_eq_true,
    not_exists, not_and]
  exact ⟨fun h i n hn => h i (Array.getElem?_eq_some_iff.mp hn).1 n hn, fun h i _ n hn => h i n hn⟩

theorem head?_nodesWhere {nodes : Array (Node κ)} {test : Node κ → Bool} {i : Nat} {n : Node κ}
    (hn : nodes[i]? = some n) (htest : test n = true)
    (hfirst : ∀ (j : Nat) (m : Node κ), j < i → nodes[j]? = some m → ¬test m = true) :
    (nodesWhere nodes test).head? = some ⟨i⟩ := by
  have hfind : (List.range nodes.size).find? (fun i => (nodes[i]?).any test) = some i := by
    rw [List.find?_range_eq_some, List.mem_range, hn]
    refine ⟨htest, (Array.getElem?_eq_some_iff.mp hn).1, fun j hj => ?_⟩
    cases hm : nodes[j]? with
    | none => rfl
    | some m => simpa using hfirst j m hj hm
  rw [nodesWhere, List.head?_map, List.head?_filter, hfind]
  rfl

theorem build_of_noDepth (h : b.config.maxTickDepth = 0) : b.build = .error (.config .noDepth) := by
  unfold build
  rw [Config.validate, if_pos h]
  rfl

theorem build_eq (hdepth : 1 ≤ b.config.maxTickDepth) :
    b.build =
      match nodesWhere b.nodes isEmptyUtility with
      | [] => .ok b.graph
      | id :: _ => .error (.emptyUtility id ((b.nodes[id.index]?).elim "" Node.label)) := by
  unfold build
  rw [Config.validate, if_neg (Nat.ne_of_gt hdepth)]
  rfl

/-- The first utility that is pointless is named. -/
theorem build_of_pointless (hdepth : 1 ≤ b.config.maxTickDepth) {i : Nat} {n : Node κ}
    (hn : b.nodes[i]? = some n) (hpointless : n.Pointless)
    (hfirst : ∀ (j : Nat) (m : Node κ), j < i → b.nodes[j]? = some m → ¬m.Pointless) :
    b.build = .error (.emptyUtility ⟨i⟩ n.label) := by
  have hhead := head?_nodesWhere hn (isEmptyUtility_iff.mpr hpointless)
    fun j m hj hm => mt isEmptyUtility_iff.mp (hfirst j m hj hm)
  rw [build_eq hdepth]
  split
  next hnone => rw [hnone] at hhead; cases hhead
  next id ids hsome =>
    rw [hsome] at hhead
    cases hhead
    rw [hn]
    rfl

theorem build_ok_iff :
    (∃ g, b.build = .ok g) ↔
      1 ≤ b.config.maxTickDepth ∧ ∀ (i : Nat) (n : Node κ), b.nodes[i]? = some n → ¬n.Pointless := by
  have hnone : nodesWhere b.nodes isEmptyUtility = [] ↔
      ∀ (i : Nat) (n : Node κ), b.nodes[i]? = some n → ¬n.Pointless := by
    simp only [nodesWhere_eq_nil_iff, isEmptyUtility_iff]
  rw [← hnone]
  constructor
  · rintro ⟨g, hbuild⟩
    have hdepth : 1 ≤ b.config.maxTickDepth := by
      refine Nat.pos_of_ne_zero fun hzero => ?_
      rw [build_of_noDepth hzero] at hbuild
      cases hbuild
    rw [build_eq hdepth] at hbuild
    split at hbuild
    next hnil => exact ⟨hdepth, hnil⟩
    next => cases hbuild
  · rintro ⟨hdepth, hnil⟩
    rw [build_eq hdepth, hnil]
    exact ⟨_, rfl⟩

end Builder

/-! ## Requests -/

/-- The element that a request cannot do without. -/
def Operation.element : Operation → Option Element
  | .setActive id => some (.node id)
  | .resumeAt id _ => some (.node id)
  | .relax _ e => some e
  | _ => none

/-- A request that names an unknown element or a time that is no clock reading. -/
def Operation.Faulty (operation : Operation) (g : Graph κ) : Prop :=
  (∃ e, operation.element = some e ∧ g.hasElement e = false) ∨
    ∃ id due, operation = .resumeAt id due ∧ due.isFinite = false

namespace Session

variable {τ ρ : Type} {g : Graph κ} {s s' : Session κ τ ρ} {operation : Operation} {cause : GraphError}

theorem provided_of_unknown {e : Element} (h : g.hasElement e = false)
    (act : Session κ τ ρ → Response × Session κ τ ρ) :
    s.provided g e act = (.refused (Graph.unknown e), s) :=
  if_neg (by rw [h]; exact Bool.false_ne_true)

theorem provided_of_known {e : Element} (h : g.hasElement e = true)
    (act : Session κ τ ρ → Response × Session κ τ ρ) : s.provided g e act = act s :=
  if_pos h

theorem run_ne_refused (walk : Walk κ τ ρ Unit) : s.run walk ≠ (.refused cause, s') := by
  unfold run
  split <;> nofun

variable [Clock κ τ] [RandomSource ρ]

theorem perform_of_unknown {e : Element} (helement : operation.element = some e)
    (hunknown : g.hasElement e = false) :
    s.perform g operation = (.refused (Graph.unknown e), s) := by
  cases operation <;> cases helement <;> rw [perform] <;> exact provided_of_unknown hunknown _

/-- A request with a fault is refused and changes nothing. -/
theorem perform_of_faulty (h : operation.Faulty g) :
    ∃ cause, s.perform g operation = (.refused cause, s) := by
  rcases h with ⟨e, helement, hunknown⟩ | ⟨id, due, rfl, hinfinite⟩
  · exact ⟨_, perform_of_unknown helement hunknown⟩
  · cases hknown : g.hasElement (.node id) with
    | false => exact ⟨_, perform_of_unknown rfl hknown⟩
    | true =>
        refine ⟨.invalidResumeTime due, ?_⟩
        rw [perform, provided_of_known hknown, hinfinite]
        rfl

/-- No other request is refused. -/
theorem faulty_of_refused (h : s.perform g operation = (.refused cause, s')) : operation.Faulty g := by
  by_contra hsound
  simp only [Operation.Faulty, not_or, not_exists, not_and, Bool.not_eq_false] at hsound
  obtain ⟨hknown, hfinite⟩ := hsound
  cases operation with
  | tick => exact run_ne_refused _ h
  | reset => exact run_ne_refused _ h
  | cancel id => cases h
  | setActive id =>
      rw [perform, provided_of_known (hknown _ rfl)] at h
      cases h
  | resumeAt id due =>
      rw [perform, provided_of_known (hknown _ rfl), if_pos (hfinite id due rfl)] at h
      cases h
  | relax flag e =>
      rw [perform, provided_of_known (hknown _ rfl)] at h
      cases h

theorem eq_of_refused (h : s.perform g operation = (.refused cause, s')) : s' = s := by
  have hfaulty := faulty_of_refused h
  obtain ⟨cause', hsame⟩ := perform_of_faulty (s := s) hfaulty
  rw [hsame] at h
  cases h
  rfl

end Session

/-! ## Results -/

/-- What a builder accepts, and what it answers to the rest. -/
structure Builder.Discerning (b : Builder κ) : Prop where
  connect : ∀ (start : NodeId) (port : Port) (finish : NodeId) (spec : TransitionSpec κ)
    (id : TransitionId) (b' : Builder κ), Builder.connect start port finish spec b = .ok id b' ↔
      (∃ source, b.nodes[start.index]? = some source ∧ source.Offers port) ∧
        finish.index < b.nodes.size ∧ spec.Bounded ∧ id = ⟨b.transitions.size⟩ ∧
        b' = b.enrol id { spec with start, port, finish }
  add : ∀ (label : String) (behaviour : Behaviour κ) (options : List (NodeOption κ)),
    (∃ id b', Builder.add label behaviour options b = .ok id b') ↔
      ∀ option ∈ options, option.Allowed behaviour.kind
  /-- A node that is added has the next identifier. -/
  added : ∀ (label : String) (behaviour : Behaviour κ) (options : List (NodeOption κ)),
    (∀ option ∈ options, option.Allowed behaviour.kind) →
      ∃ n : Node κ, n.label = label ∧ n.kind = behaviour.kind ∧
        Builder.add label behaviour options b = .ok ⟨b.nodes.size⟩ (b.pushNode n)
  /-- The first option that the kind does not have is named. -/
  add_refused : ∀ (label : String) (behaviour : Behaviour κ) (before : List (NodeOption κ))
    (option : NodeOption κ) (after : List (NodeOption κ)) (special : SpecialOption),
    (∀ option ∈ before, option.Allowed behaviour.kind) → option.special = some special →
      behaviour.kind.accepts special = false →
      Builder.add label behaviour (before ++ option :: after) b =
        .error (.optionMismatch label behaviour.kind special) b
  addBranch : ∀ (id : NodeId) (branch : Branch κ),
    (∃ port b', Builder.addBranch id branch b = .ok port b') ↔
      ∃ n, b.nodes[id.index]? = some n ∧ n.kind = .utility
  build : (∃ g, b.build = .ok g) ↔
    1 ≤ b.config.maxTickDepth ∧ ∀ (i : Nat) (n : Node κ), b.nodes[i]? = some n → ¬n.Pointless
  build_noDepth : b.config.maxTickDepth = 0 → b.build = .error (.config .noDepth)
  /-- The first utility without branches is named. -/
  build_pointless : 1 ≤ b.config.maxTickDepth → ∀ (i : Nat) (n : Node κ), b.nodes[i]? = some n →
    n.Pointless → (∀ (j : Nat) (m : Node κ), j < i → b.nodes[j]? = some m → ¬m.Pointless) →
      b.build = .error (.emptyUtility ⟨i⟩ n.label)
  /-- A step that fails leaves the builder as it was. -/
  unchanged : ∀ (step : BuildStep κ) (cause : GraphError), (b.take step).1 = .error cause →
    (b.take step).2 = b

/-- A builder with identifiers left accepts just what fits, and names the first fault of the rest;
requests to a session are refused just for a fault.  What fails or is refused changes nothing. -/
theorem accepted_or_unchanged {τ ρ : Type} [Clock κ τ] [RandomSource ρ] (b : Builder κ)
    (hnodes : b.nodes.size < identifierCount) (htransitions : b.transitions.size < identifierCount) :
    b.Discerning ∧
      ∀ (g : Graph κ) (s : Session κ τ ρ) (operation : Operation),
        ((∃ cause s', s.perform g operation = (.refused cause, s')) ↔ operation.Faulty g) ∧
          ∀ cause s', s.perform g operation = (.refused cause, s') → s' = s := by
  refine ⟨?_, fun g s operation => ⟨⟨?_, ?_⟩, fun cause s' => Session.eq_of_refused⟩⟩
  · exact {
      connect := fun start port finish spec id b' => Builder.connect_ok_iff htransitions
      add := fun label behaviour options => Builder.add_ok_iff hnodes
      added := fun label behaviour options => Builder.add_of_allowed label hnodes
      add_refused := fun label behaviour before option after special => Builder.add_of_refused
      addBranch := fun id branch => Builder.addBranch_ok_iff
      build := Builder.build_ok_iff
      build_noDepth := Builder.build_of_noDepth
      build_pointless := fun hdepth i n => Builder.build_of_pointless hdepth
      unchanged := fun step cause => Builder.take_of_error }
  · rintro ⟨cause, s', hrefused⟩
    exact Session.faulty_of_refused hrefused
  · intro hfaulty
    obtain ⟨cause, hrefused⟩ := Session.perform_of_faulty (s := s) hfaulty
    exact ⟨cause, s, hrefused⟩

def confusedOptions : List (NodeOption Unit) :=
  [.reverse true, .branch ⟨.noArgs (pure (.ok 0.0)), .identity⟩, .captureControl true]

theorem confused_loop_refused :
    Builder.add "loop" (.loop (.noArgs (pure (.ok true))) false) confusedOptions {} =
        .error (.optionMismatch "loop" .loop .branch) {} ∧
      ∃ b', Builder.connect entryNode .out entryNode {} ({} : Builder Unit) = .ok ⟨0⟩ b' := by
  obtain ⟨hdiscerning, _⟩ := accepted_or_unchanged (τ := ManualClock) (ρ := Xoshiro) ({} : Builder Unit)
    (by decide) (by decide)
  refine ⟨hdiscerning.add_refused "loop" _ [.reverse true] _ [.captureControl true] .branch ?_ rfl rfl,
    _,
    (hdiscerning.connect _ _ _ _ _ _).mpr ⟨⟨.entry, rfl, .inl rfl⟩, by decide, ?_, rfl, rfl⟩⟩
  · intro option hoption special hspecial
    obtain rfl := List.mem_singleton.mp hoption
    cases hspecial
    rfl
  · exact ⟨by decide, by decide, by decide⟩

end BehaviourGraph
