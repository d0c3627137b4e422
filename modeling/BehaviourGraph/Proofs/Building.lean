import BehaviourGraph.Graph.Builder

/-!
# What the steps of building do

Every step reads before it writes.  A step that is carried out adds a node, amends a node or connects two;
a step that fails has written nothing.
-/

namespace BehaviourGraph

variable {κ α β : Type}

/-! ## Parts of a step -/

namespace Building

variable {b b' : Builder κ} {x : Building κ α} {f : α → Building κ β}

theorem bind_eq_ok_iff {r : β} :
    (x >>= f) b = .ok r b' ↔ ∃ a b₁, x b = .ok a b₁ ∧ f a b₁ = .ok r b' := by
  simp only [bind, EStateM.bind]
  cases x b with
  | error cause b₁ => simp
  | ok a b₁ =>
      constructor
      · exact fun h => ⟨a, b₁, rfl, h⟩
      · rintro ⟨_, _, hfirst, h⟩
        cases hfirst
        exact h

theorem map_eq_ok_iff {h : α → β} {r : β} :
    (h <$> x) b = .ok r b' ↔ ∃ a, x b = .ok a b' ∧ h a = r := by
  simp only [Functor.map, EStateM.map]
  cases x b with
  | error cause b₁ => simp
  | ok a b₁ =>
      constructor
      · rintro ⟨⟩
        exact ⟨a, rfl, rfl⟩
      · rintro ⟨_, hfirst, rfl⟩
        cases hfirst
        rfl

/-- A part that has written nothing if it fails. -/
def Cautious (x : Building κ α) : Prop := ∀ b cause b', x b = .error cause b' → b' = b

structure Reads (x : Building κ α) : Prop where
  cautious : Cautious x
  same : ∀ b a b', x b = .ok a b' → b' = b

theorem Cautious.map (hx : Cautious x) (h : α → β) : Cautious (h <$> x) := by
  intro b cause b' herror
  simp only [Functor.map, EStateM.map] at herror
  split at herror
  next => cases herror
  next hfirst =>
    cases herror
    exact hx _ _ _ hfirst

/-- After it has only read, a step may write, as long as it does not fail any more. -/
theorem Reads.bind (hx : Reads x) (hf : ∀ a, Cautious (f a)) : Cautious (x >>= f) := by
  intro b cause b' herror
  simp only [Bind.bind, EStateM.bind] at herror
  split at herror
  next hfirst =>
    obtain rfl := hx.same _ _ _ hfirst
    exact hf _ _ _ _ herror
  next hfirst =>
    cases herror
    exact hx.cautious _ _ _ hfirst

theorem reads_get : Reads (get : Building κ (Builder κ)) where
  cautious _ _ _ h := nomatch h
  same _ _ _ h := by cases h; rfl

theorem cautious_throw (cause : GraphError) : Cautious (throw cause : Building κ α) := by
  rintro b _ b' ⟨⟩
  rfl

end Building

open Building

/-! ## Windows and nodes -/

theorem Window.validate_eq_ok_iff {w : Window} {use : WindowUse} :
    w.validate use = .ok () ↔ w.suits use = true := by
  unfold validate
  split
  next hsuits => exact iff_of_true rfl hsuits
  next hunsuited => exact iff_of_false nofun hunsuited

structure TransitionSpec.Suitable (spec : TransitionSpec κ) : Prop where
  probability : spec.probability.suits .probability = true
  cooldown : spec.cooldown.suits .cooldown = true

theorem NodeId.eq_of_ofNat? {n : Nat} {id : NodeId} (h : NodeId.ofNat? n = some id) : id = ⟨n⟩ := by
  unfold NodeId.ofNat? at h
  split at h
  next => exact (Option.some.inj h).symm
  next => cases h

theorem TransitionId.eq_of_ofNat? {n : Nat} {id : TransitionId} (h : TransitionId.ofNat? n = some id) :
    id = ⟨n⟩ := by
  unfold TransitionId.ofNat? at h
  split at h
  next => exact (Option.some.inj h).symm
  next => cases h

/-- What is left of a node where it is amended: all but its options and further branches. -/
structure Node.Amends (n n' : Node κ) : Prop where
  label : n'.label = n.label
  kind : n'.kind = n.kind
  ports : ∀ port, n.behaviour.hasPort port = true → n'.behaviour.hasPort port = true
  outgoing : n'.outgoing = n.outgoing
  exits : n'.exits = n.exits

namespace Node

variable {n n' : Node κ}

/-- A node does not depend on its options. -/
theorem amends_options (n : Node κ) (capturesControl : Bool) (preTick postTick : Option (Hook κ)) :
    n.Amends { n with capturesControl, preTick, postTick } := ⟨rfl, rfl, fun _ h => h, rfl, rfl⟩

theorem Amends.trans {n'' : Node κ} (h : n.Amends n') (h' : n'.Amends n'') : n.Amends n'' where
  label := h'.label.trans h.label
  kind := h'.kind.trans h.kind
  ports port hport := h'.ports port (h.ports port hport)
  outgoing := h'.outgoing.trans h.outgoing
  exits := h'.exits.trans h.exits

theorem amends_branch {branches : List (Branch κ)} (hn : n.behaviour = .utility branches)
    (branch : Branch κ) : n.Amends { n with behaviour := .utility (branches ++ [branch]) } where
  label := rfl
  kind := by simp [kind, Behaviour.kind, hn]
  ports port hport := by
    cases port <;> simp_all [Behaviour.hasPort]
    omega
  outgoing := rfl
  exits := rfl

theorem amends_apply {option : NodeOption κ} (h : n.apply option = .ok n') : n.Amends n' := by
  cases option with
  | branch branch =>
      cases hn : n.behaviour <;> simp only [apply, hn, reduceCtorEq, Except.ok.injEq] at h
      exact h ▸ amends_branch hn branch
  | reverse reverse =>
      cases hn : n.behaviour <;> simp only [apply, hn, reduceCtorEq, Except.ok.injEq] at h
      all_goals
        subst h
        exact ⟨rfl, by simp [kind, Behaviour.kind, hn],
          fun port hport => by cases port <;> simp_all [Behaviour.hasPort], rfl, rfl⟩
  | captureControl capture =>
      cases h
      exact amends_options n _ _ _
  | preTick hook =>
      cases h
      exact amends_options n _ _ _
  | postTick hook =>
      cases h
      exact amends_options n _ _ _

theorem amends_applyAll {options : List (NodeOption κ)} (h : n.applyAll options = .ok n') :
    n.Amends n' := by
  induction options generalizing n with
  | nil =>
      cases h
      exact amends_options _ _ _ _
  | cons option options ih =>
      cases hopt : n.apply option with
      | error e => simp [applyAll, hopt, bind, Except.bind] at h
      | ok m =>
          simp only [applyAll, hopt, bind, Except.bind] at h
          exact (amends_apply hopt).trans (ih h)

end Node

namespace Builder

variable {b b' : Builder κ}

/-! ## Reading -/

theorem demand_eq_ok_iff {cause : GraphError} {a? : Option α} {a : α} :
    demand cause a? b = .ok a b' ↔ a? = some a ∧ b = b' := by
  cases a? with
  | none => exact ⟨nofun, nofun⟩
  | some a' =>
      constructor
      · rintro ⟨⟩
        exact ⟨rfl, rfl⟩
      · rintro ⟨⟨⟩, rfl⟩
        rfl

theorem reads_demand (cause : GraphError) (a? : Option α) : Reads (demand cause a? : Building κ α) where
  cautious := by
    cases a? with
    | none => exact cautious_throw cause
    | some a => exact fun _ _ _ => nofun
  same _ _ _ h := (demand_eq_ok_iff.mp h).2.symm

theorem node_eq_ok_iff {id : NodeId} {n : Node κ} :
    node id b = .ok n b' ↔ b.nodes[id.index]? = some n ∧ b = b' :=
  demand_eq_ok_iff (b := b)

theorem reads_node (id : NodeId) : Reads (node id : Building κ (Node κ)) where
  cautious := reads_get.bind fun _ => (reads_demand _ _).cautious
  same _ _ _ h := (node_eq_ok_iff.mp h).2.symm

theorem checkWindow_eq_ok_iff {w : Window} {use : WindowUse} {u : Unit} :
    checkWindow w use b = .ok u b' ↔ w.suits use = true ∧ b = b' := by
  rw [← Window.validate_eq_ok_iff]
  unfold checkWindow
  cases w.validate use with
  | ok u =>
      constructor
      · rintro ⟨⟩
        exact ⟨rfl, rfl⟩
      · rintro ⟨_, rfl⟩
        rfl
  | error cause => exact ⟨nofun, nofun⟩

theorem reads_checkWindow (w : Window) (use : WindowUse) :
    Reads (checkWindow w use : Building κ Unit) where
  cautious := by
    unfold checkWindow
    split
    next => exact fun _ _ _ => nofun
    next => exact cautious_throw _
  same _ _ _ h := (checkWindow_eq_ok_iff.mp h).2.symm

/-! ## Writing -/

/-- What a connection writes: two lists of the start, and the array of all transitions. -/
def enrol (id : TransitionId) (t : Transition κ) (b : Builder κ) : Builder κ :=
  pushTransition t (pushOutgoing t.start id (pushExit t.start t.port id b))

theorem nodes_enrol (id : TransitionId) (t : Transition κ) (b : Builder κ) :
    (b.enrol id t).nodes =
      b.nodes.modify t.start.index fun n =>
        { n with outgoing := n.outgoing ++ [id], exits := n.exits.enter t.port id } := by
  refine Array.ext_getElem? fun i => ?_
  simp only [enrol, pushTransition, pushOutgoing, pushExit, modifyNode, Array.getElem?_modify]
  split
  next => simp only [Option.map_map]; rfl
  next => rfl

theorem add_eq_ok {label : String} {behaviour : Behaviour κ} {options : List (NodeOption κ)} {id : NodeId}
    (h : add label behaviour options b = .ok id b') :
    ∃ n : Node κ, Node.Amends { label, behaviour } n ∧ id = ⟨b.nodes.size⟩ ∧ b' = pushNode n b := by
  unfold add at h
  cases hn : ({ label, behaviour } : Node κ).applyAll options with
  | error option =>
      rw [hn] at h
      cases h
  | ok n =>
      rw [hn] at h
      obtain ⟨_, _, hget, h⟩ := bind_eq_ok_iff.mp h
      cases hget
      obtain ⟨_, _, hdemand, h⟩ := bind_eq_ok_iff.mp h
      obtain ⟨hid, rfl⟩ := demand_eq_ok_iff.mp hdemand
      cases h
      exact ⟨n, Node.amends_applyAll hn, NodeId.eq_of_ofNat? hid, rfl⟩

theorem cautious_add (label : String) (behaviour : Behaviour κ) (options : List (NodeOption κ)) :
    Cautious (add label behaviour options) := by
  unfold add
  split
  next => exact cautious_throw _
  next => exact reads_get.bind fun b => (reads_demand _ _).bind fun id => fun _ _ _ => nofun

theorem addBranch_eq_ok_iff {id : NodeId} {branch : Branch κ} {port : Port} :
    addBranch id branch b = .ok port b' ↔
      ∃ n branches, b.nodes[id.index]? = some n ∧ n.behaviour = .utility branches ∧
        port = .branch branches.length ∧
        b' = b.modifyNode id fun n => { n with behaviour := .utility (branches ++ [branch]) } := by
  constructor
  · intro h
    obtain ⟨n, _, hread, h⟩ := bind_eq_ok_iff.mp h
    obtain ⟨hn, rfl⟩ := node_eq_ok_iff.mp hread
    cases hbehaviour : n.behaviour with
    | utility branches =>
        rw [hbehaviour] at h
        cases h
        exact ⟨n, branches, hn, hbehaviour, rfl, rfl⟩
    | _ =>
        rw [hbehaviour] at h
        cases h
  · rintro ⟨n, branches, hn, hbehaviour, rfl, rfl⟩
    refine bind_eq_ok_iff.mpr ⟨n, b, node_eq_ok_iff.mpr ⟨hn, rfl⟩, ?_⟩
    rw [hbehaviour]
    rfl

theorem cautious_addBranch (id : NodeId) (branch : Branch κ) : Cautious (addBranch id branch) := by
  refine (reads_node id).bind fun n => ?_
  cases hbehaviour : n.behaviour with
  | utility branches => exact fun _ _ _ => nofun
  | _ => exact cautious_throw _

theorem setHook_eq_ok {id : NodeId} {f : Node κ → Node κ} {u : Unit} (h : setHook id f b = .ok u b') :
    b' = modifyNode id f b := by
  obtain ⟨n, _, hread, h⟩ := bind_eq_ok_iff.mp h
  obtain ⟨_, rfl⟩ := node_eq_ok_iff.mp hread
  cases h
  rfl

theorem cautious_setHook (id : NodeId) (f : Node κ → Node κ) : Cautious (setHook id f) :=
  (reads_node id).bind fun _ => fun _ _ _ => nofun

/-- A connection is made just if both ends exist, the start has the port, the windows suit and there is
an identifier left. -/
theorem connect_eq_ok_iff {start finish : NodeId} {port : Port} {spec : TransitionSpec κ}
    {id : TransitionId} :
    connect start port finish spec b = .ok id b' ↔
      ∃ source target, b.nodes[start.index]? = some source ∧ b.nodes[finish.index]? = some target ∧
        source.behaviour.hasPort port = true ∧ spec.Suitable ∧
        TransitionId.ofNat? b.transitions.size = some id ∧
        b' = b.enrol id { spec with start, port, finish } := by
  constructor
  · intro h
    obtain ⟨target, _, hread, h⟩ := bind_eq_ok_iff.mp h
    obtain ⟨htarget, rfl⟩ := node_eq_ok_iff.mp hread
    obtain ⟨source, _, hread, h⟩ := bind_eq_ok_iff.mp h
    obtain ⟨hsource, rfl⟩ := node_eq_ok_iff.mp hread
    obtain ⟨_, _, hcheck, h⟩ := bind_eq_ok_iff.mp h
    obtain ⟨hprobability, rfl⟩ := checkWindow_eq_ok_iff.mp hcheck
    obtain ⟨_, _, hcheck, h⟩ := bind_eq_ok_iff.mp h
    obtain ⟨hcooldown, rfl⟩ := checkWindow_eq_ok_iff.mp hcheck
    obtain ⟨_, _, hget, h⟩ := bind_eq_ok_iff.mp h
    cases hget
    obtain ⟨_, _, hdemand, h⟩ := bind_eq_ok_iff.mp h
    obtain ⟨hid, rfl⟩ := demand_eq_ok_iff.mp hdemand
    split at h
    next hport =>
      cases h
      exact ⟨source, target, hsource, htarget, hport, ⟨hprobability, hcooldown⟩, hid, rfl⟩
    next => cases h
  · rintro ⟨source, target, hsource, htarget, hport, hsuitable, hid, rfl⟩
    refine bind_eq_ok_iff.mpr ⟨target, b, node_eq_ok_iff.mpr ⟨htarget, rfl⟩, ?_⟩
    refine bind_eq_ok_iff.mpr ⟨source, b, node_eq_ok_iff.mpr ⟨hsource, rfl⟩, ?_⟩
    refine bind_eq_ok_iff.mpr ⟨(), b, checkWindow_eq_ok_iff.mpr ⟨hsuitable.probability, rfl⟩, ?_⟩
    refine bind_eq_ok_iff.mpr ⟨(), b, checkWindow_eq_ok_iff.mpr ⟨hsuitable.cooldown, rfl⟩, ?_⟩
    refine bind_eq_ok_iff.mpr ⟨b, b, rfl, ?_⟩
    refine bind_eq_ok_iff.mpr ⟨id, b, demand_eq_ok_iff.mpr ⟨hid, rfl⟩, ?_⟩
    rw [if_pos hport]
    rfl

theorem cautious_connect (start : NodeId) (port : Port) (finish : NodeId) (spec : TransitionSpec κ) :
    Cautious (connect start port finish spec) := by
  refine (reads_node finish).bind fun _ => (reads_node start).bind fun source => ?_
  refine (reads_checkWindow _ _).bind fun _ => (reads_checkWindow _ _).bind fun _ => ?_
  refine reads_get.bind fun b => (reads_demand _ _).bind fun id => ?_
  split
  next => exact fun _ _ _ => nofun
  next => exact cautious_throw _

end Builder

/-! ## Steps -/

namespace BuildStep

def addsEntry : BuildStep κ → Bool
  | .add _ behaviour _ => behaviour.kind = .entry
  | _ => false

def place? : BuildStep κ → Option (NodeId × Port)
  | .connect start port _ _ => some (start, port)
  | .link start _ => some (start, .out)
  | _ => none

/-- The label of the element that a step adds, if it adds one; the element may be unlabelled. -/
def label? : BuildStep κ → Option (Option String)
  | .add label _ _ => some (some label)
  | .connect _ _ _ spec => some spec.label
  | .link _ _ => some none
  | _ => none

end BuildStep

namespace Builder

variable {b b' : Builder κ} {step : BuildStep κ} {addition : Addition}

/-- All that a step can do to a builder if it is carried out. -/
inductive Carried (b : Builder κ) (step : BuildStep κ) : Addition → Builder κ → Prop where
  | added (n : Node κ) (hplace : step.place? = none) (hlabel : step.label? = some (some n.label))
      (hentry : step.addsEntry = decide (n.kind = .entry)) (houtgoing : n.outgoing = [])
      (hexits : n.exits = {}) : Carried b step (.node ⟨b.nodes.size⟩) (b.pushNode n)
  | amended (addition : Addition) (id : NodeId) (f : Node κ → Node κ) (hplace : step.place? = none)
      (hlabel : step.label? = none) (hamends : ∀ n, b.nodes[id.index]? = some n → n.Amends (f n)) :
      Carried b step addition (b.modifyNode id f)
  | connected (t : Transition κ) (hplace : step.place? = some (t.start, t.port))
      (hlabel : step.label? = some t.label) (hsuitable : t.Suitable)
      (hstart : ∃ n, b.nodes[t.start.index]? = some n ∧ n.behaviour.hasPort t.port = true)
      (hfinish : t.finish.index < b.nodes.size) :
      Carried b step (.transition ⟨b.transitions.size⟩) (b.enrol ⟨b.transitions.size⟩ t)

theorem carried_hook {id : NodeId} {f : Node κ → Node κ} (hplace : step.place? = none)
    (hlabel : step.label? = none)
    (h : ((fun _ => Addition.hook) <$> setHook id f) b = .ok addition b')
    (hamends : ∀ n : Node κ, n.Amends (f n)) : Carried b step addition b' := by
  obtain ⟨u, hset, _⟩ := map_eq_ok_iff.mp h
  rw [setHook_eq_ok hset]
  exact .amended addition id f hplace hlabel fun n _ => hamends n

theorem carried_connect {start finish : NodeId} {port : Port} {spec : TransitionSpec κ}
    (hplace : step.place? = some (start, port)) (hlabel : step.label? = some spec.label)
    (h : (Addition.transition <$> connect start port finish spec) b = .ok addition b') :
    Carried b step addition b' := by
  obtain ⟨id, hconnect, rfl⟩ := map_eq_ok_iff.mp h
  obtain ⟨source, target, hsource, htarget, hport, hsuitable, hid, rfl⟩ :=
    connect_eq_ok_iff.mp hconnect
  obtain rfl := TransitionId.eq_of_ofNat? hid
  exact .connected { spec with start, port, finish } hplace hlabel hsuitable ⟨source, hsource, hport⟩
    (Array.getElem?_eq_some_iff.mp htarget).1

theorem step_carried (h : Builder.step step b = .ok addition b') : Carried b step addition b' := by
  cases step with
  | add label behaviour options =>
      obtain ⟨id, hadd, rfl⟩ := map_eq_ok_iff.mp h
      obtain ⟨n, hamends, rfl, rfl⟩ := add_eq_ok hadd
      refine .added n rfl (congrArg (some ∘ some) hamends.label.symm) ?_ hamends.outgoing hamends.exits
      rw [hamends.kind]
      rfl
  | addBranch node branch =>
      obtain ⟨port, hadd, rfl⟩ := map_eq_ok_iff.mp h
      obtain ⟨n, branches, hn, hbehaviour, rfl, rfl⟩ := addBranch_eq_ok_iff.mp hadd
      refine .amended _ node _ rfl rfl fun m hm => ?_
      obtain rfl := Option.some.inj (hn.symm.trans hm)
      exact Node.amends_branch hbehaviour branch
  | preTick node hook => exact carried_hook rfl rfl h fun n => n.amends_options _ _ _
  | postTick node hook => exact carried_hook rfl rfl h fun n => n.amends_options _ _ _
  | connect start port finish spec => exact carried_connect rfl rfl h
  | link start finish => exact carried_connect rfl rfl h

theorem cautious_step (step : BuildStep κ) : Cautious (Builder.step step) := by
  cases step with
  | add label behaviour options => exact (cautious_add label behaviour options).map _
  | addBranch node branch => exact (cautious_addBranch node branch).map _
  | preTick node hook => exact (cautious_setHook node _).map _
  | postTick node hook => exact (cautious_setHook node _).map _
  | connect start port finish spec => exact (cautious_connect start port finish spec).map _
  | link start finish => exact (cautious_connect start .out finish {}).map _

/-- A step that fails leaves the builder as it was. -/
theorem take_of_error {cause : GraphError} (h : (b.take step).1 = .error cause) :
    (b.take step).2 = b := by
  unfold take at h ⊢
  split at h
  next => cases h
  next hstep => exact cautious_step step _ _ _ hstep

theorem carried_of_take (h : (b.take step).1 = .ok addition) :
    Carried b step addition (b.take step).2 := by
  unfold take at h ⊢
  split at h
  next hstep =>
    cases h
    exact step_carried hstep
  next => cases h

/-- What the steps of a list preserve if they are carried out, the whole list preserves. -/
theorem takeAll_induction {P : Builder κ → Prop} {steps : List (BuildStep κ)}
    (hstep : ∀ step ∈ steps, ∀ {b addition b'}, Carried b step addition b' → P b → P b') (hb : P b) :
    P (b.takeAll steps).2 := by
  induction steps generalizing b with
  | nil => exact hb
  | cons step steps ih =>
      have hfirst : P (b.take step).2 := by
        cases hanswer : (b.take step).1 with
        | error cause => rwa [take_of_error hanswer]
        | ok addition => exact hstep step List.mem_cons_self (carried_of_take hanswer) hb
      exact ih (fun step hmem => hstep step (List.mem_cons_of_mem _ hmem)) hfirst

/-- A list that every step extends by what its answer tells, if it is carried out, holds in the end what
all answers tell. -/
theorem told_takeAll (view : Builder κ → List β)
    {tell : BuildStep κ × Except GraphError Addition → Option β}
    (herror : ∀ step e, tell (step, .error e) = none)
    (hstep : ∀ {b b' : Builder κ} {step addition}, Carried b step addition b' →
      view b' = view b ++ (tell (step, .ok addition)).toList)
    (b : Builder κ) (steps : List (BuildStep κ)) :
    view (b.takeAll steps).2 =
      view b ++ (steps.zip (b.takeAll steps).1).filterMap tell := by
  induction steps generalizing b with
  | nil => exact (List.append_nil _).symm
  | cons step steps ih =>
      have hfirst : view (b.take step).2 = view b ++ (tell (step, (b.take step).1)).toList := by
        cases hanswer : (b.take step).1 with
        | error cause =>
            rw [take_of_error hanswer, herror, Option.toList_none, List.append_nil]
        | ok addition => exact hstep (carried_of_take hanswer)
      have hrest : ((step :: steps).zip (b.takeAll (step :: steps)).1).filterMap tell =
          (tell (step, (b.take step).1)).toList ++
            (steps.zip ((b.take step).2.takeAll steps).1).filterMap tell := by
        simp only [takeAll, List.zip_cons_cons, List.filterMap_cons]
        cases tell (step, (b.take step).1) <;> rfl
      rw [hrest, ← List.append_assoc, ← hfirst]
      exact ih _

end Builder

def Graph.ofSteps (steps : List (BuildStep κ)) (config : Config := {}) : Graph κ :=
  (({ config } : Builder κ).takeAll steps).2.graph

end BehaviourGraph
