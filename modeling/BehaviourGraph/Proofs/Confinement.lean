import BehaviourGraph.Proofs.Bounds
import BehaviourGraph.Proofs.HandOffs
import BehaviourGraph.Proofs.Relaxation.Region
import BehaviourGraph.Proofs.Search
import BehaviourGraph.Proofs.Statuses

/-!
# What a tick can touch

A tick gets no further than the paths of its graph lead: from the entry, from the active component and from
the nodes whose hand-offs are due.  Control stays among these nodes, and so do the trail and whatever is
entered, called, drawn or relaxed.  The flags, statuses and firings of all other elements are as they
were.
-/

namespace BehaviourGraph

variable {κ τ ρ : Type}

/-! ## Closed sets of nodes -/

/-- No transition of a consistent graph leads out of a set of nodes. -/
structure Graph.Closed (g : Graph κ) (region : NodeId → Prop) : Prop where
  consistent : g.Consistent
  leads : ∀ t tr, g.transition? t = some tr → region tr.start → region tr.finish

def Graph.Inner (g : Graph κ) (region : NodeId → Prop) : Element → Prop
  | .node id => region id
  | .transition t => ∃ tr, g.transition? t = some tr ∧ region tr.start

section Closed

variable {g : Graph κ} {region : NodeId → Prop} {e f : Element}

theorem Graph.Closed.inner_next (h : g.Closed region) (he : g.Inner region e) (hf : f ∈ g.next e) :
    g.Inner region f := by
  cases e with
  | node id =>
      obtain ⟨t, tr, rfl, htr, rfl⟩ := h.consistent.mem_next_node.mp hf
      exact ⟨tr, htr, he⟩
  | transition t =>
      obtain ⟨tr, htr, rfl⟩ := Graph.mem_next_transition.mp hf
      obtain ⟨tr', htr', hstart⟩ := he
      obtain rfl := Option.some.inj (htr.symm.trans htr')
      exact h.leads t tr htr hstart

/-- The region that relaxing an element takes down stays in a closed set. -/
theorem Graph.Closed.inner_region (h : g.Closed region) (he : g.Inner region e) {m : Marking}
    (hf : m.Region g.next e f) : g.Inner region f := by
  obtain ⟨_, hpath⟩ := hf
  induction hpath with
  | refl => exact he
  | tail _ hstep ih => exact h.inner_next ih hstep.1

theorem Graph.Closed.has_relax (h : g.Closed region) (he : g.Inner region e)
    (hf : ¬g.Inner region f) (m : Marking) : (m.relax g.next e).has f = m.has f := by
  rw [Bool.eq_iff_iff, Marking.has_relax_iff]
  constructor
  · exact And.left
  · intro hup
    exact ⟨hup, fun hregion => hf (h.inner_region he hregion)⟩

end Closed

/-! ## Confined sessions -/

def Event.Steps (g : Graph κ) (region : NodeId → Prop) (event : Event κ) : Prop :=
  ∀ e, event.element? = some e → g.Inner region e

/-- Since an earlier session only elements of a set have been touched: control and the trail are in it,
all steps have been of its elements, and the flags and firings of the others are as they were. -/
structure Session.Confined (g : Graph κ) (region : NodeId → Prop) (s earlier : Session κ τ ρ) : Prop where
  control : region s.state.control
  trail : ∀ e ∈ s.state.trail, g.Inner region e
  steps : s.Adds earlier.journal.toList fun events => ∀ event ∈ events, event.Steps g region
  flags : ∀ flag e, ¬g.Inner region e → s.state.has flag e = earlier.state.has flag e
  firings : ∀ t, ¬g.Inner region (.transition t) → s.state.firing t = earlier.state.firing t

section Confined

variable {g : Graph κ} {region : NodeId → Prop} {s earlier : Session κ τ ρ} {id : NodeId} {e : Element}

theorem Event.steps_of_element {event : Event κ} (he : event.element? = some e)
    (h : g.Inner region e) : event.Steps g region := by
  intro f hf
  obtain rfl := Option.some.inj (he.symm.trans hf)
  exact h

namespace Session.Confined

theorem record (h : s.Confined g region earlier) {event : Event κ} (he : event.Steps g region) :
    (s.record event).Confined g region earlier where
  control := h.control
  trail := h.trail
  steps := by
    apply h.steps.record event
    intro events hevents
    exact forall_mem_snoc hevents he
  flags := h.flags
  firings := h.firings

theorem report (h : s.Confined g region earlier) (r : Report) :
    (s.report r).Confined g region earlier :=
  h.record nofun

/-- What is no flag, no firing and not on the trail may change, and control within the set. -/
theorem change (h : s.Confined g region earlier) {f : State → State}
    (hcontrol : region (f s.state).control) (htrail : (f s.state).trail = s.state.trail)
    (hactive : (f s.state).active = s.state.active) (hvisited : (f s.state).visited = s.state.visited)
    (hfirings : (f s.state).firings = s.state.firings) : (s.change f).Confined g region earlier where
  control := hcontrol
  trail e he := h.trail e (htrail ▸ he)
  steps := h.steps
  flags flag e he := by
    rw [← h.flags flag e he]
    cases flag with
    | active => exact congrArg (Marking.has · e) hactive
    | visited => exact congrArg (Marking.has · e) hvisited
  firings t ht := by
    rw [← h.firings t ht]
    show ((f s.state).firings[t.index]?).getD default = _
    rw [hfirings]
    rfl

theorem mark (h : s.Confined g region earlier) (he : g.Inner region e) :
    (s.change (State.mark e)).Confined g region earlier where
  control := h.control
  trail f hf := by
    rcases List.mem_cons.mp hf with rfl | hf
    · exact he
    · exact h.trail f hf
  steps := h.steps
  flags flag f hf := by
    have hne : e ≠ f := fun heq => hf (heq ▸ he)
    rw [← h.flags flag f hf]
    cases flag <;> exact Marking.has_raise_of_ne _ hne
  firings := h.firings

theorem relax (h : s.Confined g region earlier) (hclosed : g.Closed region) (flag : Flag)
    (he : g.Inner region e) : (s.change (State.relax g flag e)).Confined g region earlier where
  control := by cases flag <;> exact h.control
  trail := by cases flag <;> exact h.trail
  steps := h.steps
  flags other f hf := by
    rw [← h.flags other f hf]
    cases flag <;> cases other <;> first | rfl | exact hclosed.has_relax he hf _
  firings := by cases flag <;> exact h.firings

theorem setFiring (h : s.Confined g region earlier) {t : TransitionId}
    (ht : g.Inner region (.transition t)) (firing : Firing) :
    (s.change (State.setFiring t firing)).Confined g region earlier where
  control := h.control
  trail := h.trail
  steps := h.steps
  flags flag f hf := by
    rw [← h.flags flag f hf]
    cases flag <;> rfl
  firings other hother := by
    have hne : t.index ≠ other.index := fun heq => hother (by cases t; cases other; cases heq; exact ht)
    rw [← h.firings other hother]
    simp only [Session.change, State.setFiring, State.firing, Array.getElem?_setIfInBounds_ne hne]

/-- Control moves within the set, and what is relaxed on the way is in it. -/
theorem switchTo (h : s.Confined g region earlier) (hclosed : g.Closed region) (hid : region id) :
    (s.switchTo g id).Confined g region earlier := by
  unfold Session.switchTo
  dsimp only
  split
  · exact h
  · have hprevious : g.Inner region (.node s.state.control) := h.control
    have hrelaxed := (h.relax hclosed .visited hprevious).relax hclosed .active hprevious
    have hswitched := hrelaxed.change (f := fun a => { a with control := id }) hid rfl rfl rfl rfl
    exact hswitched.report _

theorem claim (h : s.Confined g region earlier) (hclosed : g.Closed region) (hid : region id) :
    (s.claim g id).Confined g region earlier :=
  (h.switchTo hclosed hid).mark hid

theorem commit (h : s.Confined g region earlier) (hclosed : g.Closed region)
    (hentry : region entryNode) (hid : region id) (n : Node κ) (chosen : Option Port) :
    (s.commit g id n chosen).Confined g region earlier := by
  apply Session.commit_induction_of (P := fun s => s.Confined g region earlier) n chosen
  · intro s node hnode hs
    rcases hnode with rfl | rfl
    · exact hs.switchTo hclosed hid
    · exact hs.switchTo hclosed hentry
  · intro s hs
    exact hs.mark hid
  · intro s flag port t ht hs
    obtain ⟨tr, htr, hstart, _⟩ := hclosed.consistent.mem_exits.mp ht
    exact hs.relax hclosed flag ⟨tr, htr, hstart ▸ hid⟩
  · exact h.record (Event.steps_of_element rfl hid)

theorem sweep (h : s.Confined g region earlier) :
    (s.change State.sweep).Confined g region earlier where
  control := h.control
  trail := nofun
  steps := h.steps
  flags flag f hf := by
    rw [← h.flags flag f hf]
    cases flag with
    | active => rfl
    | visited =>
        have hout : f ∉ s.state.trail := fun hmem => hf (h.trail f hmem)
        show (s.state.trail.foldl Marking.clear s.state.visited).has f = s.state.visited.has f
        rw [Marking.has_foldl_clear, decide_eq_true hout, Bool.and_true]
  firings := h.firings

end Session.Confined

/-- Steps of elements of the set and statuses do not matter. -/
theorem detached_confined (g : Graph κ) (region : NodeId → Prop) (earlier : Session κ τ ρ) :
    Walk.Detached (fun s => s.Confined g region earlier) (Event.Steps g region) where
  surroundings _ _ _ _ hs := ⟨hs.control, hs.trail, hs.steps, hs.flags, hs.firings⟩
  record _ _ he hs := hs.record he
  setStatus _ _ _ hs := hs.change hs.control rfl rfl rfl rfl

/-! ## Confined walks -/

variable (hclosed : g.Closed region) (hentry : region entryNode)
include hclosed hentry

/-- A node of the set that is ticked touches only the set if its transitions do. -/
theorem Session.Confined.leads_runNode {tick : TransitionId → Walk κ τ ρ Bool} {n : Node κ}
    (hid : region id)
    (htick : ∀ t s, g.Inner region (.transition t) → s.Confined g region earlier →
      (tick t).Leads s (fun _ s => s.Confined g region earlier) fun s => s.Confined g region earlier)
    (h : s.Confined g region earlier) :
    (Walk.runNode g id n tick).Leads s (fun _ s => s.Confined g region earlier)
      fun s => s.Confined g region earlier := by
  have hdetached := detached_confined g region earlier
  have hown {event : Event κ} (he : event.element? = some (.node id)) : event.Steps g region :=
    Event.steps_of_element he hid
  refine Walk.leads_runNode (P := fun s => s.Confined g region earlier)
    (F := fun _ _ s => s.Confined g region earlier) ?_ (fun s hs => ?_) (fun port t _ s ht hs => ?_)
    fun _ _ s hs => ?_
  · exact Walk.leads_enter hdetached hdetached (fun _ _ _ => hown rfl)
      (fun s hs _ => hs.record (hown rfl)) (fun s hs => hs.mark hid) (fun _ s hs => hs.claim hclosed hid)
      (fun s hs => hs.elim (·) (·)) h
  · exact (hdetached.choose (fun _ _ _ => nofun) (fun _ _ _ => hown rfl)
      fun _ _ _ _ => hown rfl).leads hs (fun port s hs => hs.commit hclosed hentry hid n port) fun _ hs => hs
  · obtain ⟨tr, htr, hstart, _⟩ := hclosed.consistent.mem_exits.mp ht
    exact htick t s ⟨tr, htr, hstart ▸ hid⟩ hs
  · exact Walk.leads_leave hdetached.toAmbient (fun _ _ _ => hown rfl)
      (fun _ s hs _ => hs.relax hclosed .visited hid) (fun s hs => hs.record (hown rfl))
      (fun _ hs => hs) hs

omit hentry in
theorem Session.Confined.leads_tickTransition [Clock κ τ] [RandomSource ρ]
    {visit : NodeId → Walk κ τ ρ Unit} {t : TransitionId} (ht : g.Inner region (.transition t))
    (hvisit : ∀ id s, region id → s.Confined g region earlier →
      (visit id).Leads s (fun _ s => s.Confined g region earlier) fun s => s.Confined g region earlier)
    (h : s.Confined g region earlier) :
    (Walk.tickTransition g visit t).Leads s (fun _ s => s.Confined g region earlier)
      fun s => s.Confined g region earlier := by
  have hdetached := detached_confined g region earlier
  have hown {event : Event κ} (he : event.element? = some (.transition t)) : event.Steps g region :=
    Event.steps_of_element he ht
  have hstart (tr : Transition κ) (htr : g.transition? t = some tr) : region tr.start := by
    obtain ⟨tr', htr', hstart⟩ := ht
    obtain rfl := Option.some.inj (htr.symm.trans htr')
    exact hstart
  refine Walk.leads_tickTransition (fun _ hs => hs) (fun s hs => hs.record (hown rfl))
    (fun tr s htr _ hs => hs.switchTo hclosed (hstart tr htr)) (fun tr s htr hs => ?_) h
  refine Walk.leads_follow_opened hdetached (fun s firing hs => hs.setFiring ht firing)
    (fun _ _ _ => nofun) (fun _ _ _ => hown rfl) (fun _ _ _ => hown rfl) (fun s now cooldown hs => ?_)
    (fun s hs => ?_) (fun _ hs => hs) hs
  · exact (hs.record (hown rfl)).mark ht
  · exact hvisit tr.finish _ (hclosed.leads t tr htr (hstart tr htr)) (hs.record (hown rfl))

variable [Clock κ τ] [RandomSource ρ]

theorem Session.Confined.leads_visit (budget : Nat) (hid : region id)
    (h : s.Confined g region earlier) :
    (Walk.visit g budget id).Leads s (fun _ s => s.Confined g region earlier)
      fun s => s.Confined g region earlier := by
  have hdepth (s : Session κ τ ρ) (depth : State → Nat) (hs : s.Confined g region earlier) :
      (s.change fun a => { a with depth := depth a }).Confined g region earlier :=
    hs.change hs.control rfl rfl rfl rfl
  refine Walk.leads_visit_of (I := fun _ (_ : Unit) id s => region id ∧ s.Confined g region earlier)
    (O := fun _ s => s.Confined g region earlier) (fun _ _ _ s depth hs => ⟨hs.1, hdepth s depth hs.2⟩)
    (fun _ s depth hs => hdepth s depth hs) (fun _ _ s _ hs => hs.2.report _)
    (fun _ _ _ _ _ hs => hs.2) (fun budget visit hvisit _ id n s hn hs => ?_) budget () id ⟨hid, h⟩
  apply hs.2.leads_runNode hclosed hentry hs.1
  intro t s ht hs
  exact hs.leads_tickTransition hclosed ht fun id s hid hs => hvisit () id s ⟨hid, hs⟩

/-- A tick that begins in a set, and with due hand-offs in it, touches nothing outside. -/
theorem Session.Confined.leads_tick (hcontrol : region s.state.control)
    (hdue : ∀ id ∈ s.due, region id) (hunvisited : s.state.Unvisited) :
    (Walk.tick g).Leads s (fun _ s' => s'.Confined g region s) fun s' => s'.Confined g region s := by
  have hswept (clock : τ) : { s.change State.sweep with clock }.Confined g region s := by
    refine ⟨hcontrol, nofun, .nil nofun, fun flag e _ => ?_, fun _ _ => rfl⟩
    cases flag with
    | active => rfl
    | visited =>
        show (s.state.trail.foldl Marking.clear s.state.visited).has e = s.state.has .visited e
        have hdown : s.state.visited.has e = false := hunvisited e
        rw [Marking.has_foldl_clear, hdown, Bool.false_and]
        exact hdown.symm
  have hhanded (clock : τ) :
      (Session.handOver g s.reading { s.change State.sweep with clock }).Confined g region s :=
    List.foldlRecOn (motive := fun s' : Session κ τ ρ => s'.Confined g region s) _ _
      ((hswept clock).change hcontrol rfl rfl rfl rfl)
      fun s' hs id hid => hs.switchTo hclosed (hdue id hid)
  have hstart : (s.walkStart g).Confined g region s := by
    have hlast := hhanded (Clock.read s.context s.clock).2
    exact (hlast.report _).change (f := fun a => { a with depth := 0 }) hlast.control rfl rfl rfl rfl
  rw [Walk.leads_tick]
  exact (hstart.leads_visit hclosed hentry _ hstart.control).imp
    (fun _ s hs => hs.sweep.report _) fun _ hb => hb

end Confined

/-! ## The nodes in reach of a tick -/

section Reach

variable [Clock κ τ] {g : Graph κ} {s : Session κ τ ρ}

/-- The nodes on the paths from the entry, from the active component and from the nodes of the hand-offs
that are due. -/
def Session.InReach (g : Graph κ) (s : Session κ τ ρ) (id : NodeId) : Prop :=
  ∃ root, (root = entryNode ∨ root = s.state.control ∨
    ∃ p ∈ s.state.queue.entries, p.due ≤ s.reading ∧ p.node = root) ∧ g.Path (fun _ => True) root id

theorem Session.closed_inReach (hg : g.Consistent) (s : Session κ τ ρ) : g.Closed (s.InReach g) where
  consistent := hg
  leads t tr htr hstart := by
    obtain ⟨root, hroot, hpath⟩ := hstart
    exact ⟨root, hroot, hpath.snoc htr trivial⟩

theorem Session.inReach_due (hq : s.state.queue.Orderly) {id : NodeId} (hid : id ∈ s.due) :
    s.InReach g id := by
  rw [Session.due, hq.drainDue_eq] at hid
  obtain ⟨p, hp, rfl⟩ := List.mem_map.mp hid
  obtain ⟨hmem, hdue⟩ := List.mem_filter.mp hp
  exact ⟨p.node, .inr (.inr ⟨p, hmem, of_decide_eq_true hdue, rfl⟩), .refl⟩

/-- Paths do not lead out of a closed set. -/
theorem Graph.Closed.path {region : NodeId → Prop} (h : g.Closed region) {a b : NodeId} (ha : region a)
    {through : TransitionId → Prop} (hpath : g.Path through a b) : region b := by
  induction hpath with
  | refl => exact ha
  | tail _ hstep ih =>
      obtain ⟨t, tr, htr, rfl, rfl, _⟩ := hstep
      exact h.leads t tr htr ih

/-- The latest evaluation of an element is not changed by steps of others. -/
theorem evaluation_append {e : Element} (events : List (Event κ)) {later : List (Event κ)}
    (h : ∀ event ∈ later, event.element? ≠ some e) :
    evaluation e (events ++ later) = evaluation e events := by
  induction later using List.reverseRecOn with
  | nil => rw [List.append_nil]
  | append_singleton later event ih =>
      have hother := h event (List.mem_append_right _ (List.mem_singleton_self event))
      rw [← List.append_assoc, evaluation_snoc, evaluationAfter_of_ne hother]
      exact ih fun other hmem => h other (List.mem_append_left _ hmem)

variable [RandomSource ρ]

/-- A tick of a consistent graph that is not broken off makes steps only of the nodes in its reach and of
the transitions that start there.  The flags and statuses of all other elements and the firings of all
other transitions stay as they were, and control ends up in reach. -/
theorem tick_confined_to_reach (g : Graph κ) (hg : g.Consistent) (s s' : Session κ τ ρ)
    (hs : s.Unbroken g) (htick : s.perform g .tick = (.done, s')) :
    (∀ event ∈ s'.since s, ∀ e, event.element? = some e → g.Inner (s.InReach g) e) ∧
      (∀ e, ¬g.Inner (s.InReach g) e →
        (∀ flag, s'.state.has flag e = s.state.has flag e) ∧
          s'.state.status.get e = s.state.status.get e) ∧
      (∀ t, ¬g.Inner (s.InReach g) (.transition t) → s'.state.firing t = s.state.firing t) ∧
      s.InReach g s'.state.control := by
  have hleads := Session.Confined.leads_tick (s.closed_inReach hg)
    ⟨entryNode, .inl rfl, .refl⟩ ⟨s.state.control, .inr (.inl rfl), .refl⟩
    (fun id hid => Session.inReach_due hs.reachable.orderly hid) hs.unvisited
  have hconfined : s'.Confined g (s.InReach g) s := hleads.ends_of_run htick
  have hsteps : ∀ event ∈ s'.since s, event.Steps g (s.InReach g) := hconfined.steps.since
  have hjournal : s'.journal.toList = s.journal.toList ++ s'.since s := by
    have hadded := s.journal_perform g .tick
    rwa [htick] at hadded
  have hstatus (e : Element) (he : ¬g.Inner (s.InReach g) e) :
      s'.state.status.get e = s.state.status.get e := by
    have hafter : s'.Unbroken g := hs.perform htick nofun
    rw [hafter.settled.statuses e nofun, hs.settled.statuses e nofun, hjournal, evaluation_append]
    intro event hevent heq
    exact he (hsteps event hevent e heq)
  exact ⟨hsteps, fun e he => ⟨fun flag => hconfined.flags flag e he, hstatus e he⟩, hconfined.firings,
    hconfined.control⟩

end Reach

/-- An action that the entry leads to, and one beside it that fails and has a cooldown behind it. -/
def islandSteps : List (BuildStep Unit) :=
  [.add "near" (.action (.noArgs (pure (.ok ())))) [],
    .add "far" (.action (.noArgs (pure (.error (.unexpected "stranded"))))) [], .link entryNode ⟨1⟩,
    .connect ⟨2⟩ .out ⟨1⟩ { cooldown := ⟨5.0, 5.0⟩ }]

def islandGraph : Graph Unit := .ofSteps islandSteps

theorem island_built : islandGraph.Built := ⟨{}, none, islandSteps, by decide, rfl⟩

def islandStart : Session Unit ManualClock Xoshiro :=
  .start islandGraph () (ManualClock.mk 3.0) (Xoshiro.ofSeed 0)

def islandVisited : Session Unit ManualClock Xoshiro :=
  ((islandStart.perform islandGraph (.setActive ⟨2⟩)).2.perform islandGraph .tick).2

def islandLeft : Session Unit ManualClock Xoshiro := (islandVisited.perform islandGraph .reset).2

theorem islandLeft_unbroken : islandLeft.Unbroken islandGraph := by
  have hmoved : (islandStart.perform islandGraph (.setActive ⟨2⟩)).2.Unbroken islandGraph :=
    .perform (.start _ _ _) (Session.perform_eq_done (by decide +kernel)) nofun
  have hvisited : islandVisited.Unbroken islandGraph :=
    .perform hmoved (Session.perform_eq_done (by decide +kernel)) nofun
  exact .perform hvisited (Session.perform_eq_done (by decide +kernel)) nofun

/-- The far action and the transition behind it are out of reach. -/
theorem island_out_of_reach {e : Element} (he : e = .node ⟨2⟩ ∨ e = .transition ⟨1⟩) :
    ¬islandGraph.Inner (islandLeft.InReach islandGraph) e := by
  have hclosed : islandGraph.Closed fun id => id ≠ ⟨2⟩ := by
    refine ⟨island_built.consistent, ?_⟩
    rintro ⟨i⟩ tr htr _
    rcases i with _ | _ | i <;> cases htr <;> decide
  have hqueue : islandLeft.state.queue.entries.isEmpty = true := by decide +kernel
  have hcontrol : islandLeft.state.control = entryNode := by decide +kernel
  have hnear {id : NodeId} (hid : islandLeft.InReach islandGraph id) : id ≠ ⟨2⟩ := by
    obtain ⟨root, hroot, hpath⟩ := hid
    refine hclosed.path (a := root) ?_ hpath
    rw [hcontrol, List.isEmpty_iff.mp hqueue] at hroot
    rcases hroot with rfl | rfl | ⟨p, hp, _⟩
    · decide
    · decide
    · cases hp
  rcases he with rfl | rfl
  · exact fun hinner => hnear hinner rfl
  · rintro ⟨tr, htr, hstart⟩
    cases htr
    exact hnear hstart rfl

theorem island_untouched :
    ∃ s', islandLeft.perform islandGraph .tick = (.done, s') ∧ s'.state.control = entryNode ∧
      s'.state.status.get (.node ⟨2⟩) = .error ∧ (s'.state.firing ⟨1⟩).last.isSome = true := by
  have htick : islandLeft.perform islandGraph .tick = (.done, (islandLeft.perform islandGraph .tick).2) :=
    Session.perform_eq_done (by decide +kernel)
  obtain ⟨_, houter, hfirings, _⟩ :=
    tick_confined_to_reach islandGraph island_built.consistent islandLeft _ islandLeft_unbroken htick
  have hstatus := (houter _ (island_out_of_reach (.inl rfl))).2
  have hfiring := hfirings _ (island_out_of_reach (.inr rfl))
  refine ⟨_, htick, by decide +kernel, ?_, ?_⟩
  · rw [hstatus]
    decide +kernel
  · rw [hfiring]
    decide +kernel

end BehaviourGraph
