import BehaviourGraph.Proofs.Connections
import BehaviourGraph.Proofs.History
import BehaviourGraph.Proofs.Tables

/-!
# Bounds

A graph that is wired leads from its elements to its elements.  A session is within its graph if it
only speaks of elements of the graph: control and the queue name nodes, the trail and the steps of
walks name elements, and the tables have a place for each.  As long as they are asked for elements of
the graph, switches, choices, sweeps and hand-offs stay within.
-/

namespace BehaviourGraph

variable {κ τ ρ α β : Type}

/-! ## Elements of steps -/

def Call.element? : Call → Option Element
  | .preTick id | .postTick id | .body id | .scorer id _ => some (.node id)
  | .guard t => some (.transition t)
  | .reset => none

/-- The element that an event is a step of; reports are none. -/
def Event.element? : Event κ → Option Element
  | .reported _ => none
  | .called call _ _ _ => call.element?
  | .drew t _ _ _ | .ticked t | .fired t _ _ | .opened t => some (.transition t)
  | .entered id | .chose id _ | .left id => some (.node id)

def Event.Inside (g : Graph κ) (e : Event κ) : Prop :=
  ∀ element, e.element? = some element → g.hasElement element = true

theorem Event.inside_of_element {g : Graph κ} {e : Event κ} {element : Element}
    (he : e.element? = some element) (h : g.hasElement element = true) : e.Inside g := by
  intro element' he'
  obtain rfl := Option.some.inj (he.symm.trans he')
  exact h

theorem Event.inside_of_none {g : Graph κ} {e : Event κ} (he : e.element? = none) : e.Inside g := by
  intro element he'
  rw [he] at he'
  cases he'

theorem Wired.hasNode_start {g : Graph κ} (hg : Wired g.nodes g.transitions) {t : TransitionId}
    {tr : Transition κ} (htr : g.transition? t = some tr) : g.hasNode tr.start = true := by
  obtain ⟨n, hn, _⟩ := hg.start t.index tr htr
  exact Graph.hasNode_iff.mpr ⟨n, hn⟩

theorem Wired.hasNode_finish {g : Graph κ} (hg : Wired g.nodes g.transitions) {t : TransitionId}
    {tr : Transition κ} (htr : g.transition? t = some tr) : g.hasNode tr.finish = true :=
  decide_eq_true (hg.finish t.index tr htr)

theorem Wired.hasNode_entry {g : Graph κ} (hg : Wired g.nodes g.transitions) :
    g.hasNode entryNode = true := by
  obtain ⟨n, hn, _⟩ := hg.entry
  exact Graph.hasNode_iff.mpr ⟨n, hn⟩

structure Graph.Joined (g : Graph κ) : Prop where
  entry : g.hasNode entryNode = true
  start : ∀ t tr, g.transition? t = some tr →
    ∃ n, g.node? tr.start = some n ∧ tr.port ∈ n.behaviour.ports
  finish : ∀ t tr, g.transition? t = some tr → g.hasNode tr.finish = true

theorem Wired.joined {g : Graph κ} (hg : Wired g.nodes g.transitions) : g.Joined where
  entry := hg.hasNode_entry
  start t tr htr := by
    obtain ⟨n, hn, hport⟩ := hg.start t.index tr htr
    exact ⟨n, hn, (n.behaviour.mem_ports tr.port).mpr hport⟩
  finish _ _ htr := hg.hasNode_finish htr

/-- What comes right after an element of a built graph is in the graph. -/
theorem Graph.Built.hasElement_next {g : Graph κ} (hg : g.Built) {e f : Element}
    (hf : f ∈ g.next e) : g.hasElement f = true := by
  cases e with
  | node id =>
      obtain ⟨t, tr, rfl, htr, _⟩ := hg.consistent.mem_next_node.mp hf
      exact Graph.hasTransition_iff.mpr ⟨tr, htr⟩
  | transition t =>
      obtain ⟨tr, htr, rfl⟩ := Graph.mem_next_transition.mp hf
      exact hg.wired.hasNode_finish htr

/-! ## Sessions inside their graph -/

/-- A session names no element that its graph does not have, and its tables are of the size of the
graph. -/
structure Session.Within (g : Graph κ) (s : Session κ τ ρ) : Prop where
  control : g.hasNode s.state.control = true
  queue : ∀ e ∈ s.state.queue.entries, g.hasNode e.node = true
  trail : ∀ e ∈ s.state.trail, g.hasElement e = true
  fits : s.state.Fits g
  events : ∀ e ∈ s.journal.toList, e.Inside g

section Within

variable {g : Graph κ} {s : Session κ τ ρ} {id : NodeId} {n : Node κ}

theorem Session.Within.change (h : s.Within g) {f : State → State}
    (hcontrol : g.hasNode (f s.state).control = true)
    (hqueue : ∀ e ∈ (f s.state).queue.entries, e ∈ s.state.queue.entries)
    (htrail : ∀ e ∈ (f s.state).trail, e ∈ s.state.trail) (hfits : (f s.state).Fits g) :
    (s.change f).Within g :=
  ⟨hcontrol, fun e he => h.queue e (hqueue e he), fun e he => h.trail e (htrail e he), hfits,
    h.events⟩

theorem Session.Within.record (h : s.Within g) {e : Event κ} (he : e.Inside g) :
    (s.record e).Within g := by
  refine ⟨h.control, h.queue, h.trail, h.fits, ?_⟩
  rw [s.toList_record e]
  exact forall_mem_snoc h.events he

theorem inert_within :
    Walk.Inert (Session.Within (τ := τ) (ρ := ρ) g) (Event.Inside g) where
  surroundings _ _ _ _ hs := ⟨hs.control, hs.queue, hs.trail, hs.fits, hs.events⟩
  record _ _ he hs := hs.record he
  setStatus s e status hs :=
    hs.change hs.control (fun _ h => h) (fun _ h => h) ((stable_fits g).setStatus s e status hs.fits)
  setFiring s t firing hs :=
    hs.change hs.control (fun _ h => h) (fun _ h => h) ((stable_fits g).setFiring s t firing hs.fits)
  setDepth s depth hs :=
    hs.change hs.control (fun _ h => h) (fun _ h => h) ((stable_fits g).setDepth s depth hs.fits)

theorem inside_report (g : Graph κ) (r : Report) : (Event.reported r : Event κ).Inside g :=
  Event.inside_of_none rfl

theorem Session.Within.mark (h : s.Within g) {e : Element} (he : g.hasElement e = true) :
    (s.change (State.mark e)).Within g := by
  refine ⟨h.control, h.queue, fun f hf => ?_, (stable_fits g).mark s e h.fits, h.events⟩
  rcases List.mem_cons.mp hf with rfl | hf
  · exact he
  · exact h.trail f hf

theorem Session.Within.relax (h : s.Within g) (flag : Flag) (e : Element) :
    (s.change (State.relax g flag e)).Within g := by
  have hfits := h.fits.relax flag e
  cases flag with
  | active => exact h.change h.control (fun _ h => h) (fun _ h => h) hfits
  | visited => exact h.change h.control (fun _ h => h) (fun _ h => h) hfits

theorem Session.Within.switchTo (h : s.Within g) (hid : g.hasNode id = true) :
    (s.switchTo g id).Within g := by
  unfold Session.switchTo
  dsimp only
  split
  · exact h
  · have hrelaxed := (h.relax .visited (.node s.state.control)).relax .active (.node s.state.control)
    have hswitched := hrelaxed.change (f := fun a => { a with control := id }) hid (fun _ h => h)
      (fun _ h => h) ((stable_fits g).setControl _ id hrelaxed.fits)
    exact hswitched.record (inside_report g _)

theorem Session.Within.commit (h : s.Within g) (hentry : g.hasNode entryNode = true)
    (hid : g.hasNode id = true) (n : Node κ) (chosen : Option Port) :
    (s.commit g id n chosen).Within g :=
  Session.commit_induction_of n chosen
    (fun _ _ hnode hs => hs.switchTo (hnode.elim (fun h => h ▸ hid) fun h => h ▸ hentry))
    (fun _ hs => hs.mark hid) (fun _ flag _ _ _ hs => hs.relax flag _)
    (h.record (Event.inside_of_element rfl hid))

theorem Session.Within.sweep (h : s.Within g) : (s.change State.sweep).Within g :=
  h.change h.control (fun _ h => h) nofun ((stable_fits g).sweep s h.fits)

theorem Session.Within.push (h : s.Within g) (hid : g.hasNode id = true) (due : Float) :
    (s.change fun a => { a with queue := a.queue.push due id }).Within g := by
  have hfits := (stable_fits g).setQueue s (fun a => a.queue.push due id) h.fits
  refine ⟨h.control, fun e he => ?_, h.trail, hfits, h.events⟩
  rcases List.mem_append.mp he with he | he
  · exact h.queue e (List.mem_of_mem_take he)
  · rcases List.mem_cons.mp he with rfl | he
    · exact hid
    · exact h.queue e (List.mem_of_mem_drop he)

theorem Session.Within.cancel (h : s.Within g) (id : NodeId) :
    (s.change fun a => { a with queue := a.queue.cancel id }).Within g :=
  h.change (f := fun a => { a with queue := a.queue.cancel id }) h.control
    (fun _ he => (List.mem_filter.mp he).1) (fun _ h => h)
    ((stable_fits g).setQueue s (fun a => a.queue.cancel id) h.fits)

theorem Session.Within.due (h : s.Within g) {now : Float} :
    ∀ id ∈ (s.state.queue.drainDue now).1, g.hasNode id = true := by
  intro id hid
  obtain ⟨e, he, rfl⟩ := List.mem_map.mp hid
  exact h.queue e (List.mem_of_mem_take he)

theorem Session.Within.drained (h : s.Within g) (now : Float) :
    (s.change fun a => { a with queue := (s.state.queue.drainDue now).2 }).Within g :=
  h.change h.control (fun _ he => List.mem_of_mem_drop he) (fun _ h => h)
    ((stable_fits g).setQueue s (fun _ => (s.state.queue.drainDue now).2) h.fits)

theorem Session.Within.handOver (h : s.Within g) (now : Float) : (s.handOver g now).Within g :=
  List.foldlRecOn (motive := Session.Within g) _ _ (h.drained now) fun _ hs id hid =>
    hs.switchTo (h.due id hid)

end Within

end BehaviourGraph
