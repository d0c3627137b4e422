import BehaviourGraph.Proofs.Bounds
import BehaviourGraph.Proofs.Walk.Lockstep

/-!
# Checked walks

The walk once more, with a check before every access: an element is looked up only where the graph
and the tables of the state have a place for it, and everything breaks off where they do not.  From a
session within its graph every checked part does the same as the part without checks and stays within
the graph.  So no walk, no relaxation and no sweep ever looks for an element that is missing, whatever
a host asks for.
-/

namespace BehaviourGraph

variable {κ τ ρ α β : Type}

instance ElementMap.decidableHolds (m : ElementMap α) : (e : Element) → Decidable (m.holds e)
  | .node id => inferInstanceAs (Decidable (id.index < m.nodes.size))
  | .transition id => inferInstanceAs (Decidable (id.index < m.transitions.size))

namespace Checked

/-! ## Changes of a state -/

def clear (g : Graph κ) (m : Marking) (e : Element) : Option Marking :=
  if g.hasElement e ∧ m.holds e then some (m.clear e) else none

def cascade (g : Graph κ) : Nat → Element → Marking → Option Marking
  | 0, e, m => if g.hasElement e ∧ m.holds e then some m else none
  | depth + 1, e, m =>
    if g.hasElement e ∧ m.holds e then
      if m.has e then (g.next e).foldlM (fun m f => cascade g depth f m) (m.clear e) else some m
    else none

def relax (g : Graph κ) (flag : Flag) (e : Element) (s : State) : Option State :=
  match flag with
  | .active => (cascade g s.active.size e s.active).map fun active => { s with active }
  | .visited => (cascade g s.visited.size e s.visited).map fun visited => { s with visited }

def relaxPort (g : Graph κ) (id : NodeId) (port : Port) (s : State) : Option State :=
  if g.hasNode id then
    (g.exits id port).foldlM
      (fun s t => relax g .visited (.transition t) s >>= relax g .active (.transition t)) s
  else none

def relaxOthers (g : Graph κ) (id : NodeId) (n : Node κ) (chosen : Option Port) (s : State) :
    Option State :=
  (n.behaviour.ports.filter fun port => some port ≠ chosen).foldlM
    (fun s port => relaxPort g id port s) s

def sweep (g : Graph κ) (s : State) : Option State :=
  (s.trail.foldlM (clear g) s.visited).map fun visited => { s with visited, trail := [] }

def hasPlace (g : Graph κ) (s : State) (e : Element) : Bool :=
  g.hasElement e && decide (s.active.holds e) && decide (s.visited.holds e) &&
    decide (s.status.holds e) &&
      match e with
      | .node _ => true
      | .transition t => t.index < s.firings.size

/-! ## Parts of a walk -/

section Walks

variable (g : Graph κ) (fault : Abort)

/-- Break off unless there is a place for an element. -/
def demand (e : Element) : Walk κ τ ρ Unit := fun s =>
  if hasPlace g s.state e then .ok () s else .error fault s

def alter (f : State → Option State) : Walk κ τ ρ Unit := fun s =>
  match f s.state with
  | some state => .ok () { s with state }
  | none => .error fault s

def switchTo (id : NodeId) : Walk κ τ ρ Unit := do
  let s ← get
  let previous := s.state.control
  if previous = id then pure ()
  else do
    alter fault (relax g .visited (.node previous))
    alter fault (relax g .active (.node previous))
    Walk.change fun state => { state with control := id }
    Walk.report (.activeChanged previous id)

def claim (id : NodeId) : Walk κ τ ρ Unit := do
  switchTo g fault id
  demand g fault (.node id)
  Walk.change (State.mark (.node id))

def commit (id : NodeId) (n : Node κ) (chosen : Option Port) : Walk κ τ ρ Unit := do
  Walk.record (.chose id chosen)
  if n.kind ≠ .loop then pure ()
  else if chosen = some .body then claim g fault id
  else switchTo g fault entryNode
  alter fault (relaxOthers g id n chosen)

def handOver (now : Float) : Walk κ τ ρ Unit := do
  let s ← get
  let (due, queue) := s.state.queue.drainDue now
  Walk.change fun state => { state with queue }
  forM due (switchTo g fault)

def enter (id : NodeId) (n : Node κ) : Walk κ τ ρ Bool := do
  if n.kind = .entry then
    Walk.record (.entered id)
    Walk.runHook (.preTick id) n.preTick
    Walk.change (State.mark (.node id))
    return true
  let s ← get
  if s.state.control ≠ id && s.state.has .visited (.node id) then return false
  Walk.record (.entered id)
  Walk.change (State.mark (.node id))
  Walk.runHook (.preTick id) n.preTick
  if n.capturesControl then claim g fault id
  Walk.change (State.setStatus (.node id) .normal)
  return true

def leave (id : NodeId) (n : Node κ) : Walk κ τ ρ Unit := do
  let s ← get
  if n.kind ≠ .entry && s.state.control = id then alter fault (relax g .visited (.node id))
  Walk.runHook (.postTick id) n.postTick
  Walk.record (.left id)

/-- Act as a node.  Flags and status of the node itself are looked up again and again; that there is
a place for it is demanded at the beginning, as no step changes the size of a table. -/
def runNode (id : NodeId) (n : Node κ) (tick : TransitionId → Walk κ τ ρ Bool) : Walk κ τ ρ Unit := do
  demand g fault (.node id)
  if ← enter g fault id n then
    let port ← Walk.choose id n
    commit g fault id n port
    match port with
    | some port => Walk.fanOut tick (g.exits id port)
    | none => pure ()
    leave g fault id n

variable [Clock κ τ] [RandomSource ρ]

def tickTransition (visit : NodeId → Walk κ τ ρ Unit) (id : TransitionId) : Walk κ τ ρ Bool := do
  demand g fault (.transition id)
  match g.transition? id with
  | none => throw fault
  | some t =>
    Walk.record (.ticked id)
    if t.capturesControl then switchTo g fault t.start
    Walk.follow visit id t

def visit : Nat → NodeId → Walk κ τ ρ Unit
  | 0, id => Walk.report (.depthExceeded id g.config.maxTickDepth)
  | budget + 1, id => do
    Walk.change fun s => { s with depth := s.depth + 1 }
    match g.node? id with
    | some n => runNode g fault id n (tickTransition g fault (visit budget))
    | none => throw fault
    Walk.change fun s => { s with depth := s.depth - 1 }

def tick : Walk κ τ ρ Unit := do
  alter fault (sweep g)
  let now ← Walk.readClock
  handOver g fault now
  let s ← get
  Walk.report (.tickStarted s.state.control)
  Walk.change fun s => { s with depth := 0 }
  visit g fault g.config.maxTickDepth s.state.control
  alter fault (sweep g)
  let s ← get
  Walk.report (.tickEnded s.state.control)

end Walks

end Checked

/-! ## Changes inside the graph -/

/-- Steps that succeed as long as a property holds, and keep it, succeed together. -/
theorem foldlM_eq_some {P : β → Prop} {step : β → α → β} {step? : β → α → Option β} (as : List α)
    (hstep : ∀ b, ∀ a ∈ as, P b → step? b a = some (step b a) ∧ P (step b a)) {b : β} (hb : P b) :
    as.foldlM step? b = some (as.foldl step b) ∧ P (as.foldl step b) := by
  induction as generalizing b with
  | nil => exact ⟨rfl, hb⟩
  | cons a as ih =>
      obtain ⟨hfirst, hkept⟩ := hstep b a List.mem_cons_self hb
      rw [List.foldlM_cons, hfirst]
      exact ih (fun b a ha => hstep b a (List.mem_cons_of_mem _ ha)) hkept

namespace Checked

section Changes

variable {g : Graph κ} {e : Element} {s : State}

theorem clear_eq {m : Marking} (hm : m.Fits g) (he : g.hasElement e = true) :
    clear g m e = some (m.clear e) :=
  if_pos ⟨he, (hm.holds_iff e).mpr he⟩

theorem sweep_eq (hs : s.Fits g) (htrail : ∀ e ∈ s.trail, g.hasElement e = true) :
    sweep g s = some s.sweep := by
  have hcleared := foldlM_eq_some (P := fun m : Marking => m.Fits g) s.trail
    (fun m e he hm => ⟨clear_eq hm (htrail e he), hm.below (Marking.clear_below m e)⟩) hs.visited
  rw [sweep, hcleared.1]
  rfl

theorem hasPlace_eq_true (hs : s.Fits g) (he : g.hasElement e = true) : hasPlace g s e = true := by
  have hactive := (hs.active.holds_iff e).mpr he
  have hvisited := (hs.visited.holds_iff e).mpr he
  have hstatus := (hs.status.holds_iff e).mpr he
  cases e with
  | node id => simp [hasPlace, he, hactive, hvisited, hstatus]
  | transition t =>
      have hfirings : t.index < s.firings.size := by
        rw [hs.firings]
        exact of_decide_eq_true he
      simp [hasPlace, he, hactive, hvisited, hstatus, hfirings]

variable (hg : g.Built)
include hg

theorem cascade_eq (depth : Nat) {m : Marking} (hm : m.Fits g) (he : g.hasElement e = true) :
    cascade g depth e m = some (m.cascade g.next depth e) := by
  -- the checks below the element see markings with fewer flags, but of the same size
  induction depth generalizing e m with
  | zero => exact if_pos ⟨he, (hm.holds_iff e).mpr he⟩
  | succ depth ih =>
      unfold cascade Marking.cascade
      rw [if_pos ⟨he, (hm.holds_iff e).mpr he⟩]
      split
      · have hrest := foldlM_eq_some (P := fun m : Marking => m.Fits g) (g.next e)
          (fun m f hf hm => ⟨ih hm (hg.hasElement_next hf),
            hm.below (Marking.cascade_below g.next depth f m)⟩) (hm.below (Marking.clear_below m e))
        exact hrest.1
      · rfl

theorem relax_eq (hs : s.Fits g) (flag : Flag) (he : g.hasElement e = true) :
    relax g flag e s = some (s.relax g flag e) := by
  cases flag with
  | active =>
      rw [relax, cascade_eq hg _ hs.active he]
      rfl
  | visited =>
      rw [relax, cascade_eq hg _ hs.visited he]
      rfl

theorem relaxPort_eq (hs : s.Fits g) {id : NodeId} (hid : g.hasNode id = true) (port : Port) :
    relaxPort g id port s = some (s.relaxPort g id port) ∧ (s.relaxPort g id port).Fits g := by
  rw [relaxPort, if_pos hid]
  refine foldlM_eq_some (P := State.Fits g) (g.exits id port) (fun s t ht hs => ?_) hs
  have he : g.hasElement (.transition t) = true := hg.consistent.listed.exits_exist id port t ht
  have hvisited := hs.relax .visited (.transition t)
  rw [relax_eq hg hs .visited he]
  exact ⟨relax_eq hg hvisited .active he, hvisited.relax .active _⟩

theorem relaxOthers_eq (hs : s.Fits g) {id : NodeId} (hid : g.hasNode id = true) (n : Node κ)
    (chosen : Option Port) : relaxOthers g id n chosen s = some (s.relaxOthers g id n chosen) :=
  (foldlM_eq_some (P := State.Fits g) _ (fun _ port _ hs => relaxPort_eq hg hs hid port) hs).1

end Changes

end Checked

/-! ## Walks that do the same -/

namespace Walk

/-- From sessions inside a graph two walks do the same, and stay inside. -/
abbrev Same (g : Graph κ) (w w' : Walk κ τ ρ α) : Prop :=
  Matches (fun s s' => s = s' ∧ s.Within g) Eq w w'

section Same

variable {g : Graph κ} {s : Session κ τ ρ}

theorem Keeps.same {w : Walk κ τ ρ α} (h : Keeps (Session.Within g) w) : Same g w w := by
  rintro s _ ⟨rfl, hs⟩
  have hkept := h s hs
  unfold Leads at hkept
  generalize w s = result at hkept ⊢
  cases result with
  | ok a s => exact .ends rfl ⟨rfl, hkept⟩
  | error cause s => exact .breaks cause ⟨rfl, hkept⟩

theorem Same.eq {w w' : Walk κ τ ρ α} (h : Same g w w') (hs : s.Within g) : w s = w' s := by
  have hmatch := h s s ⟨rfl, hs⟩
  generalize w s = result at hmatch ⊢
  generalize w' s = result' at hmatch ⊢
  cases hmatch with
  | ends hvalue hs => rw [hvalue, hs.1]
  | breaks cause hs => rw [hs.1]

theorem Same.keeps {w w' : Walk κ τ ρ α} (h : Same g w w') : Keeps (Session.Within g) w' := by
  intro s hs
  have hmatch := h s s ⟨rfl, hs⟩
  unfold Leads
  generalize w s = result at hmatch
  generalize w' s = result' at hmatch ⊢
  cases hmatch with
  | ends _ hs => exact hs.1 ▸ hs.2
  | breaks _ hs => exact hs.1 ▸ hs.2

theorem same_modify {w : Walk κ τ ρ Unit} {f : Session κ τ ρ → Session κ τ ρ}
    (hw : ∀ s, s.Within g → w.Leads s (fun _ s' => s' = f s) fun _ => False)
    (hf : ∀ s, s.Within g → (f s).Within g) : Same g w (modify f) := by
  rintro s _ ⟨rfl, hs⟩
  have hleads := hw s hs
  unfold Leads at hleads
  generalize w s = result at hleads ⊢
  cases result with
  | ok _ s' =>
      subst hleads
      exact .ends rfl ⟨rfl, hf s hs⟩
  | error cause s' => exact hleads.elim

theorem same_change {f : State → State} (h : ∀ s : Session κ τ ρ, s.Within g → (s.change f).Within g) :
    Same g (change f : Walk κ τ ρ Unit) (change f) :=
  (keeps_change h).same

theorem same_record {e : Event κ} (he : e.Inside g) :
    Same g (record e : Walk κ τ ρ Unit) (record e) :=
  (keeps_record fun _ hs => hs.record he).same

theorem same_runHook {call : Call} {e : Element} (hcall : call.element? = some e)
    (he : g.hasElement e = true) (hook : Option (Hook κ)) :
    Same g (runHook call hook : Walk κ τ ρ Unit) (runHook call hook) :=
  (inert_within.runHook (fun _ _ _ => Event.inside_of_element hcall he) hook).same

end Same

end Walk

namespace Checked

section Changes

variable {g : Graph κ} {fault : Abort} {s : Session κ τ ρ} {id : NodeId} {n : Node κ}
  {ends : Unit → Session κ τ ρ → Prop} {breaks : Session κ τ ρ → Prop}

theorem leads_demand {e : Element} (hs : s.Within g) (he : g.hasElement e = true) :
    (demand g fault e).Leads s ends breaks ↔ ends () s := by
  unfold Walk.Leads demand
  rw [if_pos (hasPlace_eq_true hs.fits he)]

theorem leads_alter {f : State → Option State} {f' : State → State}
    (h : f s.state = some (f' s.state)) :
    (alter fault f).Leads s ends breaks ↔ ends () (s.change f') := by
  unfold Walk.Leads alter
  rw [h]
  rfl

variable (hg : g.Built)
include hg

theorem leads_switchTo (hs : s.Within g) :
    (switchTo g fault id).Leads s ends breaks ↔ ends () (s.switchTo g id) := by
  unfold switchTo Session.switchTo
  rw [Walk.leads_bind, Walk.leads_get]
  dsimp only
  split
  · exact Iff.rfl
  · have hcontrol : g.hasElement (.node s.state.control) = true := hs.control
    have hvisited := hs.relax .visited (.node s.state.control)
    rw [Walk.leads_bind, leads_alter (relax_eq hg hs.fits .visited hcontrol), Walk.leads_bind,
      leads_alter (relax_eq hg hvisited.fits .active hcontrol)]
    exact Iff.rfl

theorem leads_claim (hs : s.Within g) (hid : g.hasNode id = true) :
    (claim g fault id).Leads s ends breaks ↔ ends () (s.claim g id) := by
  unfold claim
  rw [Walk.leads_bind, leads_switchTo hg hs, Walk.leads_bind,
    leads_demand (hs.switchTo hid) (e := .node id) hid, Walk.leads_change]
  exact Iff.rfl

theorem leads_commit (hs : s.Within g) (hid : g.hasNode id = true) (chosen : Option Port) :
    (commit g fault id n chosen).Leads s ends breaks ↔ ends () (s.commit g id n chosen) := by
  have hchose := hs.record (e := .chose id chosen) (Event.inside_of_element rfl hid)
  have hothers (s : Session κ τ ρ) (hs : s.Within g) :
      (alter fault (relaxOthers g id n chosen)).Leads s ends breaks ↔
        ends () (s.change (State.relaxOthers g id n chosen)) :=
    leads_alter (relaxOthers_eq hg hs.fits hid n chosen)
  unfold commit Session.commit
  rw [Walk.leads_bind, Walk.leads_record]
  dsimp only
  split
  · exact hothers _ hchose
  · split
    · rw [Walk.leads_bind, leads_claim hg hchose hid]
      exact hothers _ ((hchose.switchTo hid).mark hid)
    · rw [Walk.leads_bind, leads_switchTo hg hchose]
      exact hothers _ (hchose.switchTo hg.wired.hasNode_entry)

theorem leads_handOver (hs : s.Within g) (now : Float) :
    (handOver g fault now).Leads s ends breaks ↔ ends () (s.handOver g now) := by
  have hswitches (ids : List NodeId) (hids : ∀ id ∈ ids, g.hasNode id = true) (s : Session κ τ ρ)
      (hs : s.Within g) :
      (forM ids (switchTo g fault)).Leads s ends breaks ↔
        ends () (ids.foldl (fun s id => s.switchTo g id) s) := by
    induction ids generalizing s with
    | nil => exact Iff.rfl
    | cons id ids ih =>
        have hswitched := hs.switchTo (hids id List.mem_cons_self)
        rw [List.forM_cons, Walk.leads_bind, leads_switchTo hg hs]
        exact ih (fun id hid => hids id (List.mem_cons_of_mem _ hid)) _ hswitched
  unfold handOver Session.handOver
  rw [Walk.leads_bind, Walk.leads_get]
  dsimp only
  rw [Walk.leads_bind, Walk.leads_change]
  exact hswitches _ hs.due _ (hs.drained now)

end Changes

/-! ## Walks inside their graph -/

section Walks

variable {g : Graph κ} {fault : Abort} {id : NodeId} {n : Node κ}
  (hg : g.Built)

/-- Where there is a place for an element it can be demanded. -/
theorem same_demand {e : Element} (he : g.hasElement e = true) {w w' : Walk κ τ ρ α}
    (h : Walk.Same g w w') : Walk.Same g (demand g fault e >>= fun _ => w) w' := by
  have hdemand : Walk.Same g (demand g fault e : Walk κ τ ρ Unit) (modify fun s => s) :=
    Walk.same_modify (fun s hs => (leads_demand hs he).mpr rfl) fun _ hs => hs
  exact hdemand.then fun _ => h

include hg

theorem same_switchTo (hid : g.hasNode id = true) :
    Walk.Same g (switchTo g fault id : Walk κ τ ρ Unit) (modify (Session.switchTo g id)) :=
  Walk.same_modify (fun _ hs => (leads_switchTo hg hs).mpr rfl) fun _ hs => hs.switchTo hid

theorem same_relax (flag : Flag) {e : Element} (he : g.hasElement e = true) :
    Walk.Same g (alter fault (relax g flag e) : Walk κ τ ρ Unit)
      (Walk.change (State.relax g flag e)) :=
  Walk.same_modify (fun _ hs => (leads_alter (relax_eq hg hs.fits flag he)).mpr rfl)
    fun _ hs => hs.relax flag e

theorem same_enter (hid : g.hasNode id = true) :
    Walk.Same g (enter g fault id n : Walk κ τ ρ Bool) (Walk.enter g id n) := by
  have he : g.hasElement (.node id) = true := hid
  have hentered : Walk.Same g (Walk.record (.entered id) : Walk κ τ ρ Unit)
      (Walk.record (.entered id)) := Walk.same_record (Event.inside_of_element rfl hid)
  have hmark : Walk.Same g (Walk.change (State.mark (.node id)) : Walk κ τ ρ Unit)
      (Walk.change (State.mark (.node id))) := Walk.same_change fun _ hs => hs.mark hid
  have hhook : Walk.Same g (Walk.runHook (.preTick id) n.preTick : Walk κ τ ρ Unit)
      (Walk.runHook (.preTick id) n.preTick) := Walk.same_runHook rfl he n.preTick
  have hclaim : Walk.Same g (claim g fault id : Walk κ τ ρ Unit) (modify (Session.claim g id)) :=
    Walk.same_modify (fun _ hs => (leads_claim hg hs hid).mpr rfl)
      fun _ hs => (hs.switchTo hid).mark hid
  have hnormal : Walk.Same g
      (do Walk.change (State.setStatus (.node id) .normal); return true : Walk κ τ ρ Bool)
      (do Walk.change (State.setStatus (.node id) .normal); return true) :=
    (Walk.same_change fun s hs => inert_within.setStatus s _ _ hs).then fun _ => .pure rfl
  unfold enter Walk.enter
  refine .ite ?_ (Walk.matches_get.bind fun s s' hs => ?_)
  · exact hentered.then fun _ => hhook.then fun _ => hmark.then fun _ => .pure rfl
  · obtain ⟨rfl, _⟩ := hs
    refine .ite (.pure rfl) (hentered.then fun _ => hmark.then fun _ => hhook.then fun _ => ?_)
    exact .ite (hclaim.then fun _ => hnormal) hnormal

theorem same_leave (hid : g.hasNode id = true) :
    Walk.Same g (leave g fault id n : Walk κ τ ρ Unit) (Walk.leave g id n) := by
  have he : g.hasElement (.node id) = true := hid
  have hrest : Walk.Same g
      (do Walk.runHook (.postTick id) n.postTick; Walk.record (.left id) : Walk κ τ ρ Unit)
      (do Walk.runHook (.postTick id) n.postTick; Walk.record (.left id)) :=
    (Walk.same_runHook rfl he n.postTick).then fun _ =>
      Walk.same_record (Event.inside_of_element rfl hid)
  unfold leave Walk.leave
  refine Walk.matches_get.bind fun s s' hs => ?_
  obtain ⟨rfl, _⟩ := hs
  exact .ite ((same_relax hg .visited he).then fun _ => hrest) hrest

theorem same_runNode (hid : g.hasNode id = true) {tick tick' : TransitionId → Walk κ τ ρ Bool}
    (htick : ∀ t, g.hasTransition t = true → Walk.Same g (tick t) (tick' t)) :
    Walk.Same g (runNode g fault id n tick) (Walk.runNode g id n tick') := by
  have he : g.hasElement (.node id) = true := hid
  have hchoose : Walk.Same g (Walk.choose id n : Walk κ τ ρ (Option Port)) (Walk.choose id n) :=
    (inert_within.choose (fun _ _ _ => inside_report g _) (fun _ _ _ => Event.inside_of_element rfl hid)
      fun _ _ _ _ => Event.inside_of_element rfl hid).same
  have hcommit (port : Option Port) :
      Walk.Same g (commit g fault id n port : Walk κ τ ρ Unit) (modify (Session.commit g id n port)) :=
    Walk.same_modify (fun _ hs => (leads_commit hg hs hid port).mpr rfl)
      fun _ hs => hs.commit hg.wired.hasNode_entry hid n port
  have hleave : Walk.Same g (leave g fault id n : Walk κ τ ρ Unit) (Walk.leave g id n) :=
    same_leave hg hid
  unfold runNode Walk.runNode
  refine same_demand he ?_
  refine (same_enter hg hid).then fun goes => .ite ?_ (.pure rfl)
  refine hchoose.then fun port => (hcommit port).then fun _ => ?_
  cases port with
  | none => exact hleave
  | some port =>
      have hfan : Walk.Same g (Walk.fanOut tick (g.exits id port))
          (Walk.fanOut tick' (g.exits id port)) :=
        Walk.matches_fanOut fun t ht => htick t (hg.consistent.listed.exits_exist id port t ht)
      exact hfan.then fun _ => hleave

variable [Clock κ τ] [RandomSource ρ]

omit hg in
theorem same_follow {visit visit' : NodeId → Walk κ τ ρ Unit} {t : TransitionId} {tr : Transition κ}
    (he : g.hasElement (.transition t) = true)
    (hvisit : Walk.Same g (visit tr.finish) (visit' tr.finish)) :
    Walk.Same g (Walk.follow visit t tr) (Walk.follow visit' t tr) := by
  have hinside (e : Event κ) (hevent : e.element? = some (.transition t)) : e.Inside g :=
    Event.inside_of_element hevent he
  have hgates : Walk.Keeps (Session.Within g) (Walk.rollGates t tr : Walk κ τ ρ Bool) :=
    inert_within.keeps_rollGates (fun _ _ _ => hinside _ rfl) (fun _ _ => hinside _ rfl)
      (fun s firing => inert_within.setFiring s t firing) tr
  have hmark : Walk.Same g (Walk.change (State.mark (.transition t)) : Walk κ τ ρ Unit)
      (Walk.change (State.mark (.transition t))) := Walk.same_change fun _ hs => hs.mark he
  have hguard : Walk.Same g (Walk.passesGuard t tr : Walk κ τ ρ Bool) (Walk.passesGuard t tr) :=
    (inert_within.passesGuard (fun _ _ _ => inside_report g _) (fun _ _ _ => hinside _ rfl) tr).same
  have hopened : Walk.Same g (Walk.record (.opened t) : Walk κ τ ρ Unit) (Walk.record (.opened t)) :=
    Walk.same_record (hinside _ rfl)
  unfold Walk.follow
  refine hgates.same.then fun opens => .ite (.pure rfl) (hmark.then fun _ => ?_)
  refine hguard.then fun passes => .ite (.pure rfl) (hopened.then fun _ => ?_)
  exact hvisit.then fun _ => .pure rfl

theorem same_tickTransition {visit visit' : NodeId → Walk κ τ ρ Unit}
    (hvisit : ∀ id, g.hasNode id = true → Walk.Same g (visit id) (visit' id)) {t : TransitionId}
    (ht : g.hasTransition t = true) :
    Walk.Same g (tickTransition g fault visit t) (Walk.tickTransition g visit' t) := by
  have he : g.hasElement (.transition t) = true := ht
  obtain ⟨tr, htr⟩ := Graph.hasTransition_iff.mp ht
  have hticked : Walk.Same g (Walk.record (.ticked t) : Walk κ τ ρ Unit) (Walk.record (.ticked t)) :=
    Walk.same_record (Event.inside_of_element rfl he)
  have hfollow : Walk.Same g (Walk.follow visit t tr) (Walk.follow visit' t tr) :=
    same_follow he (hvisit tr.finish (hg.wired.hasNode_finish htr))
  unfold tickTransition Walk.tickTransition
  refine same_demand he ?_
  rw [htr]
  refine hticked.then fun _ => .ite ?_ hfollow
  exact (same_switchTo hg (hg.wired.hasNode_start htr)).then fun _ => hfollow

theorem same_visit (budget : Nat) {id : NodeId} (hid : g.hasNode id = true) :
    Walk.Same g (visit g fault budget id : Walk κ τ ρ Unit) (Walk.visit g budget id) := by
  -- transitions lead to nodes only, so the node ticks below are again asked for nodes of the graph
  induction budget generalizing id with
  | zero => exact Walk.same_record (inside_report g _)
  | succ budget ih =>
      have hdepth (depth : Nat → Nat) : Walk.Same g
          (Walk.change fun s => { s with depth := depth s.depth } : Walk κ τ ρ Unit)
          (Walk.change fun s => { s with depth := depth s.depth }) :=
        Walk.same_change fun s hs => inert_within.setDepth s (fun a => depth a.depth) hs
      obtain ⟨n, hn⟩ := Graph.hasNode_iff.mp hid
      unfold visit Walk.visit
      rw [hn]
      refine (hdepth (· + 1)).then fun _ => Walk.Matches.then ?_ fun _ => hdepth (· - 1)
      exact same_runNode hg hid fun t ht => same_tickTransition hg (fun id hid => ih hid) ht

theorem same_tick : Walk.Same g (tick g fault : Walk κ τ ρ Unit) (Walk.tick g) := by
  have hreport (r : Report) : Walk.Same g (Walk.report r : Walk κ τ ρ Unit) (Walk.report r) :=
    Walk.same_record (inside_report g r)
  have hsweep : Walk.Same g (alter fault (sweep g) : Walk κ τ ρ Unit) (Walk.change State.sweep) :=
    Walk.same_modify (fun _ hs => (leads_alter (sweep_eq hs.fits hs.trail)).mpr rfl)
      fun _ hs => hs.sweep
  have hread : Walk.Same g (Walk.readClock : Walk κ τ ρ Float) Walk.readClock :=
    inert_within.readClock.same
  have hhanded (now : Float) : Walk.Same g (handOver g fault now : Walk κ τ ρ Unit)
      (modify (Session.handOver g now)) :=
    Walk.same_modify (fun _ hs => (leads_handOver hg hs now).mpr rfl) fun _ hs => hs.handOver now
  have hdepth : Walk.Same g (Walk.change fun s => { s with depth := 0 } : Walk κ τ ρ Unit)
      (Walk.change fun s => { s with depth := 0 }) :=
    Walk.same_change fun s hs => inert_within.setDepth s (fun _ => 0) hs
  unfold tick Walk.tick
  refine hsweep.then fun _ => hread.then fun now => (hhanded now).then fun _ => ?_
  refine Walk.matches_get.bind fun s s' hs => ?_
  obtain ⟨rfl, hs⟩ := hs
  refine (hreport _).then fun _ => hdepth.then fun _ => ?_
  refine (same_visit hg _ hs.control).then fun _ => hsweep.then fun _ => ?_
  refine Walk.matches_get.bind fun s s' hs => ?_
  obtain ⟨rfl, _⟩ := hs
  exact hreport _

end Walks

end Checked

/-! ## Requests -/

section Requests

variable [Clock κ τ] [RandomSource ρ] {g : Graph κ} {s : Session κ τ ρ}
  (hg : g.Built)
include hg

theorem Session.Within.perform (h : s.Within g) (operation : Operation) :
    (s.perform g operation).2.Within g := by
  have htick : Walk.Same g (Checked.tick g .noDraw : Walk κ τ ρ Unit) (Walk.tick g) :=
    Checked.same_tick hg
  have hreset : (Walk.reset g).Leads s (fun _ => Session.Within g) (Session.Within g) := by
    unfold Walk.reset
    rw [Walk.leads_bind, Walk.leads_modify, Walk.leads_bind]
    exact (inert_within.runHook (fun _ _ _ => Event.inside_of_none rfl) g.onReset).leads
      (h.switchTo hg.wired.hasNode_entry) (fun _ _ hs => hs.record (inside_report g _)) fun _ hs => hs
  exact perform_cases (P := fun outcome => outcome.2.Within g) operation (htick.keeps.run h)
    hreset.run (fun _ hid => h.switchTo hid) (fun _ due hid => h.push hid due) h.cancel
    (fun flag e _ => h.relax flag e) fun _ => h

theorem Session.Reachable.within (hs : s.Reachable g) : s.Within g := by
  induction hs with
  | start context clock random =>
      exact ⟨hg.wired.hasNode_entry, nofun, nofun, State.fits_start g, nofun⟩
  | surroundings context clock random _ ih => exact inert_within.surroundings _ context clock random ih
  | perform operation _ ih => exact ih.perform hg operation

end Requests

/-- A graph that has been built, by steps of which any may have failed, leads from nodes to nodes.  The
list of a node and those of its ports hold the transitions that steps have connected there, each once
and in order.  Every reachable session names elements of the graph only, so a check of all accesses
changes nothing about a tick, and neither about relaxing what a host may name nor about the sweep. -/
theorem built_graph_in_bounds [Clock κ τ] [RandomSource ρ] (config : Config)
    (onReset : Option (Hook κ)) (steps : List (BuildStep κ))
    (hentry : ∀ step ∈ steps, step.addsEntry = false) (g : Graph κ)
    (hbuild : (({ config, onReset } : Builder κ).takeAll steps).2.build = .ok g) :
    let answers := (({ config, onReset } : Builder κ).takeAll steps).1
    g.Joined ∧ g.Listed ∧
      (∀ id, g.outgoing id = connected (fun start _ => start = id) steps answers) ∧
      (∀ id port, g.exits id port =
        connected (fun start p => start = id && p = port) steps answers) ∧
      ∀ s : Session κ τ ρ, s.Reachable g → s.Within g ∧
        (∀ fault, Checked.tick g fault s = Walk.tick g s) ∧
        (∀ flag e, g.hasElement e = true →
          Checked.relax g flag e s.state = some (s.state.relax g flag e)) ∧
        Checked.sweep g s.state = some s.state.sweep := by
  intro answers
  have hg : g.Built := ⟨config, onReset, steps, hentry, hbuild⟩
  refine ⟨hg.wired.joined, hg.consistent.listed, fun id => ?_, fun id port => ?_, fun s hs => ?_⟩
  · rw [hg.consistent.outgoing]
    exact Builder.transitionsWhere_build (fun start _ => start = id) hbuild
  · rw [hg.consistent.exits]
    exact Builder.transitionsWhere_build (fun start p => start = id && p = port) hbuild
  · have hwithin := hs.within hg
    exact ⟨hwithin, fun fault => (Checked.same_tick hg).eq hwithin,
      fun flag _ he => Checked.relax_eq hg hwithin.fits flag he,
      Checked.sweep_eq hwithin.fits hwithin.trail⟩

/-- Steps of which two fail, one for an unknown node and one for a missing port. -/
def refusedSteps : List (BuildStep Unit) :=
  [.add "check" (.condition (.noArgs (pure (.ok true))) false) [], .link ⟨0⟩ ⟨7⟩, .link ⟨0⟩ ⟨1⟩,
    .connect ⟨1⟩ .body ⟨0⟩ {}, .connect ⟨1⟩ .whenTrue ⟨0⟩ {}]

def refusedGraph : Graph Unit := .ofSteps refusedSteps

def refusedTicked : Session Unit ManualClock Xoshiro :=
  ((Session.start refusedGraph () (ManualClock.mk 0.0) (Xoshiro.ofSeed 0)).perform refusedGraph
    .tick).2

theorem refused_in_bounds :
    refusedGraph.exits ⟨1⟩ .whenTrue = [⟨1⟩] ∧ refusedGraph.outgoing ⟨0⟩ = [⟨0⟩] ∧
      Checked.tick refusedGraph .noDraw refusedTicked = Walk.tick refusedGraph refusedTicked := by
  have hreach : refusedTicked.Reachable refusedGraph := .perform _ (.start _ _ _)
  obtain ⟨_, _, houtgoing, hexits, hsession⟩ := built_graph_in_bounds (τ := ManualClock)
    (ρ := Xoshiro) {} none refusedSteps (by decide) refusedGraph rfl
  obtain ⟨_, htick, _⟩ := hsession refusedTicked hreach
  refine ⟨(hexits ⟨1⟩ .whenTrue).trans ?_, (houtgoing ⟨0⟩).trans ?_, htick .noDraw⟩
  · rfl
  · rfl

end BehaviourGraph
