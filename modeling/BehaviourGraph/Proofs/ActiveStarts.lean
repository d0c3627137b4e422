import BehaviourGraph.Proofs.History
import BehaviourGraph.Proofs.Relaxation.Order
import BehaviourGraph.Proofs.Search
import BehaviourGraph.Proofs.Tables

/-!
# Starts of active transitions

Relaxation goes on from a node only if its flag is up, so an active transition whose start is inactive
is out of its reach.  A node is marked when it is entered, before any of its transitions fires, and
where relaxation takes a node down it takes its transitions down as well.  But a node that chooses
relaxes the ports that it does not choose, and from an earlier tick transitions may be active that lead
from there back to the node itself, or to a node whose transitions are being ticked above it.  Nothing
marks that node again.  Its transitions that fire from then on are the only exception.
-/

namespace BehaviourGraph

variable {κ τ ρ : Type}

/-! ## Nodes that are led back to -/

def Fired (events : List (Event κ)) (t : TransitionId) : Prop :=
  ∃ now cooldown, .fired t now cooldown ∈ events

/-- From a port of a node that a choice excludes, transitions that have fired lead to another node. -/
def Graph.LeadsBack (g : Graph κ) (id : NodeId) (choice : Option Port) (target : NodeId)
    (events : List (Event κ)) : Prop :=
  ∃ t tr, g.transition? t = some tr ∧ tr.start = id ∧ choice ≠ some tr.port ∧ Fired events t ∧
    g.Path (Fired events) tr.finish target

/-- While a port of a node has been pending since the node was last entered, a choice was made that
leads back to the node. -/
def Graph.Undermined (g : Graph κ) (target : NodeId) (port : Port) (events : List (Event κ)) : Prop :=
  ∃ earlier id choice later, events = earlier ++ .chose id choice :: later ∧
    some port ∈ pending target (earlier ++ [.chose id choice]) ∧
    g.LeadsBack id choice target earlier ∧ .entered target ∉ later

/-- When a transition fired last, a choice had led back to its start. -/
def Graph.FiredUndermined (g : Graph κ) (t : TransitionId) (tr : Transition κ)
    (events : List (Event κ)) : Prop :=
  ∃ earlier now cooldown later, events = earlier ++ .fired t now cooldown :: later ∧
    ¬Fired later t ∧ g.Undermined tr.start tr.port earlier

section Histories

variable {g : Graph κ} {t : TransitionId} {tr : Transition κ} {target : NodeId} {port : Port}
  {events : List (Event κ)} {e : Event κ}

theorem Fired.snoc (h : Fired events t) (e : Event κ) : Fired (events ++ [e]) t := by
  obtain ⟨now, cooldown, hmem⟩ := h
  exact ⟨now, cooldown, List.mem_append_left _ hmem⟩

theorem Graph.Undermined.snoc (h : g.Undermined target port events) (he : e ≠ .entered target) :
    g.Undermined target port (events ++ [e]) := by
  obtain ⟨earlier, id, choice, later, rfl, hpending, hleads, hlater⟩ := h
  refine ⟨earlier, id, choice, later ++ [e], by simp, hpending, hleads, fun hmem => ?_⟩
  rcases List.mem_append.mp hmem with hmem | hmem
  · exact hlater hmem
  · exact he (List.mem_singleton.mp hmem).symm

theorem Graph.FiredUndermined.snoc (h : g.FiredUndermined t tr events)
    (he : ∀ now cooldown, e ≠ .fired t now cooldown) : g.FiredUndermined t tr (events ++ [e]) := by
  obtain ⟨earlier, now, cooldown, later, rfl, hlater, hundermined⟩ := h
  refine ⟨earlier, now, cooldown, later ++ [e], by simp, ?_, hundermined⟩
  rintro ⟨now', cooldown', hmem⟩
  rcases List.mem_append.mp hmem with hmem | hmem
  · exact hlater ⟨now', cooldown', hmem⟩
  · exact he now' cooldown' (List.mem_singleton.mp hmem).symm

/-- A path of active transitions is one of transitions that have fired. -/
theorem Graph.leadsBack_of_region (hg : g.Consistent) {m : Marking} {id : NodeId} {n : Node κ}
    {choice : Option Port}
    (hfired : ∀ u, m.has (.transition u) = true → Fired events u) (ht : t ∈ g.excluded id n choice)
    (h : m.Region g.next (.transition t) (.node target)) : g.LeadsBack id choice target events := by
  obtain ⟨port, hexit, _, hexcluded⟩ := Graph.mem_excluded.mp ht
  obtain ⟨tr, htr, hstart, rfl⟩ := hg.mem_exits.mp hexit
  obtain ⟨hup, tr', htr', _, hpath⟩ := (Graph.region_iff_covers hg).mp h
  obtain rfl := Option.some.inj (htr.symm.trans htr')
  refine ⟨t, tr, htr, hstart, hexcluded, hfired t hup, hpath.lift (fun node => node) fun _ _ hstep => ?_⟩
  obtain ⟨u, ur, hur, hustart, hufinish, hu, _⟩ := hstep
  exact ⟨u, ur, hur, hustart, hufinish, hfired u hu⟩

end Histories

/-! ## Grounded sessions -/

/-- What a session tells of active transitions while some choices are waiting.  A pending port belongs
to an active node, and an active transition has an active start, unless a choice has led back to the
node. -/
structure Grounded (g : Graph κ) (waiting : NodeId → List (Option Port)) (s : Session κ τ ρ) :
    Prop where
  fits : s.state.Fits g
  pending_eq : ∀ id, pending id s.journal.toList = waiting id
  fired : ∀ t, s.state.has .active (.transition t) = true → Fired s.journal.toList t
  held : ∀ id port, some port ∈ waiting id →
    s.state.has .active (.node id) = true ∨ g.Undermined id port s.journal.toList
  start : ∀ t tr, g.transition? t = some tr → s.state.has .active (.transition t) = true →
    s.state.has .active (.node tr.start) = true ∨ g.FiredUndermined t tr s.journal.toList

structure Begun (g : Graph κ) (waiting : NodeId → List (Option Port)) (id : NodeId)
    (s : Session κ τ ρ) : Prop extends Grounded g waiting s where
  self : s.state.has .active (.node id) = true

def Event.Idle : Event κ → Prop
  | .entered _ => False
  | .chose _ _ => False
  | .left _ => False
  | .fired _ _ _ => False
  | _ => True

section Grounded

variable {g : Graph κ} {waiting : NodeId → List (Option Port)} {s : Session κ τ ρ} {id : NodeId}
  {n : Node κ} {t : TransitionId}

theorem Event.Idle.not_brackets {e : Event κ} (he : e.Idle) (id : NodeId) : ¬e.Brackets id := by
  cases e <;> simp_all [Event.Idle, Event.Brackets]

theorem Grounded.change (h : Grounded g waiting s) {f : State → State}
    (hfits : (f s.state).Fits g) (hactive : (f s.state).active = s.state.active) :
    Grounded g waiting (s.change f) := by
  have hhas (e : Element) : (s.change f).state.has .active e = s.state.has .active e :=
    congrArg (fun m => Marking.has m e) hactive
  refine ⟨hfits, h.pending_eq, fun t ht => ?_, fun id port hport => ?_, fun t tr htr hup => ?_⟩
  · rw [hhas] at ht
    exact h.fired t ht
  · rw [hhas]
    exact h.held id port hport
  · rw [hhas] at hup ⊢
    exact h.start t tr htr hup

theorem Grounded.record (h : Grounded g waiting s) {e : Event κ} (he : e.Idle) :
    Grounded g waiting (s.record e) := by
  have hjournal : (s.record e).journal.toList = s.journal.toList ++ [e] := s.toList_record e
  refine ⟨h.fits, fun id => ?_, fun t ht => ?_, fun id port hport => ?_, fun t tr htr hup => ?_⟩
  · rw [hjournal, pending_snoc, pendingAfter_of_not_brackets (he.not_brackets id), h.pending_eq]
  · rw [hjournal]
    exact (h.fired t ht).snoc e
  · rw [hjournal]
    refine (h.held id port hport).imp_right fun hundermined => hundermined.snoc ?_
    rintro rfl
    exact he
  · rw [hjournal]
    refine (h.start t tr htr hup).imp_right fun hundermined => hundermined.snoc fun _ _ => ?_
    rintro rfl
    exact he

theorem inert_grounded : Walk.Inert (Grounded (τ := τ) (ρ := ρ) g waiting) Event.Idle where
  surroundings _ _ _ _ hs := ⟨hs.fits, hs.pending_eq, hs.fired, hs.held, hs.start⟩
  record _ _ he hs := hs.record he
  setStatus s e status hs := hs.change ((stable_fits g).setStatus s e status hs.fits) rfl
  setFiring s t firing hs := hs.change ((stable_fits g).setFiring s t firing hs.fits) rfl
  setDepth s depth hs := hs.change ((stable_fits g).setDepth s depth hs.fits) rfl

theorem inert_begun : Walk.Inert (Begun (τ := τ) (ρ := ρ) g waiting id) Event.Idle where
  surroundings s _ _ _ hs := ⟨inert_grounded.surroundings s _ _ _ hs.toGrounded, hs.self⟩
  record s e he hs := ⟨inert_grounded.record s e he hs.toGrounded, hs.self⟩
  setStatus s e status hs := ⟨inert_grounded.setStatus s e status hs.toGrounded, hs.self⟩
  setFiring s t firing hs := ⟨inert_grounded.setFiring s t firing hs.toGrounded, hs.self⟩
  setDepth s depth hs := ⟨inert_grounded.setDepth s depth hs.toGrounded, hs.self⟩

theorem Grounded.enter (h : Grounded g waiting s) (hn : g.node? id = some n) :
    Begun g waiting id ((s.record (.entered id)).change (State.mark (.node id))) := by
  have hself : (s.state.mark (.node id)).has .active (.node id) = true :=
    Marking.has_raise_self ((h.fits.active.holds_iff (.node id)).mpr (Graph.hasNode_iff.mpr ⟨n, hn⟩))
  have hjournal : (s.record (.entered id)).journal.toList = s.journal.toList ++ [.entered id] :=
    s.toList_record _
  refine ⟨⟨(stable_fits g).mark _ _ h.fits, fun node => ?_, fun t ht => ?_, fun node port hport => ?_,
    fun t tr htr hup => ?_⟩, hself⟩
  · show pending node (s.record (.entered id)).journal.toList = waiting node
    rw [hjournal, pending_snoc, pendingAfter_of_not_brackets (by exact not_false), h.pending_eq]
  · show Fired (s.record (.entered id)).journal.toList t
    rw [hjournal]
    exact (h.fired t ((State.has_of_has_mark ht).resolve_left nofun)).snoc _
  · show _ ∨ g.Undermined node port (s.record (.entered id)).journal.toList
    rw [hjournal]
    by_cases hnode : node = id
    · subst hnode
      exact .inl hself
    · exact (h.held node port hport).imp Marking.has_raise_of_has fun hundermined =>
        hundermined.snoc (by simpa using Ne.symm hnode)
  · show _ ∨ g.FiredUndermined t tr (s.record (.entered id)).journal.toList
    rw [hjournal]
    exact (h.start t tr htr ((State.has_of_has_mark hup).resolve_left nofun)).imp
      Marking.has_raise_of_has fun hundermined => hundermined.snoc nofun

def pushed (waiting : NodeId → List (Option Port)) (id : NodeId) (chosen : Option Port) :
    NodeId → List (Option Port) :=
  fun node => if id = node then chosen :: waiting node else waiting node

theorem Session.active_commit (hloop : n.kind ≠ .loop) (chosen : Option Port) :
    (s.commit g id n chosen).state.active =
      ((g.excluded id n chosen).map .transition).foldl (fun m e => m.relax g.next e)
        s.state.active := by
  rw [commit_of_not_loop hloop]
  exact State.marking_relaxOthers .active

theorem Grounded.pending_chose (h : Grounded g waiting s) (chosen : Option Port) (node : NodeId) :
    pending node (s.journal.toList ++ [.chose id chosen]) = pushed waiting id chosen node := by
  rw [pending_snoc, h.pending_eq]
  rfl

/-- A choice that takes down a node while one of its ports is pending leads back to the node. -/
theorem Begun.held_commit (hg : g.Consistent) (h : Begun g waiting id s) (hloop : n.kind ≠ .loop)
    {chosen : Option Port} {node : NodeId} {port : Port} (hport : some port ∈ pushed waiting id chosen node) :
    (s.commit g id n chosen).state.has .active (.node node) = true ∨
      g.Undermined node port (s.journal.toList ++ [.chose id chosen]) := by
  have hbefore : s.state.has .active (.node node) = true ∨
      g.Undermined node port s.journal.toList := by
    by_cases hnode : id = node
    · exact .inl (hnode ▸ h.self)
    · exact h.held node port (by simpa [pushed, hnode] using hport)
  rcases hbefore with hup | hundermined
  · by_cases hafter : (s.commit g id n chosen).state.has .active (.node node) = true
    · exact .inl hafter
    · have hdown : ¬(s.commit g id n chosen).state.active.has (.node node) = true := hafter
      rw [Session.active_commit hloop, Marking.has_foldl_relax_iff] at hdown
      obtain ⟨t, ht, hregion⟩ : ∃ t ∈ g.excluded id n chosen,
          s.state.active.Region g.next (.transition t) (.node node) := by
        simpa [show s.state.active.has (.node node) = true from hup] using hdown
      exact .inr ⟨s.journal.toList, id, chosen, [], rfl, (h.pending_chose chosen node).symm ▸ hport,
        Graph.leadsBack_of_region hg h.fired ht hregion, List.not_mem_nil⟩
  · exact .inr (hundermined.snoc nofun)

/-- A node that chooses may take down nodes above it, and itself. -/
theorem Begun.commit (hg : g.Consistent) (h : Begun g waiting id s) (hloop : n.kind ≠ .loop)
    (chosen : Option Port) :
    Grounded g (pushed waiting id chosen) (s.commit g id n chosen) := by
  have hjournal : (s.commit g id n chosen).journal.toList =
      s.journal.toList ++ [.chose id chosen] := by
    rw [Session.commit_of_not_loop hloop]
    exact s.toList_record _
  have hbefore {t : TransitionId}
      (hup : (s.commit g id n chosen).state.active.has (.transition t) = true) :
      s.state.has .active (.transition t) = true := by
    rw [Session.active_commit hloop] at hup
    exact (Marking.has_foldl_relax_iff.mp hup).1
  refine ⟨(stable_fits g).commit s id n chosen h.fits, fun node => ?_, fun t ht => ?_,
    fun node port hport => ?_, fun t tr htr hup => ?_⟩
  · rw [hjournal, h.pending_chose]
  · rw [hjournal]
    exact (h.fired t (hbefore ht)).snoc _
  · rw [hjournal]
    exact h.held_commit hg hloop hport
  · rw [hjournal]
    refine (h.start t tr htr (hbefore hup)).imp (fun hstart => ?_) fun hundermined =>
      hundermined.snoc nofun
    -- a node that is taken down takes its transitions down with it
    have hnext : .transition t ∈ g.next (.node tr.start) :=
      hg.mem_next_node.mpr ⟨t, tr, rfl, htr, rfl⟩
    have hafter : (s.commit g id n chosen).state.active.has (.transition t) = true := hup
    show (s.commit g id n chosen).state.active.has (.node tr.start) = true
    rw [Session.active_commit hloop] at hafter ⊢
    exact Marking.has_foldl_relax_of_next hstart hnext hafter

/-- A transition fires while its port is pending. -/
theorem Grounded.fire (h : Grounded g waiting s)
    (hport : ∀ tr, g.transition? t = some tr → some tr.port ∈ waiting tr.start) (now : Float)
    (cooldown : Option Float32) :
    Grounded g waiting ((s.record (.fired t now cooldown)).change (State.mark (.transition t))) := by
  have hjournal : (s.record (.fired t now cooldown)).journal.toList =
      s.journal.toList ++ [.fired t now cooldown] := s.toList_record _
  refine ⟨(stable_fits g).mark _ _ h.fits, fun node => ?_, fun u hu => ?_, fun node port hpending => ?_,
    fun u tr htr hup => ?_⟩
  · show pending node (s.record (.fired t now cooldown)).journal.toList = waiting node
    rw [hjournal, pending_snoc, pendingAfter_of_not_brackets (by exact not_false), h.pending_eq]
  · show Fired (s.record (.fired t now cooldown)).journal.toList u
    rw [hjournal]
    rcases State.has_of_has_mark hu with heq | hu
    · cases heq
      exact ⟨now, cooldown, List.mem_append_right _ List.mem_cons_self⟩
    · exact (h.fired u hu).snoc _
  · show _ ∨ g.Undermined node port (s.record (.fired t now cooldown)).journal.toList
    rw [hjournal]
    exact (h.held node port hpending).imp Marking.has_raise_of_has fun hundermined =>
      hundermined.snoc nofun
  · show _ ∨ g.FiredUndermined u tr (s.record (.fired t now cooldown)).journal.toList
    rw [hjournal]
    by_cases htu : t = u
    · subst htu
      refine (h.held tr.start tr.port (hport tr htr)).imp Marking.has_raise_of_has
        fun hundermined => ?_
      exact ⟨s.journal.toList, now, cooldown, [], rfl, fun hnone => by simp [Fired] at hnone,
        hundermined⟩
    · have hbefore : s.state.has .active (.transition u) = true :=
        (State.has_of_has_mark hup).resolve_left (by simpa using Ne.symm htu)
      refine (h.start u tr htr hbefore).imp Marking.has_raise_of_has fun hundermined =>
        hundermined.snoc fun now' cooldown' heq => ?_
      cases heq
      exact htu rfl

theorem Grounded.left {chosen : Option Port} (h : Grounded g (pushed waiting id chosen) s) :
    Grounded g waiting (s.record (.left id)) := by
  have hjournal : (s.record (.left id)).journal.toList = s.journal.toList ++ [.left id] :=
    s.toList_record _
  refine ⟨h.fits, fun node => ?_, fun t ht => ?_, fun node port hport => ?_, fun t tr htr hup => ?_⟩
  · rw [hjournal, pending_snoc, h.pending_eq]
    by_cases hnode : id = node <;> simp [pendingAfter, pushed, hnode]
  · rw [hjournal]
    exact (h.fired t ht).snoc _
  · rw [hjournal]
    have hpushed : some port ∈ pushed waiting id chosen node := by
      unfold pushed
      split
      · exact List.mem_cons_of_mem _ hport
      · exact hport
    exact (h.held node port hpushed).imp_right fun hundermined => hundermined.snoc (by simp)
  · rw [hjournal]
    exact (h.start t tr htr hup).imp_right fun hundermined => hundermined.snoc (by simp)

/-! ## Grounded walks -/

section Walks

variable (hg : g.Consistent) (hpassive : g.Passive)
include hg hpassive

omit hg in
theorem Grounded.leads_enter (h : Grounded g waiting s) (hn : g.node? id = some n) :
    (Walk.enter g id n).Leads s
      (fun goes s => if goes then Begun g waiting id s else Grounded g waiting s) fun _ => True := by
  refine Walk.leads_enter (R := fun s => Begun g waiting id (s.change (State.mark (.node id))))
    (inert_begun.marked _).toDetached inert_begun.toDetached (fun _ _ _ => trivial)
    (fun _ hs _ => hs.enter hn)
    (fun _ hs => hs) (fun hcaptures => ?_) (fun _ _ => trivial) h
  rw [hpassive.node id n hn] at hcaptures
  cases hcaptures

theorem Grounded.leads_runNode {tick : TransitionId → Walk κ τ ρ Bool}
    (htick : ∀ t waiting s, (∀ tr, g.transition? t = some tr → some tr.port ∈ waiting tr.start) →
      Grounded g waiting s → (tick t).Leads s (fun _ => Grounded g waiting) fun _ => True)
    (hn : g.node? id = some n) (h : Grounded g waiting s) :
    (Walk.runNode g id n tick).Leads s (fun _ => Grounded g waiting) fun _ => True := by
  have hloop := hpassive.loop id n hn
  refine Walk.leads_runNode (F := fun port _ => Grounded g (pushed waiting id port))
    (h.leads_enter hpassive hn) (fun s hs => ?_) (fun port t ts s ht hs => ?_) fun port ts s hs => ?_
  · exact (inert_begun.choose (fun _ _ _ => trivial) (fun _ _ _ => trivial) fun _ _ _ _ => trivial).leads
      hs (fun port s hs => hs.commit hg hloop port) fun _ _ => trivial
  · refine htick t _ s (fun tr htr => ?_) hs
    obtain ⟨tr', htr', rfl, rfl⟩ := hg.mem_exits.mp ht
    obtain rfl := Option.some.inj (htr'.symm.trans htr)
    simp [pushed]
  · exact Walk.leads_leave inert_grounded.toAmbient (fun _ _ _ => trivial)
      (fun _ s hs _ => hs.change ((stable_fits g).relax s .visited _ hs.fits) rfl)
      (fun _ hs => hs.left) (fun _ _ => trivial) hs

variable [Clock κ τ] [RandomSource ρ]

omit hg in
theorem Grounded.leads_tickTransition {visit : NodeId → Walk κ τ ρ Unit}
    (hvisit : ∀ id s, Grounded g waiting s →
      (visit id).Leads s (fun _ => Grounded g waiting) fun _ => True)
    (ht : ∀ tr, g.transition? t = some tr → some tr.port ∈ waiting tr.start)
    (h : Grounded g waiting s) :
    (Walk.tickTransition g visit t).Leads s (fun _ => Grounded g waiting) fun _ => True := by
  refine Walk.leads_tickTransition (fun _ hs => hs) (fun _ hs => hs.record trivial)
    (fun tr s htr hcaptures _ => ?_) (fun tr s _ hs => ?_) h
  · rw [hpassive.transition t tr htr] at hcaptures
    cases hcaptures
  · exact Walk.leads_follow inert_grounded (fun _ _ _ => trivial) (fun _ _ _ => trivial)
      (fun _ _ _ => trivial) trivial (fun _ now cooldown hs => hs.fire ht now cooldown)
      (fun s hs => hvisit tr.finish s hs) (fun _ _ => trivial) hs

theorem Grounded.leads_visit (budget : Nat) (id : NodeId) (h : Grounded g waiting s) :
    (Walk.visit g budget id).Leads s (fun _ => Grounded g waiting) fun _ => True := by
  -- the waiting are the index of the family: ticks below a node keep its choice on top
  refine Walk.leads_visit (I := fun waiting => Grounded g waiting) (fun _ => inert_grounded)
    (fun _ => trivial) (fun visit hvisit waiting id n s hn hs => ?_) budget waiting id h
  refine hs.leads_runNode hg hpassive (fun t waiting s ht hs => ?_) hn
  exact hs.leads_tickTransition hpassive (hvisit waiting) ht

end Walks

end Grounded

/-! ## Between requests -/

section Requests

variable {g : Graph κ} {s : Session κ τ ρ} (hg : g.Consistent)
include hg

/-- While nothing is pending, relaxation takes the transitions of a node down with the node. -/
theorem Grounded.relax (h : Grounded g (fun _ => []) s) (flag : Flag) (e : Element) :
    Grounded g (fun _ => []) (s.change (State.relax g flag e)) := by
  have hfits := (stable_fits g).relax s flag e h.fits
  cases flag with
  | visited => exact h.change hfits rfl
  | active =>
      have hrelaxed (f : Element) : (s.state.relax g .active e).has .active f =
          ([e].foldl (fun m e => m.relax g.next e) s.state.active).has f := rfl
      refine ⟨hfits, h.pending_eq, fun t hup => ?_, fun _ _ hport => ?_, fun t tr htr hup => ?_⟩
      · exact h.fired t (State.has_of_has_relax hup)
      · cases hport
      · refine (h.start t tr htr (State.has_of_has_relax hup)).imp_left fun hstart => ?_
        have hnext : .transition t ∈ g.next (.node tr.start) :=
          hg.mem_next_node.mpr ⟨t, tr, rfl, htr, rfl⟩
        have hup' : (s.state.relax g .active e).has .active (.transition t) = true := hup
        show (s.state.relax g .active e).has .active (.node tr.start) = true
        rw [hrelaxed] at hup' ⊢
        exact Marking.has_foldl_relax_of_next hstart hnext hup'

theorem Grounded.switchTo (h : Grounded g (fun _ => []) s) (id : NodeId) :
    Grounded g (fun _ => []) (s.switchTo g id) := by
  unfold Session.switchTo
  dsimp only
  split
  · exact h
  · have hrelaxed := (h.relax hg .visited (.node s.state.control)).relax hg .active
      (.node s.state.control)
    have hswitched := hrelaxed.change (f := fun a => { a with control := id })
      ((stable_fits g).setControl _ id hrelaxed.fits) rfl
    exact hswitched.record (e := .reported _) trivial

variable [Clock κ τ]

theorem Grounded.walkStart (h : Grounded g (fun _ => []) s) :
    Grounded g (fun _ => []) (s.walkStart g) := by
  have hswept : Grounded g (fun _ => []) (s.change State.sweep) :=
    h.change ((stable_fits g).sweep s h.fits) rfl
  have hhanded (now : Float) (clock : τ) :
      Grounded g (fun _ => []) (Session.handOver g now { s.change State.sweep with clock }) :=
    List.foldlRecOn (motive := Grounded g fun _ => []) _ _
      ((inert_grounded.surroundings _ s.context clock s.random hswept).change
        ((stable_fits g).setQueue _ (fun _ => _) hswept.fits) rfl)
      fun _ hs id _ => hs.switchTo hg id
  exact inert_grounded.setDepth _ (fun _ => 0) ((hhanded _ _).record (e := .reported _) trivial)

variable [RandomSource ρ]

theorem Grounded.leads_tick (hpassive : g.Passive) (h : Grounded g (fun _ => []) s) :
    (Walk.tick g).Leads s (fun _ => Grounded g fun _ => []) fun _ => True := by
  rw [Walk.leads_tick]
  refine ((h.walkStart hg).leads_visit hg hpassive _ _).imp (fun _ s hs => ?_) fun _ hb => hb
  have hswept := hs.change (f := State.sweep) ((stable_fits g).sweep s hs.fits) rfl
  exact hswept.record (e := .reported _) trivial

omit [Clock κ τ] [RandomSource ρ] in
theorem Grounded.leads_reset (h : Grounded g (fun _ => []) s) :
    (Walk.reset g).Leads s (fun _ => Grounded g fun _ => []) fun _ => True := by
  unfold Walk.reset
  rw [Walk.leads_bind, Walk.leads_modify, Walk.leads_bind]
  exact (inert_grounded.runHook (fun _ _ _ => trivial) g.onReset).leads (h.switchTo hg entryNode)
    (fun _ _ hs => hs.record (e := .reported _) trivial) fun _ _ => trivial

theorem Session.Unbroken.grounded (hpassive : g.Passive) (h : s.Unbroken g) :
    Grounded g (fun _ => []) s := by
  refine h.has_of (fun context clock random => ?_) (fun s context clock random hs => ?_)
    (fun _ hs => hs.leads_tick hg hpassive) (fun _ hs => hs.leads_reset hg)
    (fun _ id hs => hs.switchTo hg id) (fun s queue hs => ?_) fun _ flag e hs => hs.relax hg flag e
  · have hnone (e : Element) : (State.start g).has .active e = false := Marking.has_empty _ _ e
    refine ⟨State.fits_start g, fun _ => rfl, fun t hup => ?_, fun _ _ hport => ?_,
      fun t _ _ hup => ?_⟩
    · exact absurd ((hnone (.transition t)).symm.trans hup) nofun
    · cases hport
    · exact absurd ((hnone (.transition t)).symm.trans hup) nofun
  · exact inert_grounded.surroundings s context clock random hs
  · exact hs.change ((stable_fits g).setQueue s queue hs.fits) rfl

end Requests

/-- In a consistent passive graph an active transition has an active start after any run that is not broken
off, unless it last fired after a choice that had led back to its start. -/
theorem active_start_or_undermined [Clock κ τ] [RandomSource ρ] (g : Graph κ) (hg : g.Consistent)
    (hpassive : g.Passive) (s : Session κ τ ρ) (hs : s.Unbroken g) (t : TransitionId)
    (tr : Transition κ) (htr : g.transition? t = some tr) (hup : s.state.has .active (.transition t) = true) :
    s.state.has .active (.node tr.start) = true ∨ g.FiredUndermined t tr s.journal.toList :=
  (hs.grounded hg hpassive).start t tr htr hup

/-- A condition that holds at every other call; while it holds it leads back to itself, otherwise to an
action. -/
def recoilSteps : List (BuildStep Nat) :=
  [.add "condition" (.condition (.noArgs fun n => .ok (.ok (n % 2 = 0)) (n + 1)) false) [],
    .add "action" (.action (.noArgs (pure (.ok ())))) [], .link entryNode ⟨1⟩,
    .connect ⟨1⟩ .whenTrue ⟨1⟩ {}, .connect ⟨1⟩ .whenFalse ⟨2⟩ {}]

def recoilGraph : Graph Nat := .ofSteps recoilSteps

def recoilStart : Session Nat ManualClock Xoshiro :=
  .start recoilGraph 0 (ManualClock.mk 0.0) (Xoshiro.ofSeed 0)

def recoilHeld : Session Nat ManualClock Xoshiro := (recoilStart.perform recoilGraph .tick).2

def recoiled : Session Nat ManualClock Xoshiro := (recoilHeld.perform recoilGraph .tick).2

theorem recoil_built : recoilGraph.Built := ⟨{}, none, recoilSteps, by decide, rfl⟩

theorem recoil_passive : recoilGraph.Passive where
  loop := by
    rintro ⟨i⟩ n hn
    rcases i with _ | _ | _ | i <;> cases hn <;> decide
  node := by
    rintro ⟨i⟩ n hn
    rcases i with _ | _ | _ | i <;> cases hn <;> rfl
  transition := by
    rintro ⟨i⟩ tr htr
    rcases i with _ | _ | _ | i <;> cases htr <;> rfl

theorem recoil_ticks :
    recoilStart.perform recoilGraph .tick = (.done, recoilHeld) ∧
      recoilHeld.perform recoilGraph .tick = (.done, recoiled) :=
  ⟨Session.perform_eq_done (by decide +kernel), Session.perform_eq_done (by decide +kernel)⟩

theorem recoil_fired_undermined :
    ∃ tr, recoilGraph.transition? ⟨2⟩ = some tr ∧
      recoilGraph.FiredUndermined ⟨2⟩ tr recoiled.journal.toList := by
  have hunbroken : recoiled.Unbroken recoilGraph :=
    .perform (.perform (.start _ _ _) recoil_ticks.1 nofun) recoil_ticks.2 nofun
  have hup : recoiled.state.has .active (.transition ⟨2⟩) = true := by decide +kernel
  have hdown : ¬recoiled.state.has .active (.node ⟨1⟩) = true := by decide +kernel
  have hstart := active_start_or_undermined recoilGraph recoil_built.consistent recoil_passive recoiled
    hunbroken ⟨2⟩ _ rfl hup
  exact ⟨_, rfl, hstart.resolve_left hdown⟩

/-- The condition excludes a transition that leads back to itself and goes on to the action. -/
theorem recoil_active_from_inactive :
    recoilGraph.Built ∧ recoilGraph.Passive ∧
      recoilStart.perform recoilGraph .tick = (.done, recoilHeld) ∧
      recoilHeld.perform recoilGraph .tick = (.done, recoiled) ∧
      ∃ tr, recoilGraph.transition? ⟨2⟩ = some tr ∧
        recoiled.state.has .active (.transition ⟨2⟩) = true ∧
        recoiled.state.has .active (.node tr.start) = false :=
  ⟨recoil_built, recoil_passive, recoil_ticks.1, recoil_ticks.2, _, rfl,
    by decide +kernel, by decide +kernel⟩

end BehaviourGraph
