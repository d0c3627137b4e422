import BehaviourGraph.Proofs.Boundary
import BehaviourGraph.Proofs.Entries
import BehaviourGraph.Proofs.Tables
import BehaviourGraph.Proofs.Wiring

/-!
# Single entries

Where nothing takes control in the middle of a walk, a walk from the entry enters every other node
at most once.  A transition is flagged as visited only while its start is, so a node that is entered
for the first time has no visited transition yet, and relaxing the ports that it does not choose
stops at once: no visited flag falls before the sweep.
-/

namespace BehaviourGraph

variable {κ τ ρ : Type}

/-- A graph in which nothing takes control while it is ticked. -/
structure Graph.Passive (g : Graph κ) : Prop where
  loop : ∀ id n, g.node? id = some n → n.kind ≠ .loop
  node : ∀ id n, g.node? id = some n → n.capturesControl = false
  transition : ∀ t tr, g.transition? t = some tr → tr.capturesControl = false

/-! ## Calm sessions -/

/-- The entry has control, some nodes are held as visited, and no other node than the entry has been
entered more often than its visited flag says. -/
structure Calm (g : Graph κ) (origin : List (Event κ)) (held : NodeId → Prop) (s : Session κ τ ρ) :
    Prop where
  control : s.state.control = entryNode
  size : s.state.visited.nodes.size = g.nodes.size
  held : ∀ id, held id → s.state.has .visited (.node id) = true
  start : ∀ t tr, g.transition? t = some tr → s.state.has .visited (.transition t) = true →
    s.state.has .visited (.node tr.start) = true
  entered : ∀ id, id ≠ entryNode →
    s.Adds origin fun events => entries id events ≤ if s.state.has .visited (.node id) then 1 else 0

structure Fresh (g : Graph κ) (origin : List (Event κ)) (held : NodeId → Prop) (id : NodeId)
    (s : Session κ τ ρ) : Prop extends Calm g origin (fun node => held node ∨ node = id) s where
  untouched : id ≠ entryNode → ∀ port, ∀ t ∈ g.exits id port,
    s.state.has .visited (.transition t) = false

def EnteredOnce (origin : List (Event κ)) (s : Session κ τ ρ) : Prop :=
  ∀ id, id ≠ entryNode → s.Adds origin fun events => entries id events ≤ 1

section Calm

variable {g : Graph κ} {origin : List (Event κ)} {held held' : NodeId → Prop} {id : NodeId}
  {n : Node κ} {s : Session κ τ ρ}

theorem Calm.mono (h : Calm g origin held s) (hle : ∀ id, held' id → held id) :
    Calm g origin held' s where
  control := h.control
  size := h.size
  held id hid := h.held id (hle id hid)
  start := h.start
  entered := h.entered

theorem Calm.once (h : Calm g origin held s) : EnteredOnce origin s := fun id hid =>
  (h.entered id hid).imp fun events hevents => by
    split at hevents <;> omega

theorem Calm.record (h : Calm g origin held s) {e : Event κ} (he : ∀ id, e.enters id = false) :
    Calm g origin held (s.record e) where
  control := h.control
  size := h.size
  held := h.held
  start := h.start
  entered id hid := (h.entered id hid).record e fun events hevents => by
    rw [entries_snoc, he id]
    exact hevents

theorem Calm.change (h : Calm g origin held s) {f : State → State}
    (hcontrol : (f s.state).control = s.state.control)
    (hvisited : (f s.state).visited = s.state.visited) : Calm g origin held (s.change f) := by
  have hhas (e : Element) : (s.change f).state.has .visited e = s.state.has .visited e :=
    congrArg (fun m => Marking.has m e) hvisited
  refine ⟨hcontrol.trans h.control, ?_, fun id hid => ?_, fun t tr htr hup => ?_, fun id hid => ?_⟩
  · exact (congrArg (fun m => m.nodes.size) hvisited).trans h.size
  · rw [hhas]
    exact h.held id hid
  · rw [hhas] at hup ⊢
    exact h.start t tr htr hup
  · rw [hhas]
    exact h.entered id hid

theorem inert_calm :
    Walk.Inert (Calm (τ := τ) (ρ := ρ) g origin held) fun e => ∀ id, e.enters id = false where
  surroundings _ _ _ _ hs := ⟨hs.control, hs.size, hs.held, hs.start, hs.entered⟩
  record _ _ he hs := hs.record he
  setStatus _ _ _ hs := hs.change rfl rfl
  setFiring _ _ _ hs := hs.change rfl rfl
  setDepth _ _ hs := hs.change rfl rfl

theorem inert_fresh :
    Walk.Inert (Fresh (τ := τ) (ρ := ρ) g origin held id) fun e => ∀ id, e.enters id = false where
  surroundings s _ _ _ hs := ⟨inert_calm.surroundings s _ _ _ hs.toCalm, hs.untouched⟩
  record _ _ he hs := ⟨hs.record he, hs.untouched⟩
  setStatus _ _ _ hs := ⟨hs.change rfl rfl, hs.untouched⟩
  setFiring _ _ _ hs := ⟨hs.change rfl rfl, hs.untouched⟩
  setDepth _ _ hs := ⟨hs.change rfl rfl, hs.untouched⟩

/-- A transition of a held node may be marked. -/
theorem Calm.mark_transition (h : Calm g origin held s) {t : TransitionId}
    (ht : ∀ tr, g.transition? t = some tr → held tr.start) :
    Calm g origin held (s.change (State.mark (.transition t))) where
  control := h.control
  size := h.size
  held id hid := Marking.has_raise_of_has (h.held id hid)
  start u tr hu _ := by
    by_cases hut : t = u
    · subst hut
      exact Marking.has_raise_of_has (h.held _ (ht tr hu))
    · have hbefore : s.state.has .visited (.transition u) = true := by
        refine (State.has_of_has_mark ‹_›).resolve_left fun heq => hut ?_
        cases heq
        rfl
      exact Marking.has_raise_of_has (h.start u tr hu hbefore)
  entered := h.entered

/-- A node that is entered while it is unvisited is fresh. -/
theorem Calm.enter (h : Calm g origin held s) (hg : g.Consistent) (hn : g.node? id = some n)
    (hfree : id = entryNode ∨ s.state.has .visited (.node id) = false) :
    Fresh g origin held id ((s.record (.entered id)).change (State.mark (.node id))) := by
  have hholds : s.state.visited.holds (.node id) := by
    have hlt : id.index < g.nodes.size := (Array.getElem?_eq_some_iff.mp hn).1
    rwa [← h.size] at hlt
  have hself : (s.state.mark (.node id)).has .visited (.node id) = true := Marking.has_raise_self hholds
  have hother (e : Element) (he : Element.node id ≠ e) :
      (s.state.mark (.node id)).has .visited e = s.state.has .visited e := Marking.has_raise_of_ne _ he
  refine ⟨⟨h.control, ?_, fun node hnode => ?_, fun t tr htr hup => ?_, fun node hnode => ?_⟩,
    fun hid port t ht => ?_⟩
  · show (s.state.visited.raise (.node id)).nodes.size = _
    rw [← h.size]
    exact Array.size_setIfInBounds
  · rcases hnode with hnode | rfl
    · exact Marking.has_raise_of_has (h.held node hnode)
    · exact hself
  · have hbefore : s.state.has .visited (.transition t) = true := by
      rwa [← hother (.transition t) (by simp)]
    exact Marking.has_raise_of_has (h.start t tr htr hbefore)
  · refine Session.Adds.record (h.entered node hnode) (.entered id) fun events hevents => ?_
    show entries node (events ++ [.entered id]) ≤
      if (s.state.mark (.node id)).has .visited (.node node) then 1 else 0
    rw [entries_snoc]
    by_cases heq : id = node
    · subst heq
      have hunvisited := hfree.resolve_left hnode
      simp_all [Event.enters]
    · rw [hother _ (by simpa using heq)]
      simpa [Event.enters, heq] using hevents
  · obtain ⟨tr, htr, rfl, _⟩ := hg.mem_exits.mp ht
    have hunvisited := hfree.resolve_left hid
    rw [Bool.eq_false_iff]
    intro hup
    have hbefore : s.state.has .visited (.transition t) = true := by
      rwa [← hother (.transition t) (by simp)]
    rw [h.start t tr htr hbefore] at hunvisited
    cases hunvisited

/-- A fresh node that is no loop acts on its choice without taking a visited flag down. -/
theorem Fresh.commit (h : Fresh g origin held id s) (hloop : n.kind ≠ .loop) {chosen : Option Port}
    (hentry : id = entryNode → n.behaviour = .entry ∧ chosen = some .out) :
    Calm g origin (fun node => held node ∨ node = id) (s.commit g id n chosen) := by
  have hrecorded := h.toCalm.record (e := .chose id chosen) fun _ => rfl
  rw [Session.commit_of_not_loop hloop]
  refine hrecorded.change State.control_relaxOthers ?_
  by_cases hid : id = entryNode
  · obtain ⟨hbehaviour, rfl⟩ := hentry hid
    simp [State.relaxOthers, hbehaviour, Behaviour.ports]
  · exact State.visited_relaxOthers (h.untouched hid)

/-! ## Calm walks -/

section Walks

variable (hg : g.Built) (hpassive : g.Passive)
include hg hpassive

theorem Calm.leads_enter (h : Calm g origin held s) (hn : g.node? id = some n) :
    (Walk.enter g id n).Leads s
      (fun goes s => if goes then Fresh g origin held id s else Calm g origin held s)
      (EnteredOnce origin) := by
  refine Walk.leads_enter (R := fun s => Fresh g origin held id (s.change (State.mark (.node id))))
    (inert_fresh.marked _).toDetached inert_fresh.toDetached (fun _ _ _ _ => rfl)
    (fun s hs hfree => hs.enter hg.consistent hn ?_)
    (fun _ hs => hs) (fun hcaptures => ?_)
    (fun s hs => hs.elim (fun hs => hs.toCalm.once) fun hs => hs.toCalm.once) h
  · rcases hfree with hkind | hcontrol | hunvisited
    · exact .inl ((hg.kind_eq_entry_iff hn).mp hkind)
    · exact .inl (hcontrol.symm.trans hs.control)
    · exact .inr hunvisited
  · rw [hpassive.node id n hn] at hcaptures
    cases hcaptures

theorem Fresh.leads_choose (h : Fresh g origin held id s) (hn : g.node? id = some n) :
    (Walk.choose id n).Leads s
      (fun port s => Calm g origin (fun node => held node ∨ node = id) (s.commit g id n port))
      (EnteredOnce origin) := by
  have hloop := hpassive.loop id n hn
  by_cases hid : id = entryNode
  · have hkind : n.kind = .entry := (hg.kind_eq_entry_iff hn).mpr hid
    have hbehaviour : n.behaviour = .entry := by
      unfold Node.kind at hkind
      cases hb : n.behaviour <;> simp_all [Behaviour.kind]
    rw [Walk.choose, hbehaviour]
    exact h.commit hloop fun _ => ⟨hbehaviour, rfl⟩
  · exact (inert_fresh.choose (fun _ _ _ _ => rfl) (fun _ _ _ _ => rfl) fun _ _ _ _ _ => rfl).leads h
      (fun _ _ hs => hs.commit hloop fun heq => (hid heq).elim) fun _ hs => hs.toCalm.once

omit hpassive in
theorem Calm.leads_leave (h : Calm g origin held s) (hn : g.node? id = some n) :
    (Walk.leave g id n).Leads s (fun _ => Calm g origin held) (EnteredOnce origin) := by
  refine Walk.leads_leave inert_calm.toAmbient (fun _ _ _ _ => rfl) (fun hkind s hs hcontrol => ?_)
    (fun s hs => hs.record fun _ => rfl) (fun _ hs => hs.once) h
  -- only the entry has control, and it does not free itself
  have hid : id = entryNode := hcontrol.symm.trans hs.control
  exact (hkind ((hg.kind_eq_entry_iff hn).mpr hid)).elim

theorem Calm.leads_runNode {tick : TransitionId → Walk κ τ ρ Bool}
    (htick : ∀ t held s, (∀ tr, g.transition? t = some tr → held tr.start) → Calm g origin held s →
      (tick t).Leads s (fun _ => Calm g origin held) (EnteredOnce origin))
    (hn : g.node? id = some n) (h : Calm g origin held s) :
    (Walk.runNode g id n tick).Leads s (fun _ => Calm g origin held) (EnteredOnce origin) := by
  refine Walk.leads_runNode (F := fun _ _ => Calm g origin fun node => held node ∨ node = id)
    (h.leads_enter hg hpassive hn) (fun s hs => hs.leads_choose hg hpassive hn)
    (fun port t ts s ht hs => htick t _ s (fun tr htr => ?_) hs) fun port ts s hs => ?_
  · exact .inr (hg.consistent.start_eq_of_mem_exits ht htr)
  · exact (hs.mono fun _ => .inl).leads_leave hg hn

variable [Clock κ τ] [RandomSource ρ]

omit hg in
theorem Calm.leads_tickTransition {visit : NodeId → Walk κ τ ρ Unit}
    (hvisit : ∀ id s, Calm g origin held s →
      (visit id).Leads s (fun _ => Calm g origin held) (EnteredOnce origin))
    {t : TransitionId} (ht : ∀ tr, g.transition? t = some tr → held tr.start)
    (h : Calm g origin held s) :
    (Walk.tickTransition g visit t).Leads s (fun _ => Calm g origin held) (EnteredOnce origin) := by
  refine Walk.leads_tickTransition (fun _ hs => hs) (fun _ hs => hs.record fun _ => rfl)
    (fun tr s htr hcaptures _ => ?_) (fun tr s _ hs => ?_) h
  · rw [hpassive.transition t tr htr] at hcaptures
    cases hcaptures
  · exact Walk.leads_follow inert_calm (fun _ _ _ _ => rfl) (fun _ _ _ _ => rfl) (fun _ _ _ _ => rfl)
      (fun _ => rfl) (fun s _ _ hs => (hs.record fun _ => rfl).mark_transition ht)
      (fun s hs => hvisit tr.finish s hs) (fun _ hs => hs.once) hs

/-- The nodes that are visited stay so below a node, whatever is visited there. -/
theorem Calm.leads_visit (budget : Nat) (id : NodeId) (h : Calm g origin held s) :
    (Walk.visit g budget id).Leads s (fun _ => Calm g origin held) (EnteredOnce origin) := by
  -- the held nodes are the index: a node holds itself while its transitions are ticked
  refine Walk.leads_visit (I := fun held => Calm g origin held) (fun _ => inert_calm) (fun _ _ => rfl)
    (fun visit hvisit held id n s hn hs => ?_) budget held id h
  refine hs.leads_runNode hg hpassive (fun t held s ht hs => ?_) hn
  exact hs.leads_tickTransition hpassive (hvisit held) ht

end Walks

end Calm

/-! ## The walk from the entry -/

theorem Session.Reachable.calm_walkStart [Clock κ τ] [RandomSource ρ] {g : Graph κ}
    {s : Session κ τ ρ} (hs : s.Reachable g) (hcontrol : (s.walkStart g).state.control = entryNode) :
    Calm g s.journal.toList (fun _ => False) (s.walkStart g) where
  control := hcontrol
  size := ((stable_fits g).walkStart hs.fits).visited.nodes
  held _ hid := hid.elim
  start t _ _ hup := by
    have hswept := hs.recorded.unvisited_sweep (.transition t)
    rw [has_of_has_walkStart hup] at hswept
    cases hswept
  entered id _ := by
    have hnone : s.Adds s.journal.toList fun events => entries id events = 0 := .nil rfl
    have hbegun := hnone.walkStart (fun r events hevents => by
      rw [entries_snoc, hevents]
      rfl) g
    exact hbegun.imp fun events hevents => by
      rw [hevents]
      exact Nat.zero_le _

theorem Session.Reachable.entries_le_one [Clock κ τ] [RandomSource ρ] {g : Graph κ} (hg : g.Built)
    (hpassive : g.Passive) {s : Session κ τ ρ} (hs : s.Reachable g)
    (hcontrol : (s.walkStart g).state.control = entryNode) {id : NodeId} (hid : id ≠ entryNode) :
    entries id ((s.perform g .tick).2.since s) ≤ 1 := by
  have hwalk : (Walk.tick g).Leads s (fun _ => EnteredOnce s.journal.toList)
      (EnteredOnce s.journal.toList) := by
    rw [Walk.leads_tick]
    refine ((hs.calm_walkStart hcontrol).leads_visit hg hpassive _ _).imp (fun _ s hs id hid => ?_)
      fun _ hb => hb
    exact Session.Adds.record (hs.once id hid) _ fun events hevents => by
      rw [entries_snoc]
      exact hevents
  exact (hwalk.run id hid).since

/-- In a tick whose walk begins at the entry of a passive graph, the callback of every node and
every scorer is called at most once, and every transition that does not start at the entry is ticked
at most once. -/
theorem acts_le_one_of_passive [Clock κ τ] [RandomSource ρ] (g : Graph κ) (hg : g.Built)
    (hpassive : g.Passive) (s : Session κ τ ρ) (hs : s.Reachable g)
    (hcontrol : (s.walkStart g).state.control = entryNode) :
    (∀ id n, g.node? id = some n → n.kind ≠ .entry →
      acts (.body id) ((s.perform g .tick).2.since s) ≤ 1 ∧
        ∀ branch, acts (.scorer id branch) ((s.perform g .tick).2.since s) ≤ 1) ∧
      ∀ t tr, g.transition? t = some tr → tr.start ≠ entryNode →
        acts (.tick t) ((s.perform g .tick).2.since s) ≤ 1 := by
  have honce (act : Act) (id : NodeId) (hdoer : g.doer? act = some id) (hid : id ≠ entryNode) :
      acts act ((s.perform g .tick).2.since s) ≤ 1 :=
    Nat.le_trans (acts_le_entries hg.consistent s hdoer) (hs.entries_le_one hg hpassive hcontrol hid)
  refine ⟨fun id n hn hkind => ?_, fun t tr htr hstart => ?_⟩
  · have hid : id ≠ entryNode := fun heq => hkind ((hg.kind_eq_entry_iff hn).mpr heq)
    exact ⟨honce (.body id) id rfl hid, fun branch => honce (.scorer id branch) id rfl hid⟩
  · exact honce (.tick t) tr.start (by rw [Graph.doer?, htr]; rfl) hstart

/-- An action and a condition that leads back to the action and to the entry. -/
def circularSteps : List (BuildStep Unit) :=
  [.add "action" (.action (.noArgs (pure (.ok ())))) [],
    .add "condition" (.condition (.noArgs (pure (.ok false))) false) [], .link entryNode ⟨1⟩,
    .link ⟨1⟩ ⟨2⟩, .connect ⟨2⟩ .whenTrue ⟨1⟩ {}, .connect ⟨2⟩ .whenFalse entryNode {}]

def circularGraph : Graph Unit := .ofSteps circularSteps

def circularStart : Session Unit ManualClock Xoshiro :=
  .start circularGraph () (ManualClock.mk 0.0) (Xoshiro.ofSeed 0)

def circled : Session Unit ManualClock Xoshiro := (circularStart.perform circularGraph .tick).2

theorem circular_passive : circularGraph.Passive where
  loop := by
    rintro ⟨i⟩ n hn
    rcases i with _ | _ | _ | i <;> cases hn <;> decide
  node := by
    rintro ⟨i⟩ n hn
    rcases i with _ | _ | _ | i <;> cases hn <;> rfl
  transition := by
    rintro ⟨i⟩ tr htr
    rcases i with _ | _ | _ | _ | i <;> cases htr <;> rfl

/-- The walk comes back to the entry, which ticks its transition again. -/
theorem circular_acts_once :
    (acts (.body ⟨1⟩) (circled.since circularStart) = 1 ∧
      acts (.body ⟨2⟩) (circled.since circularStart) = 1 ∧
      acts (.tick ⟨3⟩) (circled.since circularStart) = 1) ∧
      acts (.tick ⟨0⟩) (circled.since circularStart) = 2 := by
  have hbuilt : circularGraph.Built := ⟨{}, none, circularSteps, by decide, rfl⟩
  obtain ⟨hbodies, hticks⟩ := acts_le_one_of_passive circularGraph hbuilt circular_passive circularStart
    (.start _ _ _) rfl
  refine ⟨⟨?_, ?_, ?_⟩, by decide +kernel⟩
  · exact Nat.le_antisymm (hbodies ⟨1⟩ _ rfl (by decide)).1 (by decide +kernel)
  · exact Nat.le_antisymm (hbodies ⟨2⟩ _ rfl (by decide)).1 (by decide +kernel)
  · exact Nat.le_antisymm (hticks ⟨3⟩ _ rfl (by decide)) (by decide +kernel)

end BehaviourGraph
