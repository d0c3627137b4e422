import Mathlib.Data.List.Nodup
import Mathlib.Data.List.Perm.Subperm
import Mathlib.Logic.Relation
import BehaviourGraph.Proofs.SingleEntry

/-!
# Search from the entry

The walk of a passive graph is a depth-first search over the transitions that open.  At any time at
most one node is awaited: a transition to it has just opened, and its tick is about to begin.  It is
then entered, or skipped because it was entered before.  The nodes whose ticks are in progress form a
stack without repetition, so where as many ticks may be nested as there are nodes none is refused.
-/

namespace BehaviourGraph

variable {κ τ ρ : Type}

/-! ## Paths -/

def Graph.Path (g : Graph κ) (through : TransitionId → Prop) : NodeId → NodeId → Prop :=
  Relation.ReflTransGen fun a b =>
    ∃ t tr, g.transition? t = some tr ∧ tr.start = a ∧ tr.finish = b ∧ through t

def Graph.OpenedInto (g : Graph κ) (id : NodeId) (events : List (Event κ)) : Prop :=
  ∃ t tr, g.transition? t = some tr ∧ tr.finish = id ∧ .opened t ∈ events

namespace Graph

variable {g : Graph κ} {through through' : TransitionId → Prop} {a : NodeId} {t : TransitionId}
  {tr : Transition κ}

theorem Path.mono (hle : ∀ t, through t → through' t) {b : NodeId} (h : g.Path through a b) :
    g.Path through' a b := by
  refine h.lift id fun _ _ hstep => ?_
  obtain ⟨t, tr, htr, hstart, hfinish, ht⟩ := hstep
  exact ⟨t, tr, htr, hstart, hfinish, hle t ht⟩

theorem Path.snoc (h : g.Path through a tr.start) (htr : g.transition? t = some tr) (ht : through t) :
    g.Path through a tr.finish :=
  h.tail ⟨t, tr, htr, rfl, rfl, ht⟩

end Graph

/-! ## What a search has found -/

def Event.Advances : Event κ → Prop
  | .entered _ => True
  | .opened _ => True
  | _ => False

/-- What a history tells of a search.  The nodes that are flagged as visited have been entered; those
that are awaited or entered lie on paths of opened transitions from the entry; and opened transitions
end at nodes that are awaited or entered. -/
structure Found (g : Graph κ) (awaited visited : NodeId → Prop) (events : List (Event κ)) : Prop where
  visited : ∀ id, visited id → .entered id ∈ events
  path : ∀ id, awaited id ∨ .entered id ∈ events → g.Path (fun t => .opened t ∈ events) entryNode id
  answer : ∀ id, id = entryNode ∨ g.OpenedInto id events → awaited id ∨ .entered id ∈ events

def Searched (g : Graph κ) (origin : List (Event κ)) (awaited : NodeId → Prop) (s : Session κ τ ρ) :
    Prop :=
  s.Adds origin (Found g awaited fun id => s.state.has .visited (.node id) = true)

section Found

variable {g : Graph κ} {awaited visited visited' : NodeId → Prop} {events : List (Event κ)}
  {id : NodeId}

theorem enters_eq_false {e : Event κ} (he : ¬e.Advances) (id : NodeId) : e.enters id = false := by
  cases e <;> simp_all [Event.Advances, Event.enters]

theorem mem_snoc_entered_iff {e : Event κ} (he : ¬e.Advances) :
    .entered id ∈ events ++ [e] ↔ .entered id ∈ events := by
  cases e <;> simp_all [Event.Advances]

theorem mem_snoc_opened_iff {t : TransitionId} {e : Event κ} (he : ¬e.Advances) :
    .opened t ∈ events ++ [e] ↔ .opened t ∈ events := by
  cases e <;> simp_all [Event.Advances]

theorem Found.mono (h : Found g awaited visited events) (hle : ∀ id, visited' id → visited id) :
    Found g awaited visited' events :=
  ⟨fun id hid => h.visited id (hle id hid), h.path, h.answer⟩

theorem Found.snoc (h : Found g awaited visited events) {e : Event κ} (he : ¬e.Advances) :
    Found g awaited visited (events ++ [e]) := by
  have hentered (id : NodeId) : .entered id ∈ events ++ [e] ↔ .entered id ∈ events :=
    mem_snoc_entered_iff he
  have hopened (t : TransitionId) : .opened t ∈ events ++ [e] ↔ .opened t ∈ events :=
    mem_snoc_opened_iff he
  constructor
  · simpa only [hentered] using h.visited
  · simpa only [hentered, hopened] using h.path
  · simpa only [Graph.OpenedInto, hentered, hopened] using h.answer

theorem Found.enter (h : Found g (fun node => node = id) visited events) :
    Found g (fun _ => False) (fun node => node = id ∨ visited node) (events ++ [.entered id]) where
  visited node hnode := by
    rcases hnode with rfl | hnode
    · exact List.mem_append_right _ List.mem_cons_self
    · exact List.mem_append_left _ (h.visited node hnode)
  path node hnode := by
    have hbefore : node = id ∨ .entered node ∈ events := by
      simpa [or_comm] using hnode
    exact (h.path node hbefore).mono fun t => List.mem_append_left _
  answer node hnode := by
    have hbefore : node = entryNode ∨ g.OpenedInto node events := by
      simpa [Graph.OpenedInto] using hnode
    simpa [or_comm] using h.answer node hbefore

theorem Found.skip (h : Found g (fun node => node = id) visited events) (hid : visited id) :
    Found g (fun _ => False) visited events where
  visited := h.visited
  path node hnode := h.path node (.inr (hnode.resolve_left not_false))
  answer node hnode := by
    rcases h.answer node hnode with rfl | hentered
    · exact .inr (h.visited node hid)
    · exact .inr hentered

/-- A transition from a visited node opens, and its end is awaited. -/
theorem Found.open (h : Found g (fun _ => False) visited events) {t : TransitionId}
    {tr : Transition κ} (htr : g.transition? t = some tr) (hstart : visited tr.start) :
    Found g (fun node => node = tr.finish) visited (events ++ [.opened t]) where
  visited node hnode := List.mem_append_left _ (h.visited node hnode)
  path node hnode := by
    have hpath (node : NodeId) (hentered : .entered node ∈ events) :
        g.Path (fun u => .opened u ∈ events ++ [.opened t]) entryNode node :=
      (h.path node (.inr hentered)).mono fun u => List.mem_append_left _
    rcases hnode with rfl | hnode
    · exact (hpath tr.start (h.visited _ hstart)).snoc htr (by simp)
    · exact hpath node (by simpa using hnode)
  answer node hnode := by
    -- of the ends of opened transitions only that of the new one can be unanswered
    have hbefore : node = tr.finish ∨ node = entryNode ∨ g.OpenedInto node events := by
      rcases hnode with hnode | ⟨u, ur, hur, hfinish, hu⟩
      · exact .inr (.inl hnode)
      · rcases List.mem_append.mp hu with hu | hu
        · exact .inr (.inr ⟨u, ur, hur, hfinish, hu⟩)
        · obtain rfl : u = t := by simpa using hu
          obtain rfl := Option.some.inj (hur.symm.trans htr)
          exact .inl hfinish.symm
    rcases hbefore with hnode | hbefore
    · exact .inl hnode
    · exact .inr (List.mem_append_left _ ((h.answer node hbefore).resolve_left not_false))

end Found

section Searched

variable {g : Graph κ} {origin : List (Event κ)} {awaited : NodeId → Prop} {s : Session κ τ ρ}
  {id : NodeId} {n : Node κ}

theorem Searched.record (h : Searched g origin awaited s) {e : Event κ} (he : ¬e.Advances) :
    Searched g origin awaited (s.record e) :=
  Session.Adds.record h e fun _ hevents => hevents.snoc he

theorem Searched.change (h : Searched g origin awaited s) {f : State → State}
    (hdown : ∀ id, (f s.state).has .visited (.node id) = true →
      s.state.has .visited (.node id) = true) : Searched g origin awaited (s.change f) :=
  h.imp fun _ hevents => hevents.mono hdown

theorem inert_searched :
    Walk.Inert (Searched (τ := τ) (ρ := ρ) g origin awaited) fun e => ¬e.Advances where
  surroundings _ _ _ _ hs := hs
  record _ _ he hs := hs.record he
  setStatus _ _ _ hs := hs
  setFiring _ _ _ hs := hs
  setDepth _ _ hs := hs

theorem Searched.enter (h : Searched g origin (fun node => node = id) s) :
    Searched g origin (fun _ => False) ((s.record (.entered id)).change (State.mark (.node id))) := by
  refine Session.Adds.imp (Session.Adds.record h (.entered id) fun _ hevents => hevents.enter)
    fun _ hevents => hevents.mono fun node hnode => ?_
  exact (State.has_of_has_mark hnode).imp_left Element.node.inj

theorem Searched.mark_transition (h : Searched g origin awaited s) (t : TransitionId) :
    Searched g origin awaited (s.change (State.mark (.transition t))) :=
  h.change fun _ hid => (State.has_of_has_mark hid).resolve_left nofun

theorem Searched.commit (h : Searched g origin awaited s) (hloop : n.kind ≠ .loop)
    (chosen : Option Port) : Searched g origin awaited (s.commit g id n chosen) := by
  rw [Session.commit_of_not_loop hloop]
  refine (h.record (e := .chose id chosen) (by exact not_false)).change fun node hnode => ?_
  exact State.relaxOthers_induction
    (P := fun a => a.has .visited (.node node) = true → s.state.has .visited (.node node) = true)
    n chosen (fun _ _ _ _ _ ha hup => ha (State.has_of_has_relax hup)) (fun hup => hup) hnode

theorem Searched.leads_enter (hpassive : g.Passive) (hn : g.node? id = some n)
    (h : Searched g origin (fun node => node = id) s) :
    (Walk.enter g id n).Leads s (fun _ => Searched g origin fun _ => False) fun _ => True := by
  have henter : (Walk.enter g id n).Leads s
      (fun goes s => if goes then Searched g origin (fun _ => False) s
        else Searched g origin (fun _ => False) s) fun _ => True := by
    refine Walk.leads_enter_until
      (R := fun s => Searched g origin (fun _ => False) (s.change (State.mark (.node id))))
      (inert_searched.marked _).toDetached inert_searched.toDetached (fun _ _ _ => not_false)
      (fun s hs _ => hs.enter)
      (fun _ hs => hs) (fun hcaptures => ?_) (fun s hs hvisited => ?_) (fun _ _ => trivial) h
    · rw [hpassive.node id n hn] at hcaptures
      cases hcaptures
    · exact hs.imp fun _ hevents => hevents.skip hvisited
  exact henter.imp (fun goes s hs => by simpa using hs) fun _ hb => hb

theorem Searched.leads_choose (hpassive : g.Passive) (hn : g.node? id = some n)
    (h : Searched g origin awaited s) :
    (Walk.choose id n).Leads s (fun port s => Searched g origin awaited (s.commit g id n port))
      fun _ => True := by
  have hloop := hpassive.loop id n hn
  have hkeeps : Walk.Keeps (Searched g origin awaited) (Walk.choose id n : Walk κ τ ρ _) :=
    inert_searched.choose (fun _ _ _ => not_false) (fun _ _ _ => not_false) fun _ _ _ _ => not_false
  exact hkeeps.leads h (fun port _ hs => hs.commit hloop port) fun _ _ => trivial

theorem Searched.leads_leave (h : Searched g origin awaited s) :
    (Walk.leave g id n).Leads s (fun _ => Searched g origin awaited) fun _ => True :=
  Walk.leads_leave inert_searched.toAmbient (fun _ _ _ => not_false)
    (fun _ _ hs _ => hs.change fun _ hup => State.has_of_has_relax hup)
    (fun _ hs => hs.record not_false) (fun _ _ => trivial) h

end Searched

/-! ## The stack -/

theorem NodeId.index_injective : Function.Injective NodeId.index := fun a b h => by
  cases a
  cases b
  exact congrArg NodeId.mk h

/-- Below the nodes of a stack there is room for another one. -/
structure Stacked (g : Graph κ) (stack : List NodeId) (budget : Nat) (id : NodeId) : Prop where
  nodup : stack.Nodup
  bound : ∀ node ∈ stack, node.index < g.nodes.size
  room : g.nodes.size ≤ stack.length + budget
  inside : id.index < g.nodes.size
  root : id = entryNode → stack = []

namespace Stacked

variable {g : Graph κ} {stack : List NodeId} {budget : Nat} {id : NodeId}

theorem push (h : Stacked g stack (budget + 1) id) (hid : id ∉ stack) {next : NodeId}
    (hinside : next.index < g.nodes.size) (hroot : next ≠ entryNode) :
    Stacked g (id :: stack) budget next where
  nodup := List.nodup_cons.mpr ⟨hid, h.nodup⟩
  bound node hnode := by
    rcases List.mem_cons.mp hnode with rfl | hnode
    · exact h.inside
    · exact h.bound node hnode
  room := by
    have hroom := h.room
    rw [List.length_cons]
    omega
  inside := hinside
  root heq := (hroot heq).elim

theorem mem_of_full (h : Stacked g stack 0 id) : id ∈ stack := by
  have hsubset : stack.map NodeId.index ⊆ List.range g.nodes.size := by
    intro i hi
    obtain ⟨node, hnode, rfl⟩ := List.mem_map.mp hi
    exact List.mem_range.mpr (h.bound node hnode)
  have hnodup : (stack.map NodeId.index).Nodup :=
    List.Nodup.map NodeId.index_injective h.nodup
  have hlength : (List.range g.nodes.size).length ≤ (stack.map NodeId.index).length := by
    simpa using h.room
  -- a stack without repetition that is as long as there are nodes has them all
  have hperm := (hnodup.subperm hsubset).perm_of_length_le hlength
  have hmem : id.index ∈ stack.map NodeId.index :=
    hperm.mem_iff.mpr (List.mem_range.mpr h.inside)
  exact (List.mem_map_of_injective NodeId.index_injective).mp hmem

end Stacked

/-! ## The walk as a search -/

def Searching (g : Graph κ) (origin : List (Event κ)) (stack : List NodeId) (awaited : NodeId → Prop)
    (s : Session κ τ ρ) : Prop :=
  Calm g origin (fun node => node ∈ stack) s ∧ Searched g origin awaited s

section Searching

variable {g : Graph κ} {origin : List (Event κ)} {stack : List NodeId} {awaited : NodeId → Prop}
  {s : Session κ τ ρ} {id : NodeId} {n : Node κ}

theorem inert_searching :
    Walk.Inert (Searching (τ := τ) (ρ := ρ) g origin stack awaited) fun e => ¬e.Advances :=
  (inert_calm.weaken fun _ he id => enters_eq_false he id).and inert_searched

theorem Searching.skip (h : Searching g origin stack (fun node => node = id) s) (hid : id ∈ stack) :
    Searching g origin stack (fun _ => False) s :=
  ⟨h.1, h.2.imp fun _ hevents => hevents.skip (h.1.held id hid)⟩

section Walks

variable (hg : g.Built) (hpassive : g.Passive)
include hg hpassive

omit hpassive in
/-- A node that is entered was not held, unless it is the entry. -/
theorem Calm.leads_enter_new {held : NodeId → Prop} (h : Calm g origin held s)
    (hn : g.node? id = some n) (hroot : id = entryNode → ¬held id) :
    (Walk.enter g id n).Leads s (fun goes _ => if goes then ¬held id else True) fun _ => True := by
  have hconst : Walk.Inert (fun _ : Session κ τ ρ => ¬held id) fun _ => True := .const _
  refine Walk.leads_enter_until (P := fun s' => s' = s) hconst.toDetached hconst.toDetached
    (fun _ _ _ => trivial)
    (fun s' hs' hfree hid => ?_) (fun _ hid => hid) (fun _ _ hid => hid) (fun _ _ _ => trivial)
    (fun _ _ => trivial) rfl
  subst hs'
  rcases hfree with hkind | hcontrol | hunvisited
  · exact hroot ((hg.kind_eq_entry_iff hn).mp hkind) hid
  · exact hroot (hcontrol.symm.trans h.control) hid
  · rw [h.held id hid] at hunvisited
    cases hunvisited

theorem Searching.leads_enter (h : Searching g origin stack (fun node => node = id) s)
    (hn : g.node? id = some n) (hroot : id = entryNode → stack = []) :
    (Walk.enter g id n).Leads s
      (fun goes s =>
        if goes then id ∉ stack ∧ Fresh g origin (fun node => node ∈ stack) id s ∧
          Searched g origin (fun _ => False) s
        else Searching g origin stack (fun _ => False) s) fun _ => True := by
  have hnew := h.1.leads_enter_new hg hn fun heq => by
    rw [hroot heq]
    exact List.not_mem_nil
  have hcalm := h.1.leads_enter hg hpassive hn
  have hsearched := h.2.leads_enter hpassive hn
  refine (hnew.and (hcalm.and hsearched)).imp (fun goes s hs => ?_) fun _ _ => trivial
  cases goes with
  | true => exact hs
  | false => exact hs.2

theorem Searching.leads_runNode {budget : Nat} {tick : TransitionId → Walk κ τ ρ Bool}
    (hstack : Stacked g stack (budget + 1) id)
    (htick : ∀ t s, (∀ tr, g.transition? t = some tr → tr.start = id) → id ∉ stack →
      Searching g origin (id :: stack) (fun _ => False) s →
        (tick t).Leads s (fun _ => Searching g origin (id :: stack) fun _ => False) fun _ => True)
    (hn : g.node? id = some n) (h : Searching g origin stack (fun node => node = id) s) :
    (Walk.runNode g id n tick).Leads s (fun _ => Searching g origin stack fun _ => False)
      fun _ => True := by
  refine Walk.leads_runNode
    (F := fun _ _ s => id ∉ stack ∧ Searching g origin (id :: stack) (fun _ => False) s)
    (h.leads_enter hg hpassive hn hstack.root) (fun s hs => ?_) (fun port t ts s ht hs => ?_)
    fun port ts s hs => ?_
  · obtain ⟨hid, hfresh, hsearched⟩ := hs
    refine ((hfresh.leads_choose hg hpassive hn).and (hsearched.leads_choose hpassive hn)).imp
      (fun port s hs => ⟨hid, hs.1.mono fun node hnode => ?_, hs.2⟩) fun _ _ => trivial
    exact (List.mem_cons.mp hnode).symm
  · obtain ⟨hid, hs⟩ := hs
    exact (htick t s (fun tr htr => hg.consistent.start_eq_of_mem_exits ht htr) hid hs).imp
      (fun _ s hs => ⟨hid, hs⟩) fun _ hb => hb
  · obtain ⟨_, hcalm, hsearched⟩ := hs
    have hbelow := hcalm.mono fun node hnode => List.mem_cons_of_mem id hnode
    exact ((hbelow.leads_leave hg hn).and hsearched.leads_leave).imp (fun _ _ hs => hs)
      fun _ _ => trivial

variable [Clock κ τ] [RandomSource ρ]

omit hg in
theorem Searching.leads_tickTransition {visit : NodeId → Walk κ τ ρ Unit} {t : TransitionId}
    (hvisit : ∀ tr s, g.transition? t = some tr →
      Searching g origin stack (fun node => node = tr.finish) s →
        (visit tr.finish).Leads s (fun _ => Searching g origin stack fun _ => False) fun _ => True)
    (ht : ∀ tr, g.transition? t = some tr → tr.start ∈ stack)
    (h : Searching g origin stack (fun _ => False) s) :
    (Walk.tickTransition g visit t).Leads s (fun _ => Searching g origin stack fun _ => False)
      fun _ => True := by
  refine Walk.leads_tickTransition (fun _ hs => hs)
    (fun s hs => inert_searching.record s _ not_false hs)
    (fun tr s htr hcaptures _ => ?_) (fun tr s htr hs => ?_) h
  · rw [hpassive.transition t tr htr] at hcaptures
    cases hcaptures
  · refine Walk.leads_follow_opened inert_searching.toDetached
      (fun s firing => inert_searching.setFiring s t firing) (fun _ _ _ => not_false)
      (fun _ _ _ => not_false) (fun _ _ _ => not_false)
      (fun s now cooldown hs => ?_) (fun s hs => hvisit tr _ htr ⟨?_, ?_⟩) (fun _ _ => trivial) hs
    · have hfired := inert_searching.record s (.fired t now cooldown) not_false hs
      exact ⟨hfired.1.mark_transition ht, hfired.2.mark_transition t⟩
    · exact hs.1.record fun _ => rfl
    · have hvisited := hs.1.held tr.start (ht tr htr)
      exact Session.Adds.record hs.2 _ fun _ hevents => hevents.open htr hvisited

/-- Every node tick that begins below the entry answers what is awaited. -/
theorem Searching.leads_visit (hentry : ∀ t tr, g.transition? t = some tr → tr.finish ≠ entryNode)
    {budget : Nat} (hstack : Stacked g stack budget id)
    (h : Searching g origin stack (fun node => node = id) s) :
    (Walk.visit g budget id).Leads s (fun _ => Searching g origin stack fun _ => False)
      fun _ => True := by
  -- the stack is the index: a node is pushed while its transitions are ticked
  refine Walk.leads_visit_of
    (I := fun budget stack id s =>
      Stacked g stack budget id ∧ Searching g origin stack (fun node => node = id) s)
    (O := fun stack => Searching g origin stack fun _ => False)
    (fun _ _ _ s depth hs => ⟨hs.1, inert_searching.setDepth s depth hs.2⟩)
    (fun _ => inert_searching.setDepth)
    (fun stack id s _ hs => inert_searching.record s _ not_false (hs.2.skip hs.1.mem_of_full))
    (fun _ stack id s hnone hs => ?_) (fun budget visit hvisit stack id n s hn hs => ?_) budget stack id
    ⟨hstack, h⟩
  · have houtside : g.nodes.size ≤ id.index := Array.getElem?_eq_none_iff.mp hnone
    exact absurd hs.1.inside (Nat.not_lt.mpr houtside)
  · refine hs.2.leads_runNode hg hpassive hs.1 (fun t s ht hid hs' => ?_) hn
    refine hs'.leads_tickTransition hpassive (fun tr s htr hs' => ?_) fun tr htr => ?_
    · have hinside : tr.finish.index < g.nodes.size := hg.wired.finish t.index tr htr
      exact hvisit (id :: stack) tr.finish s ⟨hs.1.push hid hinside (hentry t tr htr), hs'⟩
    · rw [ht tr htr]
      exact List.mem_cons_self

end Walks

end Searching

/-! ## What a tick finds -/

theorem Session.Reachable.searched_walkStart [Clock κ τ] [RandomSource ρ] {g : Graph κ}
    {s : Session κ τ ρ} (hs : s.Reachable g) :
    Searched g s.journal.toList (fun node => node = entryNode) (s.walkStart g) := by
  have hquiet : (s.walkStart g).Adds s.journal.toList fun events => ∀ e ∈ events, ¬e.Advances := by
    apply Session.Adds.walkStart (.nil fun _ he => by cases he)
    intro r events hevents
    exact forall_mem_snoc hevents not_false
  refine hquiet.imp fun events hevents => ⟨fun id hid => ?_, fun id hid => ?_, fun id hid => ?_⟩
  · have hswept := hs.recorded.unvisited_sweep (.node id)
    rw [Session.has_of_has_walkStart hid] at hswept
    cases hswept
  · rcases hid with rfl | hid
    · exact .refl
    · exact (hevents _ hid trivial).elim
  · rcases hid with rfl | ⟨t, _, _, _, ht⟩
    · exact .inl rfl
    · exact (hevents _ ht trivial).elim

/-- In a tick that ends regularly nothing is left awaited. -/
theorem Session.Reachable.found_tick [Clock κ τ] [RandomSource ρ] {g : Graph κ} (hg : g.Built)
    (hpassive : g.Passive) (hentry : ∀ t tr, g.transition? t = some tr → tr.finish ≠ entryNode)
    (hdepth : g.nodes.size ≤ g.config.maxTickDepth) {s s' : Session κ τ ρ} (hs : s.Reachable g)
    (hcontrol : (s.walkStart g).state.control = entryNode)
    (htick : s.perform g .tick = (.done, s')) :
    Found g (fun _ => False) (fun _ => False) (s'.since s) := by
  obtain ⟨n, hn, _⟩ := hg.wired.entry
  have hstack : Stacked g [] g.config.maxTickDepth entryNode :=
    { nodup := List.nodup_nil
      bound := fun _ hnode => by cases hnode
      room := by simpa using hdepth
      inside := (Array.getElem?_eq_some_iff.mp hn).1
      root := fun _ => rfl }
  have hstart : Searching g s.journal.toList [] (fun node => node = entryNode) (s.walkStart g) :=
    ⟨(hs.calm_walkStart hcontrol).mono fun _ => List.not_mem_nil, hs.searched_walkStart⟩
  refine Session.Adds.since_tick (fun _ _ hevents => hevents.snoc not_false) ?_ htick
  rw [hcontrol]
  exact (hstart.leads_visit hg hpassive hentry hstack).imp
    (fun _ _ hs => hs.2.imp fun _ hevents => hevents.mono nofun) fun _ hb => hb

/-- What a finished search has entered below the entry is what opened transitions end at. -/
theorem Found.entered_iff {g : Graph κ} {events : List (Event κ)}
    (h : Found g (fun _ => False) (fun _ => False) events) {id : NodeId} (hid : id ≠ entryNode) :
    .entered id ∈ events ↔ g.OpenedInto id events := by
  constructor
  · intro hentered
    rcases (h.path id (.inr hentered)).cases_tail with heq | ⟨_, _, t, tr, htr, _, hfinish, ht⟩
    · exact (hid heq).elim
    · exact ⟨t, tr, htr, hfinish, ht⟩
  · intro hopened
    exact (h.answer id (.inr hopened)).resolve_left not_false

end BehaviourGraph
