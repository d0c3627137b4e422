import BehaviourGraph.Proofs.Calls
import BehaviourGraph.Proofs.Search

/-!
# Coverage

Which nodes a tick from the entry evaluates.  In a passive graph with room for all nodes these are the
ends of the transitions that open, and each is evaluated once.  Where all transitions always open the
transitions of every entered node open, so these are all nodes that the entry leads to.
-/

namespace BehaviourGraph

variable {κ τ ρ : Type}

/-- A graph of actions whose transitions always open and never skip others. -/
structure Graph.Plain (g : Graph κ) : Prop where
  action : ∀ id n, g.node? id = some n → id ≠ entryNode → n.kind = .action
  chance : ∀ t tr, g.transition? t = some tr → tr.probability.isAlways = true
  cooldown : ∀ t tr, g.transition? t = some tr → tr.cooldown.isZero = true
  guard : ∀ t tr, g.transition? t = some tr → tr.guard = none
  group : ∀ t tr, g.transition? t = some tr → tr.terminatesGroup = false

theorem Graph.Plain.kind {g : Graph κ} (hplain : g.Plain) (hg : g.Built) {id : NodeId} {n : Node κ}
    (hn : g.node? id = some n) : n.kind = .entry ∨ n.kind = .action := by
  by_cases hid : id = entryNode
  · exact .inl ((hg.kind_eq_entry_iff hn).mpr hid)
  · exact .inr (hplain.action id n hn hid)

/-- The transitions of a plain graph all leave from the same port of their starts. -/
theorem Graph.Plain.outgoing_subset {g : Graph κ} (hplain : g.Plain) (hg : g.Built) (id : NodeId) :
    g.outgoing id ⊆ g.exits id .out := by
  intro t ht
  obtain ⟨tr, htr, hstart⟩ := hg.consistent.mem_outgoing.mp ht
  obtain ⟨n, hn, hport⟩ := hg.wired.start t.index tr htr
  refine hg.consistent.mem_exits.mpr ⟨tr, htr, hstart, ?_⟩
  have hkind := hplain.kind hg hn
  unfold Node.kind at hkind
  cases hbehaviour : n.behaviour <;> cases hp : tr.port <;>
    simp_all [Behaviour.kind, Behaviour.hasPort]

/-! ## Spreading -/

/-- Apart from some transitions that are yet to be ticked, all transitions of the nodes that have been
entered have opened. -/
def Spread (g : Graph κ) (origin : List (Event κ)) (pending : List TransitionId) (s : Session κ τ ρ) :
    Prop :=
  s.Adds origin fun events =>
    ∀ t tr, g.transition? t = some tr → .entered tr.start ∈ events → t ∈ pending ∨ .opened t ∈ events

section Spread

variable {g : Graph κ} {origin : List (Event κ)} {pending pending' : List TransitionId}
  {s : Session κ τ ρ} {id : NodeId} {n : Node κ} {t : TransitionId}

theorem Spread.mono (h : Spread g origin pending s) (hle : pending ⊆ pending') :
    Spread g origin pending' s :=
  h.imp fun _ hevents t tr htr hentered =>
    (hevents t tr htr hentered).imp_left fun hpending => hle hpending

theorem spread_snoc {e : Event κ} (he : ∀ id, e ≠ .entered id) (events : List (Event κ))
    (h : ∀ t tr, g.transition? t = some tr → .entered tr.start ∈ events →
      t ∈ pending ∨ .opened t ∈ events) :
    ∀ t tr, g.transition? t = some tr → .entered tr.start ∈ events ++ [e] →
      t ∈ pending ∨ .opened t ∈ events ++ [e] := by
  intro t tr htr hentered
  have hbefore : .entered tr.start ∈ events := by
    simpa [(he tr.start).symm] using hentered
  exact (h t tr htr hbefore).imp_right (List.mem_append_left _)

theorem Spread.record (h : Spread g origin pending s) {e : Event κ} (he : ∀ id, e ≠ .entered id) :
    Spread g origin pending (s.record e) :=
  Session.Adds.record h e (spread_snoc he)

theorem Spread.enter (h : Spread g origin pending s) (hg : g.Consistent) (id : NodeId) :
    Spread g origin (g.outgoing id ++ pending) (s.record (.entered id)) :=
  Session.Adds.record h _ fun events hevents t tr htr hentered => by
    by_cases hstart : tr.start = id
    · exact .inl (List.mem_append_left _ (hg.mem_outgoing.mpr ⟨tr, htr, hstart⟩))
    · have hbefore : .entered tr.start ∈ events := by simpa [hstart] using hentered
      exact (hevents t tr htr hbefore).imp (List.mem_append_right _) (List.mem_append_left _)

theorem Spread.open (h : Spread g origin (t :: pending) s) :
    Spread g origin pending (s.record (.opened t)) :=
  Session.Adds.record h _ fun events hevents u tr hu hentered => by
    have hbefore : .entered tr.start ∈ events := by simpa using hentered
    rcases hevents u tr hu hbefore with hpending | hopened
    · rcases List.mem_cons.mp hpending with rfl | hpending
      · exact .inr (by simp)
      · exact .inl hpending
    · exact .inr (List.mem_append_left _ hopened)

theorem inert_spread :
    Walk.Inert (Spread (τ := τ) (ρ := ρ) g origin pending) fun e => ∀ id, e ≠ .entered id where
  surroundings _ _ _ _ hs := hs
  record _ _ he hs := hs.record he
  setStatus _ _ _ hs := hs
  setFiring _ _ _ hs := hs
  setDepth _ _ hs := hs

theorem Spread.switchTo (h : Spread g origin pending s) (id : NodeId) :
    Spread g origin pending (s.switchTo g id) :=
  Session.Adds.switchTo h (fun _ => spread_snoc fun _ => nofun) g id

theorem Spread.commit (h : Spread g origin pending s) (id : NodeId) (n : Node κ)
    (chosen : Option Port) : Spread g origin pending (s.commit g id n chosen) :=
  Session.commit_induction n chosen (fun _ id hs => hs.switchTo id) (fun _ hs => hs)
    (fun _ _ _ _ _ hs => hs) (h.record fun _ => nofun)

section Walks

variable (hg : g.Built) (hplain : g.Plain)
include hg hplain

theorem Spread.leads_choose (h : Spread g origin pending s) (hn : g.node? id = some n) :
    (Walk.choose id n).Leads s
      (fun port s => port = some .out ∧ Spread g origin pending (s.commit g id n port))
      fun _ => True := by
  have hkeeps : Walk.Keeps (Spread g origin pending) (Walk.choose id n : Walk κ τ ρ _) :=
    inert_spread.choose (fun _ _ => nofun) (fun _ _ _ _ => nofun) fun _ _ _ _ _ => nofun
  have hspread : (Walk.choose id n).Leads s
      (fun port s => Spread g origin pending (s.commit g id n port)) fun _ => True :=
    hkeeps.leads h (fun port _ hs => hs.commit id n port) fun _ _ => trivial
  have hport : (Walk.choose id n).Leads s (fun port _ => port = some .out) fun _ => True :=
    Walk.leads_choose_out (hplain.kind hg hn)
  exact (hport.and hspread).imp (fun _ _ hs => hs) fun _ _ => trivial

theorem Spread.leads_runNode {tick : TransitionId → Walk κ τ ρ Bool}
    (htick : ∀ t pending s, (∃ tr, g.transition? t = some tr) → Spread g origin (t :: pending) s →
      (tick t).Leads s (fun goes s => goes = true ∧ Spread g origin pending s) fun _ => True)
    (hn : g.node? id = some n) (h : Spread g origin pending s) :
    (Walk.runNode g id n tick).Leads s (fun _ => Spread g origin pending) fun _ => True := by
  have henter : (Walk.enter g id n).Leads s
      (fun goes s => if goes then Spread g origin (g.outgoing id ++ pending) s
        else Spread g origin pending s) fun _ => True :=
    Walk.leads_enter inert_spread.toDetached inert_spread.toDetached (fun _ _ _ _ => nofun)
      (fun s hs _ => hs.enter hg.consistent id)
      (fun _ hs => hs) (fun _ _ hs => hs.switchTo id) (fun _ _ => trivial) h
  refine Walk.leads_runNode_until
    (F := fun port ts s => port = some .out ∧ Spread g origin (ts ++ pending) s)
    (E := fun _ => Spread g origin pending) henter (fun s hs => ?_) (fun port t ts s ht hs => ?_)
    (fun _ _ hs => hs.2) fun _ s hs => ?_
  · refine (hs.leads_choose hg hplain hn).imp (fun port s hs => ?_) fun _ hb => hb
    obtain ⟨rfl, hs⟩ := hs
    refine ⟨rfl, hs.mono fun t ht => ?_⟩
    rcases List.mem_append.mp ht with ht | ht
    · exact List.mem_append_left _ (hplain.outgoing_subset hg id ht)
    · exact List.mem_append_right _ ht
  · -- no transition asks to stop, so none of its port stays pending
    obtain ⟨tr, htr, _⟩ := hg.consistent.mem_exits.mp ht
    refine (htick t _ s ⟨tr, htr⟩ hs.2).imp (fun goes s hgoes => ?_) fun _ hb => hb
    obtain ⟨rfl, hspread⟩ := hgoes
    exact ⟨hs.1, hspread⟩
  · exact Walk.leads_leave inert_spread.toAmbient (fun _ _ _ _ => nofun) (fun _ _ hs _ => hs)
      (fun _ hs => hs.record fun _ => nofun) (fun _ _ => trivial) hs

variable [Clock κ τ] [RandomSource ρ]

omit hg in
theorem Spread.leads_tickTransition {visit : NodeId → Walk κ τ ρ Unit}
    (hvisit : ∀ id s, Spread g origin pending s →
      (visit id).Leads s (fun _ => Spread g origin pending) fun _ => True)
    (ht : ∃ tr, g.transition? t = some tr) (h : Spread g origin (t :: pending) s) :
    (Walk.tickTransition g visit t).Leads s (fun goes s => goes = true ∧ Spread g origin pending s)
      fun _ => True := by
  refine Walk.leads_tickTransition_until (Q := Spread g origin (t :: pending)) (fun hnone => ?_)
    (fun _ hs => hs.record fun _ => nofun) (fun tr _ _ _ hs => hs.switchTo tr.start)
    (fun tr s htr hs => ?_) h
  · obtain ⟨tr, htr⟩ := ht
    rw [hnone] at htr
    cases htr
  · have hopens : (Walk.follow visit t tr).Leads s
        (fun goes s => goes = !tr.terminatesGroup ∧ Spread g origin pending s) fun _ => True :=
      Walk.leads_follow_ungated inert_spread (hplain.chance t tr htr) (hplain.cooldown t tr htr)
        (hplain.guard t tr htr) (fun _ _ _ hs => hs.record fun _ => nofun)
        (fun s hs => hvisit tr.finish _ hs.open) hs
    rwa [hplain.group t tr htr] at hopens

theorem Spread.leads_visit (budget : Nat) (id : NodeId) (h : Spread g origin pending s) :
    (Walk.visit g budget id).Leads s (fun _ => Spread g origin pending) fun _ => True := by
  -- the pending transitions are the index: each node ticks its own before it is left
  refine Walk.leads_visit (I := fun pending => Spread g origin pending) (fun _ => inert_spread)
    (fun _ _ => nofun) (fun visit hvisit pending id n s hn hs => ?_) budget pending id h
  exact hs.leads_runNode hg hplain
    (fun t pending s ht hs => hs.leads_tickTransition hplain (hvisit pending) ht) hn

end Walks

end Spread

/-- In a tick of a plain graph that ends regularly all transitions of the nodes that are entered
open. -/
theorem Graph.Plain.opened_of_entered [Clock κ τ] [RandomSource ρ] {g : Graph κ} (hplain : g.Plain)
    (hg : g.Built) {s s' : Session κ τ ρ} (htick : s.perform g .tick = (.done, s')) {t : TransitionId}
    {tr : Transition κ} (htr : g.transition? t = some tr)
    (hentered : .entered tr.start ∈ s'.since s) : .opened t ∈ s'.since s := by
  have hstart : Spread g s.journal.toList [] s := .nil fun _ _ _ h => by cases h
  have hbegun : Spread g s.journal.toList [] (s.walkStart g) :=
    Session.Adds.walkStart hstart (fun _ => spread_snoc fun _ => nofun) g
  have hspread := Session.Adds.since_tick (fun _ => spread_snoc fun _ => nofun)
    (hbegun.leads_visit hg hplain _ _) htick
  exact (hspread t tr htr hentered).resolve_left List.not_mem_nil

/-- Where the transitions of all entered nodes open, what is entered is what the entry leads to. -/
theorem Found.entered_iff_path {g : Graph κ} {events : List (Event κ)}
    (h : Found g (fun _ => False) (fun _ => False) events)
    (hopened : ∀ t tr, g.transition? t = some tr → .entered tr.start ∈ events → .opened t ∈ events)
    (id : NodeId) : .entered id ∈ events ↔ g.Path (fun _ => True) entryNode id := by
  constructor
  · intro hentered
    exact (h.path id (.inr hentered)).mono fun _ _ => trivial
  · intro hpath
    induction hpath with
    | refl => exact (h.answer entryNode (.inl rfl)).resolve_left not_false
    | tail _ hstep ih =>
        obtain ⟨t, tr, htr, rfl, rfl, _⟩ := hstep
        have hinto : g.OpenedInto tr.finish events := ⟨t, tr, htr, rfl, hopened t tr htr ih⟩
        exact (h.answer tr.finish (.inr hinto)).resolve_left not_false

/-! ## Evaluated nodes -/

theorem entries_pos_iff {id : NodeId} {events : List (Event κ)} :
    0 < entries id events ↔ .entered id ∈ events := by
  unfold entries
  rw [List.countP_pos_iff]
  constructor
  · rintro ⟨e, he, henters⟩
    cases e <;> simp_all [Event.enters]
  · exact fun h => ⟨_, h, by simp [Event.enters]⟩

/-- In a tick from the entry of a passive graph with room for all nodes, a node is evaluated, and then
once, if a transition that ends at it opens, and otherwise not at all.  If the graph is plain, the
callbacks that are called are those of the nodes that the entry leads to, each once. -/
theorem evaluated_once_iff_openedInto [Clock κ τ] [RandomSource ρ] (g : Graph κ) (hg : g.Built)
    (hpassive : g.Passive) (hentry : ∀ t tr, g.transition? t = some tr → tr.finish ≠ entryNode)
    (hdepth : g.nodes.size ≤ g.config.maxTickDepth) (s s' : Session κ τ ρ) (hs : s.Reachable g)
    (hcontrol : (s.walkStart g).state.control = entryNode)
    (htick : s.perform g .tick = (.done, s')) :
    (∀ id n, g.node? id = some n → id ≠ entryNode →
      (g.OpenedInto id (s'.since s) → EvaluatedTimes id n 1 (s'.since s)) ∧
        (¬g.OpenedInto id (s'.since s) → EvaluatedTimes id n 0 (s'.since s))) ∧
      (g.Plain → ∀ id n, g.node? id = some n → id ≠ entryNode →
        (g.Path (fun _ => True) entryNode id → acts (.body id) (s'.since s) = 1) ∧
          (¬g.Path (fun _ => True) entryNode id → acts (.body id) (s'.since s) = 0)) := by
  have hfound := hs.found_tick hg hpassive hentry hdepth hcontrol htick
  have honce (id : NodeId) (hid : id ≠ entryNode) : entries id (s'.since s) ≤ 1 := by
    have hle := hs.entries_le_one hg hpassive hcontrol hid
    rwa [htick] at hle
  -- an entry is an evaluation, and there is at most one
  have hevaluated (id : NodeId) (n : Node κ) (hn : g.node? id = some n) (hid : id ≠ entryNode) :
      (.entered id ∈ s'.since s → EvaluatedTimes id n 1 (s'.since s)) ∧
        (.entered id ∉ s'.since s → EvaluatedTimes id n 0 (s'.since s)) := by
    have hcalls (act : Act) (hact : act ∈ n.calls id) :=
      acts_eq_entries hg.consistent htick hn hact
    constructor
    · intro hentered
      have hone : entries id (s'.since s) = 1 :=
        Nat.le_antisymm (honce id hid) (entries_pos_iff.mpr hentered)
      exact ⟨hone, fun act hact => (hcalls act hact).trans hone⟩
    · intro hentered
      have hzero : entries id (s'.since s) = 0 :=
        Nat.eq_zero_of_not_pos fun hpos => hentered (entries_pos_iff.mp hpos)
      exact ⟨hzero, fun act hact => (hcalls act hact).trans hzero⟩
  refine ⟨fun id n hn hid => ?_, fun hplain id n hn hid => ?_⟩
  · rw [← hfound.entered_iff hid]
    exact hevaluated id n hn hid
  · have hbody : .body id ∈ n.calls id := by
      have hkind := hplain.action id n hn hid
      exact Node.mem_calls.mpr (.inl ⟨rfl, by simp [hkind], by simp [hkind]⟩)
    rw [← hfound.entered_iff_path fun t tr htr => hplain.opened_of_entered hg htick htr]
    exact (hevaluated id n hn hid).imp (fun h hentered => (h hentered).2 _ hbody)
      fun h hentered => (h hentered).2 _ hbody

/-- Two actions that lead to each other, and one that leads to them and that nothing leads to. -/
def straySteps : List (BuildStep Unit) :=
  [.add "there" (.action (.noArgs (pure (.ok ())))) [],
    .add "back" (.action (.noArgs (pure (.ok ())))) [],
    .add "stray" (.action (.noArgs (pure (.ok ())))) [], .link entryNode ⟨1⟩, .link ⟨1⟩ ⟨2⟩,
    .link ⟨2⟩ ⟨1⟩, .link ⟨3⟩ ⟨1⟩]

/-- No more ticks may be nested than there are nodes. -/
def strayGraph : Graph Unit := .ofSteps straySteps { maxTickDepth := 4 }

def strayStart : Session Unit ManualClock Xoshiro :=
  .start strayGraph () (ManualClock.mk 0.0) (Xoshiro.ofSeed 0)

def strayed : Session Unit ManualClock Xoshiro := (strayStart.perform strayGraph .tick).2

theorem stray_passive : strayGraph.Passive where
  loop := by
    rintro ⟨i⟩ n hn
    rcases i with _ | _ | _ | _ | i <;> cases hn <;> decide
  node := by
    rintro ⟨i⟩ n hn
    rcases i with _ | _ | _ | _ | i <;> cases hn <;> rfl
  transition := by
    rintro ⟨i⟩ tr htr
    rcases i with _ | _ | _ | _ | i <;> cases htr <;> rfl

theorem stray_plain : strayGraph.Plain where
  action := by
    rintro ⟨i⟩ n hn hid
    rcases i with _ | _ | _ | _ | i <;> cases hn
    · exact (hid rfl).elim
    all_goals rfl
  chance := by
    rintro ⟨i⟩ tr htr
    rcases i with _ | _ | _ | _ | i <;> cases htr <;> decide +kernel
  cooldown := by
    rintro ⟨i⟩ tr htr
    rcases i with _ | _ | _ | _ | i <;> cases htr <;> decide +kernel
  guard := by
    rintro ⟨i⟩ tr htr
    rcases i with _ | _ | _ | _ | i <;> cases htr <;> rfl
  group := by
    rintro ⟨i⟩ tr htr
    rcases i with _ | _ | _ | _ | i <;> cases htr <;> rfl

theorem stray_leaves_last_out :
    acts (.body ⟨1⟩) (strayed.since strayStart) = 1 ∧
      acts (.body ⟨2⟩) (strayed.since strayStart) = 1 ∧
      strayGraph.OpenedInto ⟨1⟩ (strayed.since strayStart) ∧
      acts (.body ⟨3⟩) (strayed.since strayStart) = 0 := by
  have hbuilt : strayGraph.Built := ⟨{ maxTickDepth := 4 }, none, straySteps, by decide, rfl⟩
  have hends : ∀ t tr, strayGraph.transition? t = some tr → tr.finish = ⟨1⟩ ∨ tr.finish = ⟨2⟩ := by
    rintro ⟨i⟩ tr htr
    rcases i with _ | _ | _ | _ | i <;> cases htr <;> decide
  have hentry : ∀ t tr, strayGraph.transition? t = some tr → tr.finish ≠ entryNode := by
    intro t tr htr
    rcases hends t tr htr with h | h <;> rw [h] <;> decide
  obtain ⟨hopened, hreached⟩ := evaluated_once_iff_openedInto strayGraph hbuilt stray_passive hentry
    (by decide) strayStart strayed (.start _ _ _) rfl (Session.perform_eq_done (by decide +kernel))
  have hthere : strayGraph.Path (fun _ => True) entryNode ⟨1⟩ :=
    .tail .refl ⟨⟨0⟩, _, rfl, rfl, rfl, trivial⟩
  have hback : strayGraph.Path (fun _ => True) entryNode ⟨2⟩ :=
    hthere.tail ⟨⟨1⟩, _, rfl, rfl, rfl, trivial⟩
  have hcalled : acts (.body ⟨1⟩) (strayed.since strayStart) = 1 :=
    (hreached stray_plain ⟨1⟩ _ rfl (by decide)).1 hthere
  refine ⟨hcalled, (hreached stray_plain ⟨2⟩ _ rfl (by decide)).1 hback, ?_, ?_⟩
  · -- otherwise the first action would not have been called
    by_contra hnone
    have hzero := ((hopened ⟨1⟩ _ rfl (by decide)).2 hnone).2 (.body ⟨1⟩) List.mem_cons_self
    omega
  · refine ((hopened ⟨3⟩ _ rfl (by decide)).2 fun hinto => ?_).2 (.body ⟨3⟩) List.mem_cons_self
    obtain ⟨t, tr, htr, hfinish, _⟩ := hinto
    rcases hends t tr htr with h | h <;> rw [h] at hfinish <;> cases hfinish

end BehaviourGraph
