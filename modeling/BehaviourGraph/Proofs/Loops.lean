import BehaviourGraph.Proofs.Boundary
import BehaviourGraph.Proofs.History
import BehaviourGraph.Proofs.Switching

/-!
# Control of loops

A loop that goes on takes control, and one that ends gives it to the entry, whoever had it before.
Where nothing else takes control during a tick, control ends up where the latest choice of a loop has
put it.  So a loop that begins with control and always goes on keeps it as long as no other loop
chooses after it; a loop in its body that goes on takes control from it.
-/

namespace BehaviourGraph

variable {κ τ ρ : Type}

structure Graph.Uncaptured (g : Graph κ) : Prop where
  node : ∀ id n, g.node? id = some n → n.capturesControl = false
  transition : ∀ t tr, g.transition? t = some tr → tr.capturesControl = false

/-! ## Choices of loops -/

def Graph.loopChoice? (g : Graph κ) : Event κ → Option (NodeId × Option Port)
  | .chose id choice => if (g.node? id).any fun n => n.kind = .loop then some (id, choice) else none
  | _ => none

def Graph.loopChoices (g : Graph κ) (events : List (Event κ)) : List (NodeId × Option Port) :=
  events.filterMap g.loopChoice?

def keeper (id : NodeId) (choice : Option Port) : NodeId :=
  if choice = some .body then id else entryNode

/-- Where choices of loops put control that has been at a node before. -/
def Graph.keeperAfter (g : Graph κ) (start : NodeId) (events : List (Event κ)) : NodeId :=
  (g.loopChoices events).getLast?.elim start fun c => keeper c.1 c.2

section Choices

variable {g : Graph κ} {events : List (Event κ)} {e : Event κ} {start id : NodeId} {n : Node κ}
  {choice : Option Port}

theorem Graph.loopChoice?_chose (hn : g.node? id = some n) :
    g.loopChoice? (.chose id choice) = if n.kind = .loop then some (id, choice) else none := by
  simp [loopChoice?, hn]

theorem Graph.keeperAfter_snoc (start : NodeId) (events : List (Event κ)) (e : Event κ) :
    g.keeperAfter start (events ++ [e]) =
      (g.loopChoice? e).elim (g.keeperAfter start events) fun c => keeper c.1 c.2 := by
  unfold keeperAfter loopChoices
  rw [List.filterMap_append]
  cases he : g.loopChoice? e <;> simp [he]

theorem Graph.mem_loopChoices_iff (hn : g.node? id = some n) (hloop : n.kind = .loop) :
    (id, choice) ∈ g.loopChoices events ↔ choice ∈ choices id events := by
  simp only [loopChoices, choices, List.mem_filterMap]
  refine exists_congr fun e => and_congr_right fun _ => ?_
  cases e with
  | chose node port =>
      by_cases hnode : node = id
      · subst hnode
        simp [loopChoice?_chose hn, hloop, Event.choice?]
      · simp [loopChoice?, Event.choice?, hnode]
  | _ => simp [loopChoice?, Event.choice?]

end Choices

/-! ## Steered sessions -/

/-- Since an origin the choices of loops have put control to a node. -/
def Steers (g : Graph κ) (origin : List (Event κ)) (start control : NodeId) (s : Session κ τ ρ) :
    Prop :=
  s.Adds origin fun events => g.keeperAfter start events = control

def Steered (g : Graph κ) (origin : List (Event κ)) (start : NodeId) (s : Session κ τ ρ) : Prop :=
  Steers g origin start s.state.control s

theorem Session.control_commit {g : Graph κ} {s : Session κ τ ρ} {id : NodeId} {n : Node κ}
    {chosen : Option Port} :
    (s.commit g id n chosen).state.control =
      if n.kind = .loop then keeper id chosen else s.state.control := by
  have hothers (s : Session κ τ ρ) :
      (s.change (State.relaxOthers g id n chosen)).state.control = s.state.control :=
    State.control_relaxOthers
  by_cases hloop : n.kind = .loop
  · unfold commit
    rw [hothers]
    by_cases hbody : chosen = some .body
    · have hclaimed (s : Session κ τ ρ) : (s.claim g id).state.control = id := control_switchTo g id s
      simp [hloop, hbody, keeper, hclaimed]
    · simp [hloop, hbody, keeper]
  · rw [commit_of_not_loop hloop, hothers, if_neg hloop]
    rfl

section Steered

variable {g : Graph κ} {origin : List (Event κ)} {start control id : NodeId} {n : Node κ}
  {s : Session κ τ ρ}

theorem Steers.record (h : Steers g origin start control s) (e : Event κ) :
    Steers g origin start ((g.loopChoice? e).elim control fun c => keeper c.1 c.2) (s.record e) :=
  Session.Adds.record h e fun events hevents => by rw [Graph.keeperAfter_snoc, hevents]

theorem Steered.record (h : Steered g origin start s) {e : Event κ} (he : g.loopChoice? e = none) :
    Steered g origin start (s.record e) := by
  have hrecorded := Steers.record h e
  rwa [he] at hrecorded

theorem keeperAfter_report (r : Report) (events : List (Event κ))
    (h : g.keeperAfter start events = control) :
    g.keeperAfter start (events ++ [.reported r]) = control :=
  (g.keeperAfter_snoc start events _).trans h

theorem inert_steered :
    Walk.Inert (Steered (τ := τ) (ρ := ρ) g origin start) fun e => g.loopChoice? e = none where
  surroundings _ _ _ _ hs := hs
  record _ _ he hs := hs.record he
  setStatus _ _ _ hs := hs
  setFiring _ _ _ hs := hs
  setDepth _ _ hs := hs

theorem Steered.commit (h : Steered g origin start s) (hn : g.node? id = some n)
    (chosen : Option Port) : Steered g origin start (s.commit g id n chosen) := by
  have hchosen : Steers g origin start (if n.kind = .loop then keeper id chosen else s.state.control)
      (s.record (.chose id chosen)) := by
    have hrecorded := Steers.record h (.chose id chosen)
    rw [Graph.loopChoice?_chose hn] at hrecorded
    split <;> simp_all
  unfold Steered
  rw [Session.control_commit]
  exact Session.commit_induction (P := Steers g origin start _) n chosen
    (fun _ id hs => Session.Adds.switchTo hs keeperAfter_report g id) (fun _ hs => hs)
    (fun _ _ _ _ _ hs => hs) hchosen

/-! ## Steered walks -/

section Walks

variable (hfree : g.Uncaptured)
include hfree

theorem Steered.leads_runNode {tick : TransitionId → Walk κ τ ρ Bool}
    (htick : ∀ t s, Steered g origin start s →
      (tick t).Leads s (fun _ => Steered g origin start) fun _ => True)
    (hn : g.node? id = some n) (h : Steered g origin start s) :
    (Walk.runNode g id n tick).Leads s (fun _ => Steered g origin start) fun _ => True := by
  have henter : (Walk.enter g id n).Leads s
      (fun goes s => if goes then Steered g origin start s else Steered g origin start s)
      fun _ => True := by
    refine Walk.leads_enter inert_steered.toDetached inert_steered.toDetached (fun _ _ _ => rfl)
      (fun _ hs _ => hs.record rfl) (fun _ hs => hs) (fun hcaptures => ?_) (fun _ _ => trivial) h
    rw [hfree.node id n hn] at hcaptures
    cases hcaptures
  refine Walk.leads_runNode (F := fun _ _ => Steered g origin start) henter (fun s hs => ?_)
    (fun _ t _ s _ hs => htick t s hs) fun _ _ s hs => ?_
  · exact (inert_steered.choose (fun _ _ _ => rfl) (fun _ _ _ => rfl) fun _ _ _ _ => rfl).leads hs
      (fun port s hs => hs.commit hn port) fun _ _ => trivial
  · exact Walk.leads_leave inert_steered.toAmbient (fun _ _ _ => rfl) (fun _ _ hs _ => hs)
      (fun _ hs => hs.record rfl) (fun _ _ => trivial) hs

variable [Clock κ τ] [RandomSource ρ]

theorem Steered.leads_tickTransition {visit : NodeId → Walk κ τ ρ Unit}
    (hvisit : ∀ id s, Steered g origin start s →
      (visit id).Leads s (fun _ => Steered g origin start) fun _ => True)
    {t : TransitionId} (h : Steered g origin start s) :
    (Walk.tickTransition g visit t).Leads s (fun _ => Steered g origin start) fun _ => True := by
  refine Walk.leads_tickTransition (fun _ hs => hs) (fun _ hs => hs.record rfl)
    (fun tr s htr hcaptures _ => ?_) (fun tr s _ hs => ?_) h
  · rw [hfree.transition t tr htr] at hcaptures
    cases hcaptures
  · exact Walk.leads_follow inert_steered (fun _ _ _ => rfl) (fun _ _ _ => rfl) (fun _ _ _ => rfl) rfl
      (fun _ _ _ hs => hs.record rfl) (fun s hs => hvisit tr.finish s hs) (fun _ _ => trivial) hs

theorem Steered.leads_visit (budget : Nat) (id : NodeId) (h : Steered g origin start s) :
    (Walk.visit g budget id).Leads s (fun _ => Steered g origin start) fun _ => True :=
  Walk.leads_visit (I := fun _ : Unit => Steered g origin start) (fun _ => inert_steered)
    (fun _ => rfl) (fun _ hvisit _ _ _ _ hn hs =>
      hs.leads_runNode hfree (fun _ _ hs => hs.leads_tickTransition hfree (hvisit ())) hn)
    budget () id h

/-- After a tick control is where the latest choice of a loop has put it. -/
theorem Steered.leads_tick (s : Session κ τ ρ) :
    (Walk.tick g).Leads s
      (fun _ => Steered g s.journal.toList (s.walkStart g).state.control) fun _ => True := by
  rw [Walk.leads_tick]
  have hstart : Steers g s.journal.toList (s.walkStart g).state.control
      (s.walkStart g).state.control s := .nil rfl
  have hbegun : Steered g s.journal.toList (s.walkStart g).state.control (s.walkStart g) :=
    Session.Adds.walkStart hstart keeperAfter_report g
  refine (hbegun.leads_visit hfree _ _).imp (fun _ s hs => ?_) fun _ hb => hb
  exact Steered.record (s := s.change State.sweep) hs rfl

end Walks

end Steered

/-! ## The first node of a walk -/

/-- A node that is not visited yet chooses when it is ticked. -/
theorem Walk.leads_visit_chose [Clock κ τ] [RandomSource ρ] {g : Graph κ} {origin : List (Event κ)}
    {id : NodeId} {n : Node κ} {s : Session κ τ ρ} (hn : g.node? id = some n) (budget : Nat)
    (hs : s.Adds origin fun _ => True) (hunvisited : s.state.has .visited (.node id) = false) :
    (Walk.visit g (budget + 1) id).Leads s
      (fun _ s => s.Adds origin fun events => choices id events ≠ []) fun _ => True := by
  have hadded : Stable (τ := τ) (ρ := ρ) g fun s => s.Adds origin fun _ => True :=
    Session.Adds.stable g fun _ _ _ => trivial
  have hchosen : Stable (τ := τ) (ρ := ρ) g fun s =>
      s.Adds origin fun events => choices id events ≠ [] :=
    Session.Adds.stable g fun e events hevents => by simp [choices_snoc, hevents]
  have hcommit (s : Session κ τ ρ) (chosen : Option Port) (hs : s.Adds origin fun _ => True) :
      (s.commit g id n chosen).Adds origin fun events => choices id events ≠ [] :=
    Session.commit_induction n chosen hchosen.switchTo (fun s hs => hchosen.mark s _ hs)
      (fun s flag _ _ _ hs => hchosen.relax s flag _ hs)
      (hs.record _ fun _ _ => by simp [choices_snoc, Event.choice?])
  have henter : (Walk.enter g id n).Leads (s.change fun a => { a with depth := a.depth + 1 })
      (fun goes s => if goes then s.Adds origin fun _ => True
        else s.Adds origin fun events => choices id events ≠ []) fun _ => True := by
    refine Walk.leads_enter_until
      (P := fun s => s.state.has .visited (.node id) = false ∧ s.Adds origin fun _ => True)
      hadded.toDetached hadded.toDetached (fun _ _ _ => trivial)
      (fun s hs _ => hadded.record s _ trivial hs.2) (fun s hs => hadded.mark s _ hs)
      (fun _ s hs => hadded.claim s id hs) (fun s hs hvisited => ?_) (fun _ _ => trivial)
      ⟨hunvisited, hs⟩
    rw [hs.1] at hvisited
    cases hvisited
  unfold Walk.visit
  rw [leads_bind, leads_change]
  simp only [hn]
  rw [leads_bind]
  refine (Walk.leads_runNode (F := fun _ _ s => s.Adds origin fun events => choices id events ≠ [])
    henter (fun s hs => ?_) (fun port t ts s _ hs => ?_) fun port ts s hs => ?_).imp
      (fun _ s hs => hchosen.setDepth s (fun a => a.depth - 1) hs) fun _ hb => hb
  · exact (hadded.choose (fun _ _ _ => trivial) (fun _ _ _ => trivial) fun _ _ _ _ => trivial).leads hs
      (fun port s hs => hcommit s port hs) fun _ _ => trivial
  · exact (hchosen.keeps_tickTransition (hchosen.keeps_visit budget) t).leads hs (fun _ _ hs => hs)
      fun _ _ => trivial
  · exact Walk.leads_leave hchosen.toAmbient (fun _ _ _ => trivial)
      (fun _ s hs _ => hchosen.relax s .visited _ hs) (fun s hs => hchosen.record s _ trivial hs)
      (fun _ _ => trivial) hs

/-- The node that the walk of a tick begins at chooses. -/
theorem Session.Reachable.chose_of_tick [Clock κ τ] [RandomSource ρ] {g : Graph κ} (hg : g.Built)
    {s s' : Session κ τ ρ} (hs : s.Reachable g) {id : NodeId} {n : Node κ} (hn : g.node? id = some n)
    (hstart : (s.walkStart g).state.control = id) (htick : s.perform g .tick = (.done, s')) :
    choices id (s'.since s) ≠ [] := by
  obtain ⟨budget, hbudget⟩ := Nat.exists_eq_succ_of_ne_zero (Nat.ne_of_gt hg.maxTickDepth_pos)
  have hunvisited : (s.walkStart g).state.has .visited (.node id) = false := by
    rw [Bool.eq_false_iff]
    intro hup
    have hswept := hs.recorded.unvisited_sweep (.node id)
    rw [Session.has_of_has_walkStart hup] at hswept
    cases hswept
  have hbegun : (s.walkStart g).Adds s.journal.toList fun _ => True :=
    Session.Adds.walkStart (.nil trivial) (fun _ _ _ => trivial) g
  refine Session.Adds.since_tick (P := fun events => choices id events ≠ []) (fun r events hevents => ?_)
    ?_ htick
  · simpa [choices_snoc, Event.choice?] using hevents
  · rw [hstart, hbudget]
    exact Walk.leads_visit_chose hn budget hbegun hunvisited

/-! ## Loops that go on -/

/-- A tick begins at a loop that goes on whenever it chooses.  After the tick control is with the loop
that chose last if that goes on, and with the entry otherwise; so the first loop has kept control if
and only if it was the last to choose. -/
theorem control_after_loop [Clock κ τ] [RandomSource ρ] (g : Graph κ) (hg : g.Built)
    (hfree : g.Uncaptured) (s s' : Session κ τ ρ) (hs : s.Reachable g) (id : NodeId) (n : Node κ)
    (hn : g.node? id = some n) (hloop : n.kind = .loop)
    (hstart : (s.walkStart g).state.control = id) (htick : s.perform g .tick = (.done, s'))
    (hgoes : ∀ choice ∈ choices id (s'.since s), choice = some .body) :
    ∃ last choice, (g.loopChoices (s'.since s)).getLast? = some (last, choice) ∧
      s'.state.control = (if choice = some .body then last else entryNode) ∧
      (s'.state.control = id ↔ last = id) := by
  have hcontrol : s'.state.control = g.keeperAfter id (s'.since s) := by
    have hsteered := (Steered.leads_tick hfree s).ends_of_run htick
    rw [hstart] at hsteered
    exact (Session.Adds.since hsteered).symm
  obtain ⟨choice, hchosen⟩ := List.exists_mem_of_ne_nil _ (hs.chose_of_tick hg hn hstart htick)
  have hnone : g.loopChoices (s'.since s) ≠ [] :=
    List.ne_nil_of_mem ((Graph.mem_loopChoices_iff hn hloop).mpr hchosen)
  obtain ⟨⟨last, choice⟩, hlast⟩ : ∃ c, (g.loopChoices (s'.since s)).getLast? = some c :=
    ⟨_, List.getLast?_eq_some_getLast hnone⟩
  have hkept : s'.state.control = keeper last choice := by
    rw [hcontrol, Graph.keeperAfter, hlast]
    rfl
  refine ⟨last, choice, hlast, hkept, ?_, ?_⟩
  · intro hid
    have hne : entryNode ≠ id := by
      rintro rfl
      rw [(hg.kind_eq_entry_iff hn).mpr rfl] at hloop
      cases hloop
    rw [hkept, keeper] at hid
    split at hid
    · exact hid
    · exact (hne hid).elim
  · rintro rfl
    have hbody : choice = some .body :=
      hgoes choice ((Graph.mem_loopChoices_iff hn hloop).mp (List.mem_of_getLast? hlast))
    rw [hkept, keeper, if_pos hbody]

/-- A loop in the body of a loop; both always go on. -/
def nestedSteps : List (BuildStep Unit) :=
  [.add "outer" (.loop (.noArgs (pure (.ok true))) false) [],
    .add "inner" (.loop (.noArgs (pure (.ok true))) false) [], .connect ⟨1⟩ .body ⟨2⟩ {}]

def nestedGraph : Graph Unit := .ofSteps nestedSteps

def nestedStart (id : NodeId) : Session Unit ManualClock Xoshiro :=
  ((Session.start nestedGraph () (ManualClock.mk 0.0) (Xoshiro.ofSeed 0)).perform nestedGraph
    (.setActive id)).2

def nested (id : NodeId) : Session Unit ManualClock Xoshiro :=
  ((nestedStart id).perform nestedGraph .tick).2

theorem nested_uncaptured : nestedGraph.Uncaptured where
  node := by
    rintro ⟨i⟩ n hn
    rcases i with _ | _ | _ | i <;> cases hn <;> rfl
  transition := by
    rintro ⟨i⟩ tr htr
    rcases i with _ | i
    · cases htr
      rfl
    · cases htr

theorem nested_inner_keeps_control : (nested ⟨2⟩).state.control = ⟨2⟩ := by
  have hbuilt : nestedGraph.Built := ⟨{}, none, nestedSteps, by decide, rfl⟩
  have hreach : (nestedStart ⟨2⟩).Reachable nestedGraph := .perform _ (.start _ _ _)
  have hdone : (nestedStart ⟨2⟩).perform nestedGraph .tick = (.done, nested ⟨2⟩) :=
    Session.perform_eq_done (by decide +kernel)
  have hlatest : (nestedGraph.loopChoices ((nested ⟨2⟩).since (nestedStart ⟨2⟩))).getLast? =
      some (⟨2⟩, some .body) := by decide +kernel
  obtain ⟨last, choice, hlast, _, hkept⟩ := control_after_loop nestedGraph hbuilt nested_uncaptured
    (nestedStart ⟨2⟩) (nested ⟨2⟩) hreach ⟨2⟩ _ rfl rfl (by decide +kernel) hdone (by decide +kernel)
  obtain ⟨rfl, -⟩ := Prod.mk.inj (Option.some.inj (hlast.symm.trans hlatest))
  exact hkept.mpr rfl

/-- The loop in the body takes control from the loop around it, although that goes on. -/
theorem nested_outer_loses_control :
    nestedGraph.Built ∧ nestedGraph.Uncaptured ∧ (nestedStart ⟨1⟩).Reachable nestedGraph ∧
      ((nestedStart ⟨1⟩).walkStart nestedGraph).state.control = ⟨1⟩ ∧
      (∃ n, nestedGraph.node? ⟨1⟩ = some n ∧ n.kind = .loop) ∧
      (nestedStart ⟨1⟩).perform nestedGraph .tick = (.done, nested ⟨1⟩) ∧
      choices ⟨1⟩ ((nested ⟨1⟩).since (nestedStart ⟨1⟩)) = [some .body] ∧
      (nested ⟨1⟩).state.control = ⟨2⟩ :=
  ⟨⟨{}, none, nestedSteps, by decide, rfl⟩, nested_uncaptured, .perform _ (.start _ _ _),
    by decide +kernel, ⟨_, rfl, rfl⟩, Session.perform_eq_done (by decide +kernel), by decide +kernel,
    by decide +kernel⟩

end BehaviourGraph
