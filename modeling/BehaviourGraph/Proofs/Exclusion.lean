import BehaviourGraph.Proofs.Boundary
import BehaviourGraph.Proofs.History
import BehaviourGraph.Proofs.Wiring

/-!
# Exclusive branches

A node that chooses a port relaxes the others.  The relaxation comes before the transitions of the
chosen port are ticked, and a node may be ticked again from there: it is the active component, or a
switch of control took its flag down.  If it then chooses another port and is left, the transitions
of the first port go on, and one of them that fires is active although the latest choice excludes
it.  This is the only exception.
-/

namespace BehaviourGraph

variable {κ τ ρ : Type}

/-! ## Explained flags -/

/-- The history explains the flag of a transition: if it is up although the latest choice of its
start was another port, then the port of the transition was pending at that choice and it has fired
since. -/
def Explained (t : TransitionId) (tr : Transition κ) (active : Bool) (events : List (Event κ)) : Prop :=
  ∀ earlier choice later, events = earlier ++ .chose tr.start choice :: later →
    choices tr.start later = [] → choice ≠ some tr.port → active = true →
      some tr.port ∈ pending tr.start earlier ∧ ∃ now cooldown, .fired t now cooldown ∈ later

namespace Explained

variable {t : TransitionId} {tr : Transition κ} {active active' : Bool} {events : List (Event κ)}

theorem nil : Explained t tr active [] := by
  intro earlier choice later hevents
  cases earlier <;> cases hevents

theorem mono (h : Explained t tr active events) (hle : active' = true → active = true) :
    Explained t tr active' events :=
  fun earlier choice later hevents hlater hne hup => h earlier choice later hevents hlater hne (hle hup)

theorem snoc (h : Explained t tr active events) {e : Event κ} (he : e.choice? tr.start = none) :
    Explained t tr active (events ++ [e]) := by
  intro earlier choice later hevents hlater hne hup
  rcases snoc_eq_append_cons hevents with ⟨_, rfl, _⟩ | ⟨rest, rfl, rfl⟩
  · simp [Event.choice?] at he
  · have hrest : choices tr.start rest = [] := by simpa [choices_snoc, he] using hlater
    obtain ⟨hpending, now, cooldown, hfired⟩ := h earlier choice rest rfl hrest hne hup
    exact ⟨hpending, now, cooldown, List.mem_append_left _ hfired⟩

/-- A choice of the own port, or one after which the flag is down, needs no explanation. -/
theorem snoc_chose {choice : Option Port} (h : choice ≠ some tr.port → active = false) :
    Explained t tr active (events ++ [.chose tr.start choice]) := by
  intro earlier choice' later hevents hlater hne hup
  rcases snoc_eq_append_cons hevents with ⟨_, hchose, _⟩ | ⟨rest, rfl, _⟩
  · cases hchose
    rw [h hne] at hup
    cases hup
  · simp [choices_snoc, Event.choice?] at hlater

/-- A transition only fires while its port is pending, and that explains its flag. -/
theorem snoc_fired {now : Float} {cooldown : Option Float32}
    (h : some tr.port ∈ pending tr.start events) :
    Explained t tr active (events ++ [.fired t now cooldown]) := by
  intro earlier choice later hevents hlater hne _
  rcases snoc_eq_append_cons hevents with ⟨_, hfired, _⟩ | ⟨rest, rfl, rfl⟩
  · cases hfired
  · have hrest : choices tr.start rest = [] := by simpa [choices_snoc, Event.choice?] using hlater
    exact ⟨mem_pending_of_no_choice hrest h hne, now, cooldown,
      List.mem_append_right _ List.mem_cons_self⟩

end Explained

/-! ## Tracked sessions -/

/-- Since the events of an origin, the choices of a stack have become pending and a flag is
explained. -/
def Noted (origin : List (Event κ)) (t : TransitionId) (tr : Transition κ) (stack : List (Option Port))
    (active : Bool) (s : Session κ τ ρ) : Prop :=
  s.Adds origin fun events => pending tr.start events = stack ∧ Explained t tr active events

def Tracked (origin : List (Event κ)) (t : TransitionId) (tr : Transition κ) (stack : List (Option Port))
    (s : Session κ τ ρ) : Prop :=
  Noted origin t tr stack (s.state.has .active (.transition t)) s

section Tracked

variable {origin : List (Event κ)} {t : TransitionId} {tr : Transition κ} {stack : List (Option Port)}
  {active active' : Bool} {s : Session κ τ ρ} {g : Graph κ} {id : NodeId} {n : Node κ}

theorem Noted.mono (h : Noted origin t tr stack active s) (hle : active' = true → active = true) :
    Noted origin t tr stack active' s :=
  h.imp fun _ ⟨hpending, hexplained⟩ => ⟨hpending, hexplained.mono hle⟩

theorem Noted.snoc (h : Noted origin t tr stack active s) {stack' : List (Option Port)} (e : Event κ)
    (hstack : pendingAfter tr.start stack e = stack')
    (he : ∀ events, pending tr.start events = stack → Explained t tr active events →
      Explained t tr active' (events ++ [e])) :
    Noted origin t tr stack' active' (s.record e) :=
  Session.Adds.record h e fun events ⟨hpending, hexplained⟩ =>
    ⟨by rw [pending_snoc, hpending, hstack], he events hpending hexplained⟩

theorem Noted.record (h : Noted origin t tr stack active s) {e : Event κ} (he : ¬e.Brackets tr.start) :
    Noted origin t tr stack active (s.record e) :=
  h.snoc e (pendingAfter_of_not_brackets he stack) fun _ _ hexplained =>
    hexplained.snoc (choice?_of_not_brackets he)

theorem noted_report (r : Report) (events : List (Event κ))
    (h : pending tr.start events = stack ∧ Explained t tr active events) :
    pending tr.start (events ++ [.reported r]) = stack ∧
      Explained t tr active (events ++ [.reported r]) :=
  ⟨pending_snoc.trans h.1, h.2.snoc rfl⟩

theorem Tracked.change (h : Tracked origin t tr stack s) {f : State → State}
    (hf : (f s.state).has .active (.transition t) = true → s.state.has .active (.transition t) = true) :
    Tracked origin t tr stack (s.change f) :=
  Noted.mono h hf

theorem inert_tracked :
    Walk.Inert (Tracked (τ := τ) (ρ := ρ) origin t tr stack) fun e => ¬e.Brackets tr.start where
  surroundings _ _ _ _ hs := hs
  record _ _ he hs := Noted.record hs he
  setStatus _ _ _ hs := hs
  setFiring _ _ _ hs := hs
  setDepth _ _ hs := hs

theorem Tracked.mark (h : Tracked origin t tr stack s) {e : Element} (he : e ≠ .transition t) :
    Tracked origin t tr stack (s.change (State.mark e)) :=
  h.change fun hup => (State.has_of_has_mark hup).resolve_left (Ne.symm he)

theorem Tracked.switchTo (h : Tracked origin t tr stack s) (g : Graph κ) (id : NodeId) :
    Tracked origin t tr stack (s.switchTo g id) :=
  Noted.mono (Session.Adds.switchTo h noted_report g id) Session.has_of_has_switchTo

theorem Tracked.claim (h : Tracked origin t tr stack s) (g : Graph κ) (id : NodeId) :
    Tracked origin t tr stack (s.claim g id) :=
  (h.switchTo g id).mark nofun

/-- Acting on a choice takes the flag down if another port was chosen, and never raises it. -/
theorem Tracked.commit (h : Tracked origin t tr stack s) (hg : g.Consistent)
    (htr : g.transition? t = some tr) (hport : id = tr.start → n.behaviour.hasPort tr.port = true)
    (chosen : Option Port) :
    Tracked origin t tr (if id = tr.start then chosen :: stack else stack) (s.commit g id n chosen) := by
  refine Session.commit_induction (P := Noted origin t tr _ _) n chosen
    (fun s id hs => Session.Adds.switchTo hs noted_report g id) (fun _ hs => hs)
    (fun _ _ _ _ _ hs => hs) ?_
  by_cases hid : id = tr.start
  · subst hid
    refine Noted.snoc h _ (by simp [pendingAfter]) fun events _ _ => Explained.snoc_chose fun hne => ?_
    exact State.has_active_relaxOthers ((Behaviour.mem_ports _ _).mpr (hport rfl)) hne
      (hg.mem_exits.mpr ⟨tr, htr, rfl, rfl⟩)
  · rw [if_neg hid]
    exact (Noted.record (e := .chose id chosen) h hid).mono Session.has_active_of_has_commit

/-- A transition that fires while its port is pending explains its flag. -/
theorem Tracked.fire (h : Tracked origin t tr stack s) (hpending : some tr.port ∈ stack) (now : Float)
    (cooldown : Option Float32) :
    Tracked origin t tr stack
      ((s.record (.fired t now cooldown)).change (State.mark (.transition t))) :=
  Noted.snoc h _ rfl fun _ hstack _ => Explained.snoc_fired (hstack ▸ hpending)

theorem Tracked.left {chosen : Option Port}
    (h : Tracked origin t tr (if id = tr.start then chosen :: stack else stack) s) :
    Tracked origin t tr stack (s.record (.left id)) := by
  by_cases hid : id = tr.start
  · refine Noted.snoc h _ ?_ fun _ _ hexplained => hexplained.snoc rfl
    simp [pendingAfter, hid]
  · rw [if_neg hid] at h
    exact Noted.record (e := .left id) h hid

/-! ## Tracked walks -/

theorem Tracked.leads_runNode {tick : TransitionId → Walk κ τ ρ Bool}
    (htick : ∀ u stack s, (u = t → some tr.port ∈ stack) → Tracked origin t tr stack s →
      (tick u).Leads s (fun _ => Tracked origin t tr stack) fun _ => True)
    (hg : g.Consistent) (htr : g.transition? t = some tr)
    (hport : id = tr.start → n.behaviour.hasPort tr.port = true) (h : Tracked origin t tr stack s) :
    (Walk.runNode g id n tick).Leads s (fun _ => Tracked origin t tr stack) fun _ => True := by
  have henter : (Walk.enter g id n).Leads s
      (fun goes s => if goes then Tracked origin t tr stack s else Tracked origin t tr stack s)
      fun _ => True :=
    Walk.leads_enter inert_tracked.toDetached inert_tracked.toDetached (fun _ _ _ => not_false)
      (fun s hs _ => inert_tracked.record s _ not_false hs) (fun s hs => hs.mark nofun)
      (fun _ s hs => hs.claim g id) (fun _ _ => trivial) h
  refine Walk.leads_runNode
    (F := fun port _ => Tracked origin t tr (if id = tr.start then port :: stack else stack)) henter
    (fun s hs => ?_) (fun port u us s hu hs => htick u _ s (fun hut => ?_) hs) fun port us s hs => ?_
  · exact (inert_tracked.choose (fun _ _ _ => not_false) (fun _ _ _ => not_false)
      fun _ _ _ _ => not_false).leads hs (fun port s hs => hs.commit hg htr hport port) fun _ _ => trivial
  · -- a transition that is ticked for its port leaves the node whose choice is on top of the stack
    obtain ⟨tr', htr', hstart, hport'⟩ := hg.mem_exits.mp hu
    rw [hut, htr] at htr'
    obtain rfl := Option.some.inj htr'
    simp [hstart, hport']
  · exact Walk.leads_leave inert_tracked.toAmbient (fun _ _ _ => not_false)
      (fun _ _ hs _ => hs.change fun hup => hup) (fun _ hs => hs.left) (fun _ _ => trivial) hs

variable [Clock κ τ] [RandomSource ρ]

theorem Tracked.leads_tickTransition {visit : NodeId → Walk κ τ ρ Unit}
    (hvisit : ∀ id s, Tracked origin t tr stack s →
      (visit id).Leads s (fun _ => Tracked origin t tr stack) fun _ => True)
    {u : TransitionId} (hu : u = t → some tr.port ∈ stack) (h : Tracked origin t tr stack s) :
    (Walk.tickTransition g visit u).Leads s (fun _ => Tracked origin t tr stack) fun _ => True := by
  have hfire (s : Session κ τ ρ) (now : Float) (cooldown : Option Float32)
      (hs : Tracked origin t tr stack s) :
      Tracked origin t tr stack
        ((s.record (.fired u now cooldown)).change (State.mark (.transition u))) := by
    by_cases hut : u = t
    · subst hut
      exact hs.fire (hu rfl) now cooldown
    · refine Tracked.mark (Noted.record (e := .fired u now cooldown) hs not_false) fun he => hut ?_
      cases he
      rfl
  exact Walk.leads_tickTransition (fun _ hs => hs) (fun _ hs => Noted.record hs not_false)
    (fun v _ _ _ hs => hs.switchTo g v.start)
    (fun v _ _ hs => Walk.leads_follow inert_tracked (fun _ _ _ => not_false) (fun _ _ _ => not_false)
      (fun _ _ _ => not_false) not_false hfire (fun s hs => hvisit v.finish s hs)
      (fun _ _ => trivial) hs) h

/-- Whatever the walk does below a node, the choices that were pending before are pending again when
the node has been left. -/
theorem Tracked.leads_visit (hg : g.Consistent) (htr : g.transition? t = some tr)
    (hport : ∀ n, g.node? tr.start = some n → n.behaviour.hasPort tr.port = true) (budget : Nat)
    (id : NodeId) (h : Tracked origin t tr stack s) :
    (Walk.visit g budget id).Leads s (fun _ => Tracked origin t tr stack) fun _ => True := by
  -- the stack is the index of the family: ticks below a node keep its choice on top
  refine Walk.leads_visit (I := fun stack => Tracked origin t tr stack) (fun _ => inert_tracked)
    (fun _ => not_false) (fun visit hvisit stack id n s hn hs => ?_) budget stack id h
  refine hs.leads_runNode (fun u stack s hu hs => ?_) hg htr fun hid => hport n (hid ▸ hn)
  exact hs.leads_tickTransition (hvisit stack) hu

theorem Tracked.leads_tick (hg : g.Consistent) (htr : g.transition? t = some tr)
    (hport : ∀ n, g.node? tr.start = some n → n.behaviour.hasPort tr.port = true)
    (h : Tracked origin t tr [] s) :
    (Walk.tick g).Leads s (fun _ => Tracked origin t tr []) fun _ => True := by
  rw [Walk.leads_tick]
  have hbegun : Tracked origin t tr [] (s.walkStart g) :=
    Noted.mono (Session.Adds.walkStart h noted_report g) Session.has_of_has_walkStart
  refine (hbegun.leads_visit hg htr hport _ _).imp (fun _ s hs => ?_) fun _ hb => hb
  exact Noted.record (e := .reported _) hs not_false

end Tracked

/-! ## After a tick -/

/-- After a tick that ends regularly, a transition of a port that the latest choice of its node
excludes is not flagged as visited, and it is active only if its own port was pending at that choice
and it has fired since. -/
theorem excluded_inactive_unless_resumed [Clock κ τ] [RandomSource ρ] (g : Graph κ) (hg : g.Built)
    (s s' : Session κ τ ρ) (hs : s.Reachable g) (htick : s.perform g .tick = (.done, s'))
    (t : TransitionId) (tr : Transition κ) (htr : g.transition? t = some tr)
    (earlier : List (Event κ)) (choice : Option Port) (later : List (Event κ))
    (hlatest : s'.since s = earlier ++ .chose tr.start choice :: later)
    (hlater : choices tr.start later = []) (hexcluded : choice ≠ some tr.port) :
    s'.state.has .visited (.transition t) = false ∧
      (s'.state.has .active (.transition t) = true →
        some tr.port ∈ pending tr.start earlier ∧ ∃ now cooldown, .fired t now cooldown ∈ later) := by
  have hport (n : Node κ) (hn : g.node? tr.start = some n) : n.behaviour.hasPort tr.port = true := by
    obtain ⟨m, hm, hhas⟩ := hg.wired.start t.index tr htr
    obtain rfl := Option.some.inj (hm.symm.trans hn)
    exact hhas
  have hstart : Tracked s.journal.toList t tr [] s := .nil ⟨rfl, .nil⟩
  have hunvisited := (Walk.leads_tick_unvisited g hs.recorded).ends_of_run htick
  have hexplained := (Session.Adds.since ((hstart.leads_tick hg.consistent htr hport).ends_of_run htick)).2
  exact ⟨hunvisited.2 _, hexplained earlier choice later hlatest hlater hexcluded⟩

/-- A condition that holds at every other call and leads on to itself and then to an action. -/
def flickerSteps : List (BuildStep Nat) :=
  [.add "condition" (.condition (.noArgs fun n => .ok (.ok (n % 2 = 0)) (n + 1)) false) [],
    .add "action" (.action (.noArgs (pure (.ok ())))) [], .connect ⟨1⟩ .whenTrue ⟨1⟩ {},
    .connect ⟨1⟩ .whenTrue ⟨2⟩ {}]

def flickerGraph : Graph Nat := .ofSteps flickerSteps

def flickerStart : Session Nat ManualClock Xoshiro :=
  ((Session.start flickerGraph 0 (ManualClock.mk 0.0) (Xoshiro.ofSeed 0)).perform flickerGraph
    (.setActive ⟨1⟩)).2

def flickered : Session Nat ManualClock Xoshiro := (flickerStart.perform flickerGraph .tick).2

theorem flicker_resumed :
    ∃ earlier later,
      flickered.since flickerStart = earlier ++ .chose ⟨1⟩ (some .whenFalse) :: later ∧
        choices ⟨1⟩ later = [] ∧ flickered.state.has .visited (.transition ⟨1⟩) = false ∧
        some .whenTrue ∈ pending ⟨1⟩ earlier ∧ ∃ now cooldown, .fired ⟨1⟩ now cooldown ∈ later := by
  have hbuilt : flickerGraph.Built := ⟨{}, none, flickerSteps, by decide, rfl⟩
  have hreach : flickerStart.Reachable flickerGraph := .perform _ (.start _ _ _)
  have hchoice : (choices ⟨1⟩ (flickered.since flickerStart)).getLast? = some (some .whenFalse) := by
    decide +kernel
  obtain ⟨earlier, later, hlatest, hlater⟩ := exists_latest_choice hchoice
  have hup : flickered.state.has .active (.transition ⟨1⟩) = true := by decide +kernel
  have hdone : flickerStart.perform flickerGraph .tick = (.done, flickered) :=
    Session.perform_eq_done (by decide +kernel)
  obtain ⟨hunvisited, hresumed⟩ := excluded_inactive_unless_resumed flickerGraph hbuilt flickerStart
    flickered hreach hdone ⟨1⟩ _ rfl earlier (some .whenFalse) later hlatest hlater (by decide)
  exact ⟨earlier, later, hlatest, hlater, hunvisited, hresumed hup⟩

/-- The latest choice of the condition is its other port, and the transition is active. -/
theorem flicker_active_though_excluded :
    flickerGraph.Built ∧ flickerStart.Reachable flickerGraph ∧
      flickerStart.perform flickerGraph .tick = (.done, flickered) ∧
      (choices ⟨1⟩ (flickered.since flickerStart)).getLast? = some (some .whenFalse) ∧
      (∃ tr, flickerGraph.transition? ⟨1⟩ = some tr ∧ tr.start = ⟨1⟩ ∧ tr.port = .whenTrue) ∧
      flickered.state.has .active (.transition ⟨1⟩) = true :=
  ⟨⟨{}, none, flickerSteps, by decide, rfl⟩, .perform _ (.start _ _ _),
    Session.perform_eq_done (by decide +kernel), by decide +kernel, ⟨_, rfl, rfl, rfl⟩,
    by decide +kernel⟩

end BehaviourGraph
