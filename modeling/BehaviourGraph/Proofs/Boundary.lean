import BehaviourGraph.Proofs.Building
import BehaviourGraph.Proofs.Reachable

/-!
# Tick boundary

Whatever raises the visited flag of an element records the element on the trail, and nothing takes
an element off the trail before its flag is down.  So the sweep at the end of a tick leaves no flag
behind, also where walks were broken off before.
-/

namespace BehaviourGraph

variable {κ τ ρ : Type}

/-! ## Flags on the trail -/

def State.Recorded (s : State) : Prop := ∀ e, s.has .visited e = true → e ∈ s.trail

def State.Unvisited (s : State) : Prop := ∀ e, s.has .visited e = false

namespace State

theorem unvisited_start (g : Graph κ) : (State.start g).Unvisited := Marking.has_empty _ _

theorem Recorded.mark {s : State} (hs : s.Recorded) (e : Element) : (s.mark e).Recorded := by
  intro f hf
  rcases has_of_has_mark hf with rfl | hf
  · exact List.mem_cons_self
  · exact List.mem_cons_of_mem e (hs f hf)

theorem Recorded.relax {s : State} (hs : s.Recorded) (g : Graph κ) (flag : Flag) (e : Element) :
    (s.relax g flag e).Recorded := by
  intro f hf
  cases flag with
  | active => exact hs f hf
  | visited => exact hs f ((Marking.relax_below g.next e s.visited).has f hf)

theorem Recorded.unvisited_sweep {s : State} (hs : s.Recorded) : s.sweep.Unvisited := by
  intro e
  show (s.trail.foldl Marking.clear s.visited).has e = false
  rw [Marking.has_foldl_clear]
  cases he : s.visited.has e with
  | false => rfl
  | true => simp [hs e he]

theorem Unvisited.recorded {s : State} (hs : s.Unvisited) : s.Recorded := by
  intro e he
  rw [hs e] at he
  cases he

end State

theorem stable_recorded (g : Graph κ) : Stable (τ := τ) (ρ := ρ) g fun s => s.state.Recorded where
  surroundings _ _ _ _ hs := hs
  record _ _ _ hs := hs
  setStatus _ _ _ hs := hs
  setFiring _ _ _ hs := hs
  setDepth _ _ hs := hs
  mark _ e hs := hs.mark e
  relax _ flag e hs := hs.relax g flag e
  setControl _ _ hs := hs
  sweep _ hs := hs.unvisited_sweep.recorded
  setQueue _ _ hs := hs

theorem Session.Reachable.recorded [Clock κ τ] [RandomSource ρ] {g : Graph κ} {s : Session κ τ ρ}
    (h : s.Reachable g) : s.state.Recorded :=
  (stable_recorded g).reachable (fun _ _ _ => (State.unvisited_start g).recorded) h

/-! ## The end of a tick -/

theorem Walk.leads_tick_unvisited [Clock κ τ] [RandomSource ρ] (g : Graph κ) {s : Session κ τ ρ}
    (hs : s.state.Recorded) :
    (Walk.tick g).Leads s (fun _ s => s.state.trail = [] ∧ s.state.Unvisited) fun _ => True := by
  rw [leads_tick]
  refine ((stable_recorded g).keeps_visit _ _).leads ?_ ?_ fun _ _ => trivial
  · exact (stable_recorded g).walkStart hs
  · intro _ s hs
    exact ⟨rfl, hs.unvisited_sweep⟩

/-- Between requests none of which is broken off, no element is flagged as visited. -/
theorem Session.Unbroken.unvisited [Clock κ τ] [RandomSource ρ] {g : Graph κ} {s : Session κ τ ρ}
    (h : s.Unbroken g) : s.state.Unvisited := by
  have hambient : Walk.Ambient (κ := κ) (τ := τ) (ρ := ρ) (fun s => s.state.Unvisited)
      fun _ => True :=
    { surroundings := fun _ _ _ _ hs => hs
      record := fun _ _ _ hs => hs }
  have hswitch (s : Session κ τ ρ) (id : NodeId) (hs : s.state.Unvisited) :
      (s.switchTo g id).state.Unvisited := by
    intro e
    rw [Bool.eq_false_iff]
    exact fun hup => Bool.eq_false_iff.mp (hs e) (Session.has_of_has_switchTo hup)
  apply h.has_of (P := fun s => s.state.Unvisited)
  · exact fun _ _ _ => State.unvisited_start g
  · exact fun _ _ _ _ hs => hs
  · exact fun s hs => (Walk.leads_tick_unvisited g hs.recorded).imp (fun _ _ hs => hs.2) fun _ hb => hb
  · intro s hs
    unfold Walk.reset
    rw [Walk.leads_bind, Walk.leads_modify, Walk.leads_bind]
    exact (hambient.runHook (fun _ _ _ => trivial) g.onReset).leads (hswitch s entryNode hs)
      (fun _ _ hs => hs) fun _ _ => trivial
  · exact hswitch
  · exact fun _ _ hs => hs
  · intro s flag e hs f
    rw [Bool.eq_false_iff]
    exact fun hup => Bool.eq_false_iff.mp (hs f) (State.has_of_has_relax hup)

/-- In every reachable session each element flagged as visited is on the trail, and a tick that ends
regularly leaves no such flag and an empty trail. -/
theorem visited_mem_trail_and_tick_clears [Clock κ τ] [RandomSource ρ] (g : Graph κ)
    (s : Session κ τ ρ) (h : s.Reachable g) :
    (∀ e, s.state.has .visited e = true → e ∈ s.state.trail) ∧
      ∀ s', s.perform g .tick = (.done, s') →
        s'.state.trail = [] ∧ ∀ e, s'.state.has .visited e = false :=
  ⟨h.recorded, fun _ htick => (Walk.leads_tick_unvisited g h.recorded).ends_of_run htick⟩

/-- The entry and an action that breaks off the first time it is called. -/
def falteringGraph : Graph Nat :=
  .ofSteps [.add "action" (.action (.noArgs fun n => if n = 0 then .error "" 1 else .ok (.ok ()) (n + 1))) [],
    .link entryNode ⟨1⟩]

def falteredSession : Session Nat ManualClock Xoshiro :=
  ((Session.start falteringGraph 0 (ManualClock.mk 0.0) (Xoshiro.ofSeed 0)).perform falteringGraph
    .tick).2

theorem faltered_recorded_and_swept :
    falteredSession.state.has .visited (.node ⟨1⟩) = true ∧
      Element.node ⟨1⟩ ∈ falteredSession.state.trail ∧
      ∃ s', falteredSession.perform falteringGraph .tick = (.done, s') ∧ s'.state.trail = [] := by
  have hreach : falteredSession.Reachable falteringGraph :=
    .perform .tick (.start 0 (ManualClock.mk 0.0) (Xoshiro.ofSeed 0))
  have hboundary := visited_mem_trail_and_tick_clears falteringGraph falteredSession hreach
  have hup : falteredSession.state.has .visited (.node ⟨1⟩) = true := by decide +kernel
  have hdone : falteredSession.perform falteringGraph .tick =
      (.done, (falteredSession.perform falteringGraph .tick).2) :=
    Session.perform_eq_done (by decide +kernel)
  exact ⟨hup, hboundary.1 _ hup, _, hdone, (hboundary.2 _ hdone).1⟩

end BehaviourGraph
