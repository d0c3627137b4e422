import BehaviourGraph.Proofs.Reachable
import BehaviourGraph.Proofs.Wiring

/-!
# Switching control

Whoever loses control is relaxed.  Relaxation does nothing for a node whose own flag is down, so its
transitions stay as they are then; otherwise all of them lose their flags with it.  A node can hold
control with its flag down: a transition that captures control gives it to its start, the switch
relaxes the path to the start and with it the start itself, and nothing marks it again.
-/

namespace BehaviourGraph

variable {κ τ ρ : Type}

namespace Session

@[simp] theorem control_switchTo (g : Graph κ) (id : NodeId) (s : Session κ τ ρ) :
    (s.switchTo g id).state.control = id := by
  unfold switchTo
  dsimp only
  split
  next h => exact h
  next => rfl

theorem has_active_switchTo (g : Graph κ) {id : NodeId} {s : Session κ τ ρ}
    (h : s.state.control ≠ id) (e : Element) :
    (s.switchTo g id).state.has .active e =
      (s.state.active.relax g.next (.node s.state.control)).has e := by
  simp only [switchTo, if_neg h]
  rfl

/-- A reset switches to the entry, also if its hook breaks off. -/
theorem state_perform_reset [Clock κ τ] [RandomSource ρ] (g : Graph κ) (s : Session κ τ ρ) :
    (s.perform g .reset).2.state = (s.switchTo g entryNode).state := by
  have hreset : (Walk.reset g).Leads s
      (fun _ s' => s'.state = (s.switchTo g entryNode).state)
      (fun s' => s'.state = (s.switchTo g entryNode).state) := by
    unfold Walk.reset
    simp only [Walk.leads_bind, Walk.leads_modify, Walk.leads_report]
    exact Walk.leads_runHook _ _ rfl (fun _ _ => rfl) fun _ _ => rfl
  exact hreset.run

/-- A request of the host that moves control switches to the node that it names. -/
theorem state_perform_of_moved [Clock κ τ] [RandomSource ρ] {g : Graph κ} {s : Session κ τ ρ}
    {operation : Operation} (hop : operation = .reset ∨ ∃ id, operation = .setActive id)
    (hmoved : (s.perform g operation).2.state.control ≠ s.state.control) :
    ∃ id, id ≠ s.state.control ∧ (s.perform g operation).2.state = (s.switchTo g id).state := by
  obtain ⟨id, hid⟩ : ∃ id, (s.perform g operation).2.state = (s.switchTo g id).state := by
    rcases hop with rfl | ⟨id, rfl⟩
    · exact ⟨entryNode, s.state_perform_reset g⟩
    · refine ⟨id, ?_⟩
      simp only [perform, provided] at hmoved ⊢
      split
      next => rfl
      next h => exact (hmoved (by rw [if_neg h])).elim
  refine ⟨id, ?_, hid⟩
  rwa [hid, control_switchTo] at hmoved

end Session

/-- When a request moves control, the node that had it is inactive afterwards.  If its flag was up,
all its transitions are inactive too; if its flag was down already, they are as active as before. -/
theorem active_after_switch [Clock κ τ] [RandomSource ρ] (g : Graph κ) (s : Session κ τ ρ)
    (operation : Operation) (hop : operation = .reset ∨ ∃ id, operation = .setActive id)
    (hmoved : (s.perform g operation).2.state.control ≠ s.state.control) :
    (s.perform g operation).2.state.has .active (.node s.state.control) = false ∧
      ∀ t ∈ g.outgoing s.state.control,
        (s.perform g operation).2.state.has .active (.transition t) =
          (!s.state.has .active (.node s.state.control) && s.state.has .active (.transition t)) := by
  obtain ⟨id, hne, hstate⟩ := Session.state_perform_of_moved hop hmoved
  rw [hstate]
  simp only [Session.has_active_switchTo g hne.symm]
  refine ⟨Marking.has_relax_self _ _ _, fun t ht => ?_⟩
  cases hp : s.state.has .active (.node s.state.control) with
  | false => rw [Marking.relax_of_not_has g.next hp]; rfl
  | true =>
      have hnext : Element.transition t ∈ g.next (.node s.state.control) := List.mem_map_of_mem ht
      rw [Marking.has_relax_next hp hnext]
      rfl

/-- The entry, an action that takes control when its transition is ticked, and another action. -/
def relaySteps : List (BuildStep Unit) :=
  [.add "first" (.action (.noArgs (pure (.ok ())))) [],
    .add "second" (.action (.noArgs (pure (.ok ())))) [], .link entryNode ⟨1⟩,
    .connect ⟨1⟩ .out ⟨2⟩ { capturesControl := true }]

def relayGraph : Graph Unit := .ofSteps relaySteps

def relayStart : Session Unit ManualClock Xoshiro :=
  .start relayGraph () (ManualClock.mk 0.0) (Xoshiro.ofSeed 0)

def relayedFromAction : Session Unit ManualClock Xoshiro :=
  ((relayStart.perform relayGraph (.setActive ⟨1⟩)).2.perform relayGraph .tick).2

def relayedFromEntry : Session Unit ManualClock Xoshiro :=
  (relayStart.perform relayGraph .tick).2

theorem relay_relaxed_after_reset :
    relayedFromAction.state.control = ⟨1⟩ ∧
      relayedFromAction.state.has .active (.transition ⟨1⟩) = true ∧
      (relayedFromAction.perform relayGraph .reset).2.state.has .active (.node ⟨1⟩) = false ∧
      (relayedFromAction.perform relayGraph .reset).2.state.has .active (.transition ⟨1⟩) = false := by
  have hmoved : (relayedFromAction.perform relayGraph .reset).2.state.control ≠
      relayedFromAction.state.control := by decide +kernel
  have hcontrol : relayedFromAction.state.control = ⟨1⟩ := by decide +kernel
  have hrunning : relayedFromAction.state.has .active (.transition ⟨1⟩) = true := by decide +kernel
  have hnode : relayedFromAction.state.has .active (.node ⟨1⟩) = true := by decide +kernel
  obtain ⟨hself, hnext⟩ := active_after_switch relayGraph relayedFromAction .reset (.inl rfl) hmoved
  have hout : (⟨1⟩ : TransitionId) ∈ relayGraph.outgoing relayedFromAction.state.control := by decide
  refine ⟨hcontrol, hrunning, hcontrol ▸ hself, ?_⟩
  rw [hnext ⟨1⟩ hout, hcontrol, hnode]
  rfl

/-- A node that got control through its transition holds it with its flag down: the reset takes
control away and leaves the transition active. -/
theorem relay_active_after_reset :
    relayGraph.Built ∧ relayedFromEntry.Reachable relayGraph ∧
      relayStart.perform relayGraph .tick = (.done, relayedFromEntry) ∧
      relayedFromEntry.state.control = ⟨1⟩ ∧
      (relayedFromEntry.perform relayGraph .reset).2.state.control = entryNode ∧
      (⟨1⟩ : TransitionId) ∈ relayGraph.outgoing ⟨1⟩ ∧
      (relayedFromEntry.perform relayGraph .reset).2.state.has .active (.transition ⟨1⟩) = true :=
  ⟨⟨{}, none, relaySteps, by decide, rfl⟩, .perform .tick (.start _ _ _),
    Session.perform_eq_done (by decide +kernel), by decide +kernel, by decide +kernel, by decide,
    by decide +kernel⟩

end BehaviourGraph
