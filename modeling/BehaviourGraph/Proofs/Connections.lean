import Mathlib.Data.List.Nodup
import BehaviourGraph.Proofs.Wiring

/-!
# Connections

The lists of transitions of a node and of its ports can be told from the answers of a builder: they
hold the transitions that steps have connected there, in order.  Steps that fail add to no list.  So a
transition is in the list of its start and of its port once, and in no other.
-/

namespace BehaviourGraph

variable {κ : Type}

/-! ## Lists of transitions -/

theorem sorted_transitionsWhere (transitions : Array (Transition κ)) (test : Transition κ → Bool) :
    (transitionsWhere transitions test).Pairwise fun t u => t.index < u.index :=
  List.Pairwise.map TransitionId.mk (fun _ _ hlt => hlt)
    (List.Pairwise.filter _ List.pairwise_lt_range)

theorem count_transitionsWhere {transitions : Array (Transition κ)} {test : Transition κ → Bool}
    {t : TransitionId} {tr : Transition κ} (htr : transitions[t.index]? = some tr) :
    (transitionsWhere transitions test).count t = if test tr then 1 else 0 := by
  have hmem : t ∈ transitionsWhere transitions test ↔ test tr = true := by
    rw [mem_transitionsWhere, htr]
    simp
  split
  next htest => exact List.count_eq_one_of_mem (nodup_transitionsWhere _ _) (hmem.mpr htest)
  next htest => exact List.count_eq_zero.mpr fun h => htest (hmem.mp h)

/-- Every transition is listed once where it belongs and nowhere else, in the order of the numbers. -/
structure Graph.Listed (g : Graph κ) : Prop where
  outgoing_count : ∀ t tr id, g.transition? t = some tr →
    (g.outgoing id).count t = if id = tr.start then 1 else 0
  exits_count : ∀ t tr id port, g.transition? t = some tr →
    (g.exits id port).count t = if id = tr.start ∧ port = tr.port then 1 else 0
  outgoing_sorted : ∀ id, (g.outgoing id).Pairwise fun t u => t.index < u.index
  exits_sorted : ∀ id port, (g.exits id port).Pairwise fun t u => t.index < u.index
  outgoing_exist : ∀ id, ∀ t ∈ g.outgoing id, g.hasTransition t = true
  exits_exist : ∀ id port, ∀ t ∈ g.exits id port, g.hasTransition t = true

theorem Graph.Consistent.listed {g : Graph κ} (hg : g.Consistent) : g.Listed where
  outgoing_count t tr id htr := by
    rw [hg.outgoing]
    refine (count_transitionsWhere htr).trans (if_congr ?_ rfl rfl)
    rw [decide_eq_true_eq, eq_comm]
  exits_count t tr id port htr := by
    rw [hg.exits]
    refine (count_transitionsWhere htr).trans (if_congr ?_ rfl rfl)
    rw [Bool.and_eq_true, decide_eq_true_eq, decide_eq_true_eq, eq_comm, @eq_comm _ port]
  outgoing_sorted id := hg.outgoing id ▸ sorted_transitionsWhere _ _
  exits_sorted id port := hg.exits id port ▸ sorted_transitionsWhere _ _
  outgoing_exist id t ht := by
    obtain ⟨tr, htr, _⟩ := hg.mem_outgoing.mp ht
    exact hasTransition_iff.mpr ⟨tr, htr⟩
  exits_exist id port t ht := by
    obtain ⟨tr, htr, _⟩ := hg.mem_exits.mp ht
    exact hasTransition_iff.mpr ⟨tr, htr⟩

/-! ## Answers of a builder -/

def connected? (place : NodeId → Port → Bool) :
    BuildStep κ × Except GraphError Addition → Option TransitionId
  | (step, .ok (.transition t)) => if step.place?.any fun p => place p.1 p.2 then some t else none
  | _ => none

def connected (place : NodeId → Port → Bool) (steps : List (BuildStep κ))
    (answers : List (Except GraphError Addition)) : List TransitionId :=
  (steps.zip answers).filterMap (connected? place)

namespace Builder

variable {b b' : Builder κ} {place : NodeId → Port → Bool}

/-- A step that is carried out adds the transition of its answer to the lists of its place. -/
theorem transitionsWhere_step {step : BuildStep κ} {addition : Addition}
    (h : Carried b step addition b') :
    transitionsWhere b'.transitions (fun tr => place tr.start tr.port) =
      transitionsWhere b.transitions (fun tr => place tr.start tr.port) ++
        (connected? place (step, .ok addition)).toList := by
  have hnowhere (hplace : step.place? = none) : connected? place (step, .ok addition) = none := by
    cases addition <;> simp [connected?, hplace]
  cases h with
  | added n hplace =>
      rw [hnowhere hplace]
      exact (List.append_nil _).symm
  | amended addition id f hplace =>
      rw [hnowhere hplace]
      exact (List.append_nil _).symm
  | connected t hplace =>
      refine (transitionsWhere_push b.transitions t _).trans ?_
      by_cases hhere : place t.start t.port = true <;> simp [connected?, hplace, hhere]

theorem transitionsWhere_takeAll (b : Builder κ) (steps : List (BuildStep κ)) :
    transitionsWhere (b.takeAll steps).2.transitions (fun tr => place tr.start tr.port) =
      transitionsWhere b.transitions (fun tr => place tr.start tr.port) ++
        connected place steps (b.takeAll steps).1 :=
  told_takeAll (fun b => transitionsWhere b.transitions fun tr => place tr.start tr.port)
    (fun _ _ => rfl) transitionsWhere_step b steps

/-- The lists of a graph that has been built are those of the answers. -/
theorem transitionsWhere_build {g : Graph κ} {config : Config} {onReset : Option (Hook κ)}
    {steps : List (BuildStep κ)} (place : NodeId → Port → Bool)
    (h : (({ config, onReset } : Builder κ).takeAll steps).2.build = .ok g) :
    transitionsWhere g.transitions (fun tr => place tr.start tr.port) =
      connected place steps (({ config, onReset } : Builder κ).takeAll steps).1 := by
  rw [(build_eq_ok h).2]
  exact transitionsWhere_takeAll _ steps

/-! ## Windows -/

theorem Carried.suitable {step : BuildStep κ} {addition : Addition} (h : Carried b step addition b')
    (hb : ∀ (i : Nat) (tr : Transition κ), b.transitions[i]? = some tr → tr.Suitable) (i : Nat)
    (tr : Transition κ) (htr : b'.transitions[i]? = some tr) : tr.Suitable := by
  cases h with
  | added n => exact hb i tr htr
  | amended addition id f => exact hb i tr htr
  | connected t hplace hlabel hsuitable =>
      rcases eq_or_of_getElem?_push htr with htr | ⟨_, rfl⟩
      · exact hb i tr htr
      · exact hsuitable

end Builder

/-- A built graph has checked the windows of its transitions. -/
theorem Graph.Built.suitable {g : Graph κ} (h : g.Built) {id : TransitionId} {t : Transition κ}
    (ht : g.transition? id = some t) : t.Suitable := by
  obtain ⟨config, onReset, steps, _, hbuild⟩ := h
  rw [(Builder.build_eq_ok hbuild).2] at ht
  refine Builder.takeAll_induction (P := fun b : Builder κ =>
      ∀ (i : Nat) (tr : Transition κ), b.transitions[i]? = some tr → tr.Suitable)
    (fun _ _ _ _ _ hcarried => hcarried.suitable) (fun i tr htr => ?_) id.index t ht
  have hnone : (#[] : Array (Transition κ))[i]? = some tr := htr
  cases hnone

end BehaviourGraph
