import BehaviourGraph.Proofs.Walk.Calculus

/-!
# Escorted walks

A graph may rely on a node being ticked only in some contexts of the host.  An `Escort` is a law of sessions
and a condition on the context for each node, such that a node that acts under its condition keeps the law
and goes on only to nodes whose conditions then hold.  Then no node of a walk is ticked without its
condition, and the walk is not broken off.
-/

namespace BehaviourGraph

variable {κ τ ρ : Type}

def Event.still : Event κ → Bool
  | .called _ _ _ _ | .reported (.activeChanged _ _) => false
  | _ => true

/-- The host is called by the behaviours of nodes only, and only loops take control. -/
structure Graph.Bare (g : Graph κ) : Prop where
  preTick : ∀ id n, g.node? id = some n → n.preTick = none
  postTick : ∀ id n, g.node? id = some n → n.postTick = none
  modest : ∀ id n, g.node? id = some n → n.capturesControl = false
  guardless : ∀ id t, g.transition? id = some t → t.guard = none
  plain : ∀ id t, g.transition? id = some t → t.capturesControl = false

@[simp] theorem Session.context_switchTo (g : Graph κ) (id : NodeId) (s : Session κ τ ρ) :
    (s.switchTo g id).context = s.context := by
  unfold switchTo
  dsimp only
  split <;> rfl

@[simp] theorem Session.context_commit (g : Graph κ) (id : NodeId) (n : Node κ) (chosen : Option Port)
    (s : Session κ τ ρ) : (s.commit g id n chosen).context = s.context := by
  unfold commit claim
  dsimp only
  split
  · rfl
  · split
    · exact context_switchTo g id _
    · exact context_switchTo g entryNode _

namespace Walk

/-- A law and conditions that the nodes of a graph keep and meet. -/
structure Escort [Clock κ τ] [RandomSource ρ] [Platform] (g : Graph κ) (law : Session κ τ ρ → Prop)
    (safe : NodeId → κ → Prop) : Prop extends Sheltered law fun e => e.still = true where
  mark : ∀ s e, law s → law (s.change (State.mark e))
  relax : ∀ s flag e, law s → law (s.change (State.relax g flag e))
  setNormal : ∀ s id, law s → law (s.change (State.setStatus (.node id) .normal))
  setFiring : ∀ s t firing, law s → law (s.change (State.setFiring t firing))
  setDepth : ∀ s (depth : State → Nat), law s → law (s.change fun a => { a with depth := depth a })
  acts : ∀ id n s, g.node? id = some n → law s → safe id s.context →
    (choose id n).Leads s
      (fun port s => law (s.commit g id n port) ∧ ∀ p t tr, port = some p → t ∈ g.exits id p →
        g.transition? t = some tr → safe tr.finish s.context)
      fun _ => False
  rolls : ∀ id t s, g.transition? id = some t →
    (rollGates id t : Walk κ τ ρ Bool).Leads s (fun _ _ => True) fun _ => False
  /-- With one transition at a port, nothing happens between the choice of the port and the end. -/
  single : ∀ id port, (g.exits id port).length ≤ 1

namespace Escort

variable [Clock κ τ] [RandomSource ρ] [Platform] {g : Graph κ} {law : Session κ τ ρ → Prop}
  {safe : NodeId → κ → Prop} (h : Escort g law safe) (hbare : g.Bare) {s : Session κ τ ρ}
include h hbare

theorem leads_enter {id : NodeId} {n : Node κ} (hn : g.node? id = some n) (hs : law s)
    (hsafe : safe id s.context) :
    (enter g id n).Leads s (fun goes s => if goes then law s ∧ safe id s.context else law s)
      fun _ => False := by
  have hentered := h.mark _ (.node id) (h.record s (.entered id) rfl hs)
  unfold enter
  rw [hbare.preTick id n hn, hbare.modest id n hn]
  split
  next => exact ⟨hentered, hsafe⟩
  next =>
    rw [leads_bind, leads_get]
    split
    next => exact hs
    next => exact ⟨h.setNormal _ id hentered, hsafe⟩

theorem leads_leave {id : NodeId} {n : Node κ} (hn : g.node? id = some n) (hs : law s) :
    (leave g id n).Leads s (fun _ => law) fun _ => False := by
  unfold leave
  rw [hbare.postTick id n hn, leads_bind, leads_get]
  split
  next => exact h.record _ _ rfl (h.relax s .visited (.node id) hs)
  next => exact h.record _ _ rfl hs

theorem leads_tickTransition {visit : NodeId → Walk κ τ ρ Unit}
    (hvisit : ∀ id s, law s → safe id s.context → (visit id).Leads s (fun _ => law) fun _ => False)
    {id : TransitionId} (hs : law s)
    (hsafe : ∀ t, g.transition? id = some t → safe t.finish s.context) :
    (tickTransition g visit id).Leads s (fun _ => law) fun _ => False := by
  unfold tickTransition
  split
  next => exact hs
  next t ht =>
    have hsafe := hsafe t ht
    have hkept : Sheltered (fun s : Session κ τ ρ => law s ∧ safe t.finish s.context)
        fun e => e.still = true :=
      { passage := fun s clock random hs => ⟨h.passage s clock random hs.1, hs.2⟩
        record := fun s e he hs => ⟨h.record s e he hs.1, hs.2⟩ }
    have hrolled := (hkept.keeps_rollGates (fun _ _ _ => rfl) (fun _ _ => rfl)
      (fun s firing hs => ⟨h.setFiring s id firing hs.1, hs.2⟩) t _
      ⟨h.record s (.ticked id) rfl hs, hsafe⟩).and (h.rolls id t _ ht)
    rw [leads_bind, leads_record, hbare.plain id t ht]
    simp only [Bool.false_eq_true, if_false]
    unfold follow
    rw [leads_bind]
    refine hrolled.imp (fun opens s hs => ?_) fun _ hb => hb.2
    obtain ⟨⟨hs, hsafe⟩, _⟩ := hs
    cases opens with
    | false => exact hs
    | true =>
        simp only [passesGuard, hbare.guardless id t ht, leads_bind, leads_change, leads_record,
          leads_pure, Bool.not_true, Bool.false_eq_true, if_false]
        have hopened := h.record _ (.opened id) rfl (h.mark s (.transition id) hs)
        exact (hvisit t.finish _ hopened hsafe).imp (fun _ s hs => hs) fun _ hb => hb

theorem leads_runNode {visit : NodeId → Walk κ τ ρ Unit}
    (hvisit : ∀ id s, law s → safe id s.context → (visit id).Leads s (fun _ => law) fun _ => False)
    {id : NodeId} {n : Node κ} (hn : g.node? id = some n) (hs : law s) (hsafe : safe id s.context) :
    (runNode g id n (tickTransition g visit)).Leads s (fun _ => law) fun _ => False := by
  apply leads_runNode_until (P := fun s => law s ∧ safe id s.context) (E := fun _ => law)
    (F := fun port ts s => law s ∧ ts.length ≤ 1 ∧ ∀ p t tr, port = some p → t ∈ ts →
      g.transition? t = some tr → safe tr.finish s.context)
  case henter => exact h.leads_enter hbare hn hs hsafe
  case hchoose =>
    intro s hs
    refine (h.acts id n s hn hs.1 hs.2).imp (fun port s hacted => ?_) fun _ hb => hb
    refine ⟨hacted.1, ?_, fun p t tr hport ht htr => ?_⟩
    · cases port with
      | none => exact Nat.zero_le 1
      | some port => exact h.single id port
    · subst hport
      rw [Session.context_commit]
      exact hacted.2 p t tr rfl ht htr
  case htick =>
    intro port t ts s _ hs
    obtain ⟨hs, hlength, hsafe⟩ := hs
    rw [List.length_cons] at hlength
    obtain rfl : ts = [] := List.eq_nil_of_length_eq_zero (by omega)
    refine (h.leads_tickTransition hbare hvisit hs fun tr htr =>
      hsafe port t tr rfl List.mem_cons_self htr).imp (fun goes s hs => ?_) fun _ hb => hb
    cases goes with
    | false => exact hs
    | true => exact ⟨hs, Nat.zero_le 1, fun _ _ _ _ ht => (List.not_mem_nil ht).elim⟩
  case hdone => exact fun port s hs => hs.1
  case hleave => exact fun port s hs => h.leads_leave hbare hn hs

/-- A node that is ticked under its condition is ticked to the end, and so are all nodes below it. -/
theorem leads_visit (budget : Nat) (id : NodeId) (hs : law s) (hsafe : safe id s.context) :
    (Walk.visit g budget id).Leads s (fun _ => law) fun _ => False := by
  refine leads_visit_of (I := fun _ (_ : Unit) id s => law s ∧ safe id s.context) (O := fun _ => law)
    ?deeper ?back ?refused ?absent ?node budget () id ⟨hs, hsafe⟩
  case deeper => exact fun _ _ _ s depth hs => ⟨h.setDepth s depth hs.1, hs.2⟩
  case back => exact fun _ s depth hs => h.setDepth s depth hs
  case refused => exact fun _ _ s _ hs => h.record s _ rfl hs.1
  case absent => exact fun _ _ _ _ _ hs => hs.1
  case node =>
    intro _ visit hvisit _ id n s hn hs
    exact h.leads_runNode hbare (fun id s hs hsafe => hvisit () id s ⟨hs, hsafe⟩) hn hs.1 hs.2

end Escort

end Walk

end BehaviourGraph
