import BehaviourGraph.Run.Operation

/-!
# Causes of broken walks

What can break a walk off: a part of a walk `Spares` a cause if it never breaks off for that cause.  Parts
made of such parts spare it as well, so what can break a tick off is read off its text.
-/

namespace BehaviourGraph

variable {κ τ ρ α β : Type}

def Node.Valued (n : Node κ) : Prop :=
  ∀ branches, n.behaviour = .utility branches → ∀ b ∈ branches, ∀ x, b.curve.evaluate x ≠ none

def Response.abort? : Response → Option Abort
  | .aborted cause => some cause
  | _ => none

theorem Response.abort?_eq_some {r : Response} {cause : Abort} :
    r.abort? = some cause ↔ r = .aborted cause := by
  cases r <;> simp [abort?]

namespace Walk

/-- A part of a walk never breaks off for a cause. -/
def Spares (cause : Abort) (w : Walk κ τ ρ α) : Prop := ∀ s s', w s ≠ .error cause s'

section Rules

variable {cause : Abort}

theorem spares_pure (a : α) : Spares cause (pure a : Walk κ τ ρ α) := nofun

theorem spares_get : Spares cause (get : Walk κ τ ρ (Session κ τ ρ)) := nofun

theorem spares_modify (f : Session κ τ ρ → Session κ τ ρ) :
    Spares cause (modify f : Walk κ τ ρ Unit) := nofun

theorem spares_readClock [Clock κ τ] : Spares cause (readClock : Walk κ τ ρ Float) := nofun

theorem Spares.bind {w : Walk κ τ ρ β} {f : β → Walk κ τ ρ α} (hw : Spares cause w)
    (hf : ∀ b, Spares cause (f b)) : Spares cause (w >>= f) := by
  intro s s' h
  simp only [Bind.bind, EStateM.bind] at h
  cases hrun : w s with
  | ok b s'' =>
      rw [hrun] at h
      exact hf b s'' s' h
  | error found s'' =>
      rw [hrun] at h
      cases h
      exact hw s s' hrun

theorem Spares.ite {c : Prop} [Decidable c] {w w' : Walk κ τ ρ α} (hw : Spares cause w)
    (hw' : Spares cause w') : Spares cause (if c then w else w') := by
  split
  · exact hw
  · exact hw'

theorem Spares.fanOut {tick : TransitionId → Walk κ τ ρ Bool} (htick : ∀ t, Spares cause (tick t))
    (ts : List TransitionId) : Spares cause (fanOut tick ts) := by
  induction ts with
  | nil => exact spares_pure ()
  | cons t ts ih =>
      unfold Walk.fanOut
      exact .bind (htick t) fun goes => .ite ih (spares_pure ())

theorem Spares.response_ne {w : Walk κ τ ρ Unit} (hw : Spares cause w) (s : Session κ τ ρ) :
    (s.run w).1 ≠ .aborted cause := by
  unfold Session.run
  split
  next => nofun
  next found s' hrun =>
    intro h
    cases h
    exact hw s s' hrun

end Rules

/-! ## Values of curves -/

/-- Only a curve is at fault for a missing value. -/
theorem spares_noValue_evaluate {c : Curve} (hc : ∀ x, c.evaluate x ≠ none) (raw : Float32) :
    Spares .noValue (evaluate c raw : Walk κ τ ρ Float32) := by
  intro s s' h
  unfold evaluate at h
  cases hvalue : c.evaluate raw with
  | none => exact hc raw hvalue
  | some value =>
      rw [hvalue] at h
      cases h

theorem spares_noValue_draw [RandomSource ρ] (t : TransitionId) (lo hi : Float32) :
    Spares .noValue (draw t lo hi : Walk κ τ ρ Float32) := by
  intro s s' h
  unfold draw at h
  split at h <;> cases h

theorem spares_noValue_runHook (call : Call) (hook : Option (Hook κ)) :
    Spares .noValue (runHook call hook : Walk κ τ ρ Unit) := by
  cases hook with
  | none => exact spares_pure ()
  | some hook =>
      intro s s' h
      simp only [runHook] at h
      split at h <;> cases h

theorem spares_noValue_invoke [OfValue α] (call : Call) (callback : Callback κ α) :
    Spares .noValue (invoke call callback : Walk κ τ ρ (Except CallbackError α)) := by
  intro s s' h
  unfold invoke at h
  split at h <;> cases h

theorem spares_settle (cause : Abort) (e : Element) (label : String) (result : Except CallbackError α) :
    Spares cause (settle e label result : Walk κ τ ρ (Option α)) := by
  cases result with
  | ok a => exact spares_pure _
  | error error => exact .bind (.bind (spares_modify _) fun _ => spares_modify _) fun _ => spares_pure _

theorem spares_verdict (cause : Abort) (e : Element) (label : String) (reverse : Bool)
    (result : Except CallbackError Bool) :
    Spares cause (verdict e label reverse result : Walk κ τ ρ Bool) := by
  apply Spares.bind (spares_settle cause e label result)
  intro held
  cases held <;> exact spares_pure _

theorem spares_noValue_rollGates [Clock κ τ] [RandomSource ρ] (id : TransitionId) (t : Transition κ) :
    Spares .noValue (rollGates id t : Walk κ τ ρ Bool) := by
  have hdraw (lo hi : Float32) := spares_noValue_draw (κ := κ) (τ := τ) (ρ := ρ) id lo hi
  have hchance : Spares .noValue (rollGates.passesChance id t : Walk κ τ ρ Bool) :=
    .ite (spares_pure _) (.bind (hdraw _ _) fun _ => .bind (hdraw _ _) fun _ => spares_pure _)
  apply Spares.bind spares_readClock
  intro now
  apply Spares.bind spares_get
  intro s
  apply Spares.ite (spares_pure _)
  apply Spares.bind hchance
  intro passes
  apply Spares.ite (spares_pure _)
  apply Spares.ite
  · exact .bind (spares_modify _) fun _ => spares_pure _
  · apply Spares.bind (hdraw _ _)
    intro sample
    exact .bind (spares_modify _) fun _ => .bind (spares_modify _) fun _ => spares_pure _

theorem spares_noValue_passesGuard (id : TransitionId) (t : Transition κ) :
    Spares .noValue (passesGuard id t : Walk κ τ ρ Bool) := by
  unfold passesGuard
  cases t.guard with
  | none => exact spares_pure _
  | some guard =>
      apply Spares.bind (spares_noValue_invoke _ guard)
      intro result
      exact .bind (spares_modify _) fun _ => spares_verdict _ _ _ _ _

section Transitions

variable [Clock κ τ] [RandomSource ρ] {visit : NodeId → Walk κ τ ρ Unit}

theorem spares_noValue_tickTransition (g : Graph κ) (hvisit : ∀ id, Spares .noValue (visit id))
    (id : TransitionId) : Spares .noValue (tickTransition g visit id) := by
  have hfollow (t : Transition κ) : Spares .noValue (follow visit id t) := by
    apply Spares.bind (spares_noValue_rollGates id t)
    intro opens
    apply Spares.ite (spares_pure _)
    apply Spares.bind (spares_modify _)
    intro _
    apply Spares.bind (spares_noValue_passesGuard id t)
    intro passes
    apply Spares.ite (spares_pure _)
    exact .bind (spares_modify _) fun _ => .bind (hvisit _) fun _ => spares_pure _
  unfold tickTransition
  split
  next => exact spares_pure _
  next t _ =>
    apply Spares.bind (spares_modify _)
    intro _
    split
    next => exact .bind (spares_modify _) fun _ => hfollow t
    next => exact hfollow t

end Transitions

/-! ## Nodes -/

section Nodes

variable {g : Graph κ} {id : NodeId} {n : Node κ}

theorem spares_noValue_enter : Spares .noValue (enter g id n : Walk κ τ ρ Bool) := by
  have hhook := spares_noValue_runHook (τ := τ) (ρ := ρ) (.preTick id) n.preTick
  unfold enter
  split
  next =>
    exact .bind (spares_modify _) fun _ => .bind hhook fun _ => .bind (spares_modify _) fun _ =>
      spares_pure _
  next =>
    apply Spares.bind spares_get
    intro s
    apply Spares.ite (spares_pure _)
    apply Spares.bind (spares_modify _)
    intro _
    apply Spares.bind (spares_modify _)
    intro _
    apply Spares.bind hhook
    intro _
    split
    next => exact .bind (spares_modify _) fun _ => .bind (spares_modify _) fun _ => spares_pure _
    next => exact .bind (spares_modify _) fun _ => spares_pure _

theorem spares_noValue_leave : Spares .noValue (leave g id n : Walk κ τ ρ Unit) := by
  have hrest : Spares .noValue
      (do runHook (.postTick id) n.postTick; record (.left id) : Walk κ τ ρ Unit) :=
    .bind (spares_noValue_runHook _ _) fun _ => spares_modify _
  apply Spares.bind spares_get
  intro s
  split
  next => exact .bind (spares_modify _) fun _ => hrest
  next => exact hrest

theorem spares_noValue_scoreBranches (label : String) (branches : List (Branch κ))
    (hvalued : ∀ b ∈ branches, ∀ x, b.curve.evaluate x ≠ none) (index : Nat)
    (best : Option (Nat × Float32)) :
    Spares .noValue (scoreBranches id label index best branches : Walk κ τ ρ _) := by
  induction branches generalizing index best with
  | nil => exact spares_pure _
  | cons b branches ih =>
      have hrest := ih fun b hb => hvalued b (List.mem_cons_of_mem _ hb)
      apply Spares.bind (spares_noValue_invoke _ b.scorer)
      intro result
      cases result with
      | ok raw =>
          apply Spares.bind (spares_noValue_evaluate (hvalued b List.mem_cons_self) raw)
          intro score
          exact hrest _ _
      | error error => exact .bind (.bind (spares_modify _) fun _ => spares_modify _) fun _ => hrest _ _

theorem spares_noValue_choose (hn : n.Valued) : Spares .noValue (choose id n : Walk κ τ ρ _) := by
  unfold choose
  split
  next => exact spares_pure _
  next callback _ =>
    exact .bind (spares_noValue_invoke _ callback) fun _ => .bind (spares_settle _ _ _ _) fun _ =>
      spares_pure _
  next guard reverse _ =>
    exact .bind (spares_noValue_invoke _ guard) fun _ => .bind (spares_verdict _ _ _ _ _) fun _ =>
      spares_pure _
  next guard reverse _ =>
    exact .bind (spares_noValue_invoke _ guard) fun _ => .bind (spares_verdict _ _ _ _ _) fun _ =>
      spares_pure _
  next branches hbranches =>
    exact .bind (spares_noValue_scoreBranches _ branches (hn branches hbranches) _ _) fun _ =>
      spares_pure _

theorem spares_noValue_runNode (hn : n.Valued) {tick : TransitionId → Walk κ τ ρ Bool}
    (htick : ∀ t, Spares .noValue (tick t)) : Spares .noValue (runNode g id n tick) := by
  apply Spares.bind spares_noValue_enter
  intro goes
  apply Spares.ite _ (spares_pure _)
  apply Spares.bind (spares_noValue_choose hn)
  intro port
  apply Spares.bind (spares_modify _)
  intro _
  cases port with
  | none => exact spares_noValue_leave
  | some port => exact .bind (.fanOut htick _) fun _ => spares_noValue_leave

variable [Clock κ τ] [RandomSource ρ]

theorem spares_noValue_visit (hg : ∀ id n, g.node? id = some n → n.Valued) (budget : Nat) (id : NodeId) :
    Spares .noValue (visit g budget id : Walk κ τ ρ Unit) := by
  induction budget generalizing id with
  | zero => exact spares_modify _
  | succ budget ih =>
      apply Spares.bind (spares_modify _)
      intro _
      split
      next n hn =>
        exact .bind (spares_noValue_runNode (hg id n hn) (spares_noValue_tickTransition g ih)) fun _ =>
          spares_modify _
      next => exact spares_modify _

/-- A tick over curves that have values everywhere is not broken off for want of one. -/
theorem spares_noValue_tick (hg : ∀ id n, g.node? id = some n → n.Valued) :
    Spares .noValue (tick g : Walk κ τ ρ Unit) := by
  apply Spares.bind (spares_modify _)
  intro _
  apply Spares.bind spares_readClock
  intro now
  apply Spares.bind (spares_modify _)
  intro _
  apply Spares.bind spares_get
  intro s
  apply Spares.bind (spares_modify _)
  intro _
  apply Spares.bind (spares_modify _)
  intro _
  apply Spares.bind (spares_noValue_visit hg _ _)
  intro _
  apply Spares.bind (spares_modify _)
  intro _
  exact .bind spares_get fun _ => spares_modify _

end Nodes

end Walk

end BehaviourGraph
