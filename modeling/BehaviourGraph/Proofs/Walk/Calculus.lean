import BehaviourGraph.Run.Operation

/-!
# A calculus of walks

`Leads` says what a part of a walk ends in, whether it ends regularly or breaks off, and is computed
along the text of the walk.  `Keeps` is the special case of a property that holds before and
after.  A property is `Sheltered` if neither some of the events nor the clock and the random source can
change it, `Ambient` if the context of the host cannot either, `Detached` if statuses cannot, and `Inert`
if cooldowns and the depth cannot; the parts of a walk that do nothing else keep it.
-/

namespace BehaviourGraph

/-- Where the walk of a tick begins: the flags are swept and the due hand-offs are done. -/
def Session.walkStart {κ τ ρ : Type} [Clock κ τ] (g : Graph κ) (s : Session κ τ ρ) : Session κ τ ρ :=
  let (now, clock) := Clock.read s.context s.clock
  let s := Session.handOver g now { s.change State.sweep with clock }
  (s.report (.tickStarted s.state.control)).change fun a => { a with depth := 0 }

def Outcome.ofResult {α : Type} : Except CallbackError α → Outcome
  | .ok _ => .returned
  | .error error => .failed error

namespace Walk

variable {κ τ ρ α β : Type}

/-- What a part of a walk leads to: a value and a session if it ends, a session if it breaks off. -/
def Leads (w : Walk κ τ ρ α) (s : Session κ τ ρ) (ends : α → Session κ τ ρ → Prop)
    (breaks : Session κ τ ρ → Prop) : Prop :=
  match w s with
  | .ok a s => ends a s
  | .error _ s => breaks s

section Leads

variable {s : Session κ τ ρ} {ends ends' : α → Session κ τ ρ → Prop}
  {breaks breaks' : Session κ τ ρ → Prop}

theorem Leads.imp {w : Walk κ τ ρ α} (h : w.Leads s ends breaks)
    (he : ∀ a s, ends a s → ends' a s) (hb : ∀ s, breaks s → breaks' s) :
    w.Leads s ends' breaks' := by
  unfold Leads at h ⊢
  split
  next a s' hw =>
    rw [hw] at h
    exact he a s' h
  next cause s' hw =>
    rw [hw] at h
    exact hb s' h

theorem Leads.and {w : Walk κ τ ρ α} (h : w.Leads s ends breaks) (h' : w.Leads s ends' breaks') :
    w.Leads s (fun a s => ends a s ∧ ends' a s) fun s => breaks s ∧ breaks' s := by
  unfold Leads at h h' ⊢
  cases hw : w s with
  | ok a s' =>
      rw [hw] at h h'
      exact ⟨h, h'⟩
  | error cause s' =>
      rw [hw] at h h'
      exact ⟨h, h'⟩

theorem Leads.run {w : Walk κ τ ρ Unit} (h : w.Leads s (fun _ => breaks) breaks) :
    breaks (s.run w).2 := by
  unfold Leads at h
  unfold Session.run
  split <;> simp_all

/-- Requests that are done have ended regularly. -/
theorem Leads.ends_of_run {ends : Unit → Session κ τ ρ → Prop} {w : Walk κ τ ρ Unit}
    {s' : Session κ τ ρ} (h : w.Leads s ends breaks) (hrun : s.run w = (.done, s')) : ends () s' := by
  unfold Leads at h
  unfold Session.run at hrun
  split at hrun <;> simp_all

theorem Leads.ends_of_unbroken {ends : Unit → Session κ τ ρ → Prop} {w : Walk κ τ ρ Unit}
    {s' : Session κ τ ρ} {response : Response} (h : w.Leads s ends breaks)
    (hrun : s.run w = (response, s')) (hends : ∀ cause, response ≠ .aborted cause) : ends () s' := by
  unfold Leads at h
  unfold Session.run at hrun
  split at hrun
  next hw =>
    cases hrun
    rwa [hw] at h
  next hw =>
    cases hrun
    exact (hends _ rfl).elim

@[simp] theorem leads_pure (a : α) : (pure a : Walk κ τ ρ α).Leads s ends breaks ↔ ends a s :=
  Iff.rfl

@[simp] theorem leads_bind (w : Walk κ τ ρ β) (f : β → Walk κ τ ρ α) :
    (w >>= f).Leads s ends breaks ↔
      w.Leads s (fun b s => (f b).Leads s ends breaks) breaks := by
  simp only [Leads, bind, EStateM.bind]
  cases w s <;> rfl

@[simp] theorem leads_get {ends : Session κ τ ρ → Session κ τ ρ → Prop} :
    (get : Walk κ τ ρ (Session κ τ ρ)).Leads s ends breaks ↔ ends s s :=
  Iff.rfl

@[simp] theorem leads_modify {ends : Unit → Session κ τ ρ → Prop}
    (f : Session κ τ ρ → Session κ τ ρ) :
    (modify f : Walk κ τ ρ Unit).Leads s ends breaks ↔ ends () (f s) :=
  Iff.rfl

@[simp] theorem leads_change {ends : Unit → Session κ τ ρ → Prop} (f : State → State) :
    (change f : Walk κ τ ρ Unit).Leads s ends breaks ↔ ends () (s.change f) :=
  Iff.rfl

@[simp] theorem leads_record {ends : Unit → Session κ τ ρ → Prop} (e : Event κ) :
    (record e : Walk κ τ ρ Unit).Leads s ends breaks ↔ ends () (s.record e) :=
  Iff.rfl

@[simp] theorem leads_report {ends : Unit → Session κ τ ρ → Prop} (r : Report) :
    (report r : Walk κ τ ρ Unit).Leads s ends breaks ↔ ends () (s.report r) :=
  Iff.rfl

@[simp] theorem leads_readClock [Clock κ τ] {ends : Float → Session κ τ ρ → Prop} :
    (readClock : Walk κ τ ρ Float).Leads s ends breaks ↔
      ends (Clock.read s.context s.clock).1
        { s with clock := (Clock.read s.context s.clock).2 } :=
  Iff.rfl

theorem leads_runHook {ends : Unit → Session κ τ ρ → Prop} (call : Call) (hook : Option (Hook κ))
    (hnone : ends () s)
    (he : ∀ context outcome,
      ends () ({ s with context }.record (.called call s.context context outcome)))
    (hb : ∀ context outcome,
      breaks ({ s with context }.record (.called call s.context context outcome))) :
    (runHook call hook : Walk κ τ ρ Unit).Leads s ends breaks := by
  cases hook with
  | none => exact hnone
  | some hook =>
      unfold Leads runHook
      dsimp only
      cases hook s.context with
      | ok _ context => exact he context _
      | error message context => exact hb context _

/-- A callback that breaks off breaks off the walk; otherwise what it returns is recorded. -/
theorem leads_invoke_answer [OfValue α] {ends : Except CallbackError α → Session κ τ ρ → Prop}
    (call : Call) (callback : Callback κ α)
    (he : ∀ result context, callback.invoke s.context = .ok result context →
      ends result ({ s with context }.record (.called call s.context context (.ofResult result))))
    (hb : ∀ message context, callback.invoke s.context = .error message context →
      breaks ({ s with context }.record (.called call s.context context (.raised message)))) :
    (invoke call callback : Walk κ τ ρ (Except CallbackError α)).Leads s ends breaks := by
  unfold Leads invoke
  cases hinvoke : callback.invoke s.context with
  | ok result context =>
      cases result with
      | ok a => exact he _ context hinvoke
      | error error => exact he _ context hinvoke
  | error message context => exact hb message context hinvoke

theorem leads_invoke [OfValue α] {ends : Except CallbackError α → Session κ τ ρ → Prop} (call : Call)
    (callback : Callback κ α)
    (he : ∀ result context outcome,
      ends result ({ s with context }.record (.called call s.context context outcome)))
    (hb : ∀ context outcome,
      breaks ({ s with context }.record (.called call s.context context outcome))) :
    (invoke call callback : Walk κ τ ρ (Except CallbackError α)).Leads s ends breaks :=
  leads_invoke_answer call callback (fun result context _ => he result context _)
    fun _ context _ => hb context _

/-- A property of the transitions still to be ticked leads to another when none is left or one asks
to stop. -/
theorem leads_fanOut_until {tick : TransitionId → Walk κ τ ρ Bool}
    {I : List TransitionId → Session κ τ ρ → Prop} {Q : Session κ τ ρ → Prop} (ts : List TransitionId)
    (htick : ∀ t us s, t ∈ ts → I (t :: us) s →
      (tick t).Leads s (fun goes s => if goes then I us s else Q s) breaks)
    (hend : ∀ s, I [] s → Q s) (hs : I ts s) : (fanOut tick ts).Leads s (fun _ => Q) breaks := by
  induction ts generalizing s with
  | nil => exact hend s hs
  | cons t ts ih =>
      unfold fanOut
      rw [leads_bind]
      refine (htick t ts s List.mem_cons_self hs).imp (fun goes s hs => ?_) fun _ hb => hb
      cases goes with
      | true => exact ih (fun u us s hu hs => htick u us s (List.mem_cons_of_mem t hu) hs) hs
      | false => exact hs

end Leads

/-! ## Kept properties -/

def Keeps (P : Session κ τ ρ → Prop) (w : Walk κ τ ρ α) : Prop :=
  ∀ s, P s → w.Leads s (fun _ => P) P

section Keeps

variable {P : Session κ τ ρ → Prop} {s : Session κ τ ρ}

theorem Keeps.leads {w : Walk κ τ ρ α} (h : Keeps P w) {ends : α → Session κ τ ρ → Prop}
    {breaks : Session κ τ ρ → Prop} (hs : P s) (he : ∀ a s, P s → ends a s)
    (hb : ∀ s, P s → breaks s) : w.Leads s ends breaks :=
  (h s hs).imp he hb

theorem Keeps.pure (a : α) : Keeps P (pure a : Walk κ τ ρ α) := fun _ hs => hs

theorem Keeps.bind {w : Walk κ τ ρ β} {f : β → Walk κ τ ρ α} (hw : Keeps P w)
    (hf : ∀ b, Keeps P (f b)) : Keeps P (w >>= f) := by
  intro s hs
  rw [leads_bind]
  exact hw.leads hs (fun b s hs => hf b s hs) (fun _ hs => hs)

theorem Keeps.ite {c : Prop} [Decidable c] {w w' : Walk κ τ ρ α} (hw : Keeps P w)
    (hw' : Keeps P w') : Keeps P (if c then w else w') := by
  split
  · exact hw
  · exact hw'

theorem keeps_modify {f : Session κ τ ρ → Session κ τ ρ} (h : ∀ s, P s → P (f s)) :
    Keeps P (modify f : Walk κ τ ρ Unit) := fun s hs => h s hs

theorem keeps_change {f : State → State} (h : ∀ s, P s → P (s.change f)) :
    Keeps P (change f : Walk κ τ ρ Unit) := fun s hs => h s hs

theorem keeps_record {e : Event κ} (h : ∀ s, P s → P (s.record e)) :
    Keeps P (record e : Walk κ τ ρ Unit) := fun s hs => h s hs

theorem keeps_evaluate (c : Curve) (score : Float32) :
    Keeps P (evaluate c score : Walk κ τ ρ Float32) := by
  intro s hs
  unfold Leads evaluate
  cases c.evaluate score <;> exact hs

theorem Keeps.run {w : Walk κ τ ρ Unit} (hw : Keeps P w) (hs : P s) : P (s.run w).2 :=
  (hw s hs).run

end Keeps

/-! ## Inert properties -/

/-- A property of sessions that does not look at the clock and the random source nor at some of the
events. -/
structure Sheltered (P : Session κ τ ρ → Prop) (noise : Event κ → Prop) : Prop where
  passage : ∀ s clock random, P s → P { s with clock, random }
  record : ∀ s e, noise e → P s → P (s.record e)

/-- A sheltered property that does not look at the context of the host either. -/
structure Ambient (P : Session κ τ ρ → Prop) (noise : Event κ → Prop) : Prop
    extends Sheltered P noise where
  surroundings : ∀ s context clock random, P s → P { s with context, clock, random }
  passage := fun s clock random => surroundings s s.context clock random

/-- An ambient property that does not look at statuses either. -/
structure Detached (P : Session κ τ ρ → Prop) (noise : Event κ → Prop) : Prop
    extends Ambient P noise where
  setStatus : ∀ s e status, P s → P (s.change (State.setStatus e status))

/-- A detached property that does not look at cooldowns and the number of node ticks in progress
either. -/
structure Inert (P : Session κ τ ρ → Prop) (noise : Event κ → Prop) : Prop
    extends Detached P noise where
  setFiring : ∀ s t firing, P s → P (s.change (State.setFiring t firing))
  setDepth : ∀ s (depth : State → Nat), P s → P (s.change fun a => { a with depth := depth a })

namespace Sheltered

variable {P : Session κ τ ρ → Prop} {noise : Event κ → Prop} (h : Sheltered P noise)
include h

theorem readClock [Clock κ τ] : Keeps P (readClock : Walk κ τ ρ Float) := by
  intro s hs
  rw [leads_readClock]
  exact h.passage s _ s.random hs

theorem draw [RandomSource ρ] {t : TransitionId} {lo hi : Float32}
    (hn : ∀ value, noise (.drew t lo hi value)) : Keeps P (draw t lo hi : Walk κ τ ρ Float32) := by
  intro s hs
  unfold Leads Walk.draw
  cases RandomSource.range lo hi s.random with
  | none => exact hs
  | some drawn => exact h.record _ _ (hn drawn.1) (h.passage s s.clock drawn.2 hs)

theorem passesChance [RandomSource ρ] {id : TransitionId}
    (hn : ∀ lo hi value, noise (.drew id lo hi value)) (t : Transition κ) :
    Keeps P (rollGates.passesChance id t : Walk κ τ ρ Bool) :=
  .ite (.pure _) (.bind (h.draw (hn _ _)) fun _ => .bind (h.draw (hn _ _)) fun _ => .pure _)

/-- A transition whose gates open records that last. -/
theorem leads_rollGates [Clock κ τ] [RandomSource ρ] {id : TransitionId}
    (hn : ∀ lo hi value, noise (.drew id lo hi value))
    (hfiring : ∀ s firing, P s → P (s.change (State.setFiring id firing))) (t : Transition κ)
    {s : Session κ τ ρ} (hs : P s) :
    (rollGates id t).Leads s
      (fun opens s => if opens then ∃ s' now cooldown, P s' ∧ s = s'.record (.fired id now cooldown)
        else P s) P := by
  unfold Walk.rollGates
  rw [leads_bind]
  refine h.readClock.leads hs (fun now s hs => ?_) fun _ hs => hs
  rw [leads_bind, leads_get]
  split
  · exact hs
  rw [leads_bind]
  refine (h.passesChance hn t).leads hs (fun passes s hs => ?_) fun _ hs => hs
  split
  · exact hs
  split
  · exact ⟨s, now, none, hs, rfl⟩
  · rw [leads_bind]
    refine (h.draw (hn _ _)).leads hs (fun sample s hs => ?_) fun _ hs => hs
    exact ⟨_, now, some sample, hfiring s _ hs, rfl⟩

theorem keeps_rollGates [Clock κ τ] [RandomSource ρ] {id : TransitionId}
    (hdrew : ∀ lo hi value, noise (.drew id lo hi value))
    (hfired : ∀ now cooldown, noise (.fired id now cooldown))
    (hfiring : ∀ s firing, P s → P (s.change (State.setFiring id firing))) (t : Transition κ) :
    Keeps P (rollGates id t : Walk κ τ ρ Bool) := by
  intro s hs
  refine (h.leads_rollGates hdrew hfiring t hs).imp (fun opens s hs => ?_) fun _ hs => hs
  cases opens with
  | false => exact hs
  | true =>
      obtain ⟨s, now, cooldown, hs, rfl⟩ := hs
      exact h.record s _ (hfired now cooldown) hs

end Sheltered

namespace Ambient

variable {P : Session κ τ ρ → Prop} {noise : Event κ → Prop} (h : Ambient P noise)
include h

theorem runHook {call : Call} (hn : ∀ before after outcome, noise (.called call before after outcome))
    (hook : Option (Hook κ)) : Keeps P (runHook call hook : Walk κ τ ρ Unit) := by
  intro s hs
  have hcalled (context : κ) (outcome : Outcome) :
      P ({ s with context }.record (.called call s.context context outcome)) :=
    h.record _ _ (hn _ _ _) (h.surroundings s context s.clock s.random hs)
  exact leads_runHook call hook hs hcalled hcalled

theorem invoke [OfValue α] {call : Call}
    (hn : ∀ before after outcome, noise (.called call before after outcome))
    (callback : Callback κ α) :
    Keeps P (invoke call callback : Walk κ τ ρ (Except CallbackError α)) := by
  intro s hs
  have hcalled (context : κ) (outcome : Outcome) :
      P ({ s with context }.record (.called call s.context context outcome)) :=
    h.record _ _ (hn _ _ _) (h.surroundings s context s.clock s.random hs)
  exact leads_invoke call callback (fun _ => hcalled) hcalled

end Ambient

namespace Detached

variable {P : Session κ τ ρ → Prop} {noise : Event κ → Prop} (h : Detached P noise)
include h

theorem fail (hf : ∀ e label error, noise (.reported (.failed e label error))) (e : Element)
    (label : String) (error : CallbackError) : Keeps P (fail e label error : Walk κ τ ρ Unit) :=
  .bind (keeps_change fun s hs => h.setStatus s e _ hs)
    fun _ => keeps_record fun s hs => h.record s _ (hf _ _ _) hs

theorem settle (hf : ∀ e label error, noise (.reported (.failed e label error))) (e : Element)
    (label : String) (result : Except CallbackError α) :
    Keeps P (settle e label result : Walk κ τ ρ (Option α)) := by
  cases result with
  | ok a => exact .pure _
  | error error => exact .bind (h.fail hf e label error) fun _ => .pure _

theorem verdict (hf : ∀ e label error, noise (.reported (.failed e label error))) (e : Element)
    (label : String) (reverse : Bool) (result : Except CallbackError Bool) :
    Keeps P (verdict e label reverse result : Walk κ τ ρ Bool) := by
  refine .bind (h.settle hf e label result) fun held => ?_
  cases held <;> exact .pure _

theorem passesGuard (hf : ∀ e label error, noise (.reported (.failed e label error))) {id : TransitionId}
    (hn : ∀ before after outcome, noise (.called (.guard id) before after outcome))
    (t : Transition κ) : Keeps P (passesGuard id t : Walk κ τ ρ Bool) := by
  unfold Walk.passesGuard
  cases t.guard with
  | none => exact .pure _
  | some guard =>
      refine .bind (h.invoke hn guard) fun result => ?_
      exact .bind (keeps_change fun s hs => h.setStatus s _ _ hs) fun _ => h.verdict hf _ _ _ _

end Detached

namespace Inert

variable {P : Session κ τ ρ → Prop} {noise : Event κ → Prop} (h : Inert P noise)
include h

omit h in
protected theorem const (p : Prop) : Inert (κ := κ) (τ := τ) (ρ := ρ) (fun _ => p) noise where
  surroundings _ _ _ _ hp := hp
  record _ _ _ hp := hp
  setStatus _ _ _ hp := hp
  setFiring _ _ _ hp := hp
  setDepth _ _ hp := hp

protected theorem and {Q : Session κ τ ρ → Prop} (h' : Inert Q noise) :
    Inert (fun s => P s ∧ Q s) noise where
  surroundings s _ _ _ hs := ⟨h.surroundings s _ _ _ hs.1, h'.surroundings s _ _ _ hs.2⟩
  record s e he hs := ⟨h.record s e he hs.1, h'.record s e he hs.2⟩
  setStatus s e _ hs := ⟨h.setStatus s e _ hs.1, h'.setStatus s e _ hs.2⟩
  setFiring s t _ hs := ⟨h.setFiring s t _ hs.1, h'.setFiring s t _ hs.2⟩
  setDepth s depth hs := ⟨h.setDepth s depth hs.1, h'.setDepth s depth hs.2⟩

theorem weaken {noise' : Event κ → Prop} (hle : ∀ e, noise' e → noise e) : Inert P noise' where
  surroundings := h.surroundings
  record s e he hs := h.record s e (hle e he) hs
  setStatus := h.setStatus
  setFiring := h.setFiring
  setDepth := h.setDepth

/-- What holds once an element is marked is inert before that, too. -/
theorem marked (e : Element) : Inert (fun s => P (s.change (State.mark e))) noise where
  surroundings _ context clock random hs := h.surroundings _ context clock random hs
  record _ event he hs := h.record _ event he hs
  setStatus _ f status hs := h.setStatus _ f status hs
  setFiring _ t firing hs := h.setFiring _ t firing hs
  setDepth s depth hs := h.setDepth _ (fun _ => depth s.state) hs

end Inert

/-! ## Stages of a node tick -/

section Stages

variable {P Q R M : Session κ τ ρ → Prop} {noise : Event κ → Prop} {s : Session κ τ ρ}
  {breaks : Session κ τ ρ → Prop} {g : Graph κ} {id : NodeId} {n : Node κ}

/-- A node is entered only if it may be visited now.  It goes on from where it is marked, which for
the entry is after its hook and for other nodes before it; there the status is set last.  A node that
was visited may be skipped. -/
theorem leads_enter_staged {T : Session κ τ ρ → Prop} (hR : Ambient R noise) (hM : Ambient M noise)
    (hhook : ∀ before after outcome, noise (.called (.preTick id) before after outcome))
    (hentered : ∀ s, P s →
      n.kind = .entry ∨ s.state.control = id ∨ s.state.has .visited (.node id) = false →
        R (s.record (.entered id)))
    (hmark : ∀ s, R s → M (s.change (State.mark (.node id))))
    (hclaim : n.capturesControl = true → ∀ s, M s → M (s.claim g id))
    (hentry : n.kind = .entry → ∀ s, M s → Q s)
    (hfresh : n.kind ≠ .entry → ∀ s, M s → Q (s.change (State.setStatus (.node id) .normal)))
    (hskip : ∀ s, P s → s.state.has .visited (.node id) = true → T s)
    (hbreaks : ∀ s, R s ∨ M s → breaks s) (hs : P s) :
    (enter g id n).Leads s (fun goes s => if goes then Q s else T s) breaks := by
  unfold enter
  split
  next hkind =>
    rw [leads_bind, leads_record, leads_bind]
    exact (hR.runHook hhook n.preTick).leads (hentered s hs (.inl hkind))
      (fun _ s hs => hentry hkind _ (hmark s hs)) fun s hs => hbreaks s (.inl hs)
  next hkind =>
    rw [leads_bind, leads_get]
    split
    next hvisited =>
      simp only [Bool.and_eq_true] at hvisited
      exact hskip s hs hvisited.2
    next hfree =>
      simp only [leads_bind, leads_record, leads_change]
      have hvisit : s.state.control = id ∨ s.state.has .visited (.node id) = false := by
        by_cases hcontrol : s.state.control = id
        · exact .inl hcontrol
        · exact .inr (by simpa [hcontrol] using hfree)
      have hmarked := hmark _ (hentered s hs (.inr hvisit))
      refine (hM.runHook hhook n.preTick).leads hmarked (fun _ s hs => ?_)
        fun s hs => hbreaks s (.inr hs)
      split
      next hcapture => exact hfresh hkind _ (hclaim hcapture s hs)
      next => exact hfresh hkind _ hs

/-- The same for a property that does not look at statuses. -/
theorem leads_enter_until {T : Session κ τ ρ → Prop} (hR : Detached R noise)
    (hQ : Detached Q noise)
    (hhook : ∀ before after outcome, noise (.called (.preTick id) before after outcome))
    (hentered : ∀ s, P s →
      n.kind = .entry ∨ s.state.control = id ∨ s.state.has .visited (.node id) = false →
        R (s.record (.entered id)))
    (hmark : ∀ s, R s → Q (s.change (State.mark (.node id))))
    (hclaim : n.capturesControl = true → ∀ s, Q s → Q (s.claim g id))
    (hskip : ∀ s, P s → s.state.has .visited (.node id) = true → T s)
    (hbreaks : ∀ s, R s ∨ Q s → breaks s) (hs : P s) :
    (enter g id n).Leads s (fun goes s => if goes then Q s else T s) breaks :=
  leads_enter_staged hR.toAmbient hQ.toAmbient hhook hentered hmark hclaim (fun _ _ hs => hs)
    (fun _ s hs => hQ.setStatus s _ _ hs) hskip hbreaks hs

theorem leads_enter (hR : Detached R noise) (hQ : Detached Q noise)
    (hhook : ∀ before after outcome, noise (.called (.preTick id) before after outcome))
    (hentered : ∀ s, P s →
      n.kind = .entry ∨ s.state.control = id ∨ s.state.has .visited (.node id) = false →
        R (s.record (.entered id)))
    (hmark : ∀ s, R s → Q (s.change (State.mark (.node id))))
    (hclaim : n.capturesControl = true → ∀ s, Q s → Q (s.claim g id))
    (hbreaks : ∀ s, R s ∨ Q s → breaks s) (hs : P s) :
    (enter g id n).Leads s (fun goes s => if goes then Q s else P s) breaks :=
  leads_enter_until hR hQ hhook hentered hmark hclaim (fun _ hs _ => hs) hbreaks hs

theorem leads_answer [OfValue β] {call : Call} {answer : Except CallbackError β → Walk κ τ ρ α}
    (callback : Callback κ β)
    (hcalled : ∀ context outcome,
      Q ({ s with context }.record (.called call s.context context outcome)))
    (hanswer : ∀ result, Keeps Q (answer result)) (hbreaks : ∀ s, Q s → breaks s) :
    (invoke call callback >>= answer).Leads s (fun _ => Q) breaks := by
  rw [leads_bind]
  refine leads_invoke call callback (fun result context outcome => ?_) fun context outcome =>
    hbreaks _ (hcalled context outcome)
  exact (hanswer result).leads (hcalled context outcome) (fun _ _ hs => hs) hbreaks

section Choice

variable {S : Nat → Session κ τ ρ → Prop} (hS : ∀ k, Detached (S k) noise)
  (hfailed : ∀ e label error, noise (.reported (.failed e label error)))
  (hscorer : ∀ k s before after outcome, S k s →
    S (k + 1) (s.record (.called (.scorer id k) before after outcome)))
  (hbreaks : ∀ k s, S k s → breaks s)
include hS hfailed hscorer hbreaks

/-- A property that counts the branches scored so far. -/
theorem leads_scoreBranches (label : String) (branches : List (Branch κ)) (index : Nat)
    (best : Option (Nat × Float32)) (hs : S index s) :
    (scoreBranches id label index best branches).Leads s (fun _ => S (index + branches.length))
      breaks := by
  induction branches generalizing index best s with
  | nil => exact hs
  | cons branch branches ih =>
      unfold scoreBranches
      rw [leads_bind]
      have hcalled (context : κ) (outcome : Outcome) :
          S (index + 1)
            ({ s with context }.record (.called (.scorer id index) s.context context outcome)) :=
        hscorer index _ _ _ _ ((hS index).surroundings s context s.clock s.random hs)
      have hcount : index + (branch :: branches).length = index + 1 + branches.length := by
        rw [List.length_cons]
        omega
      rw [hcount]
      refine leads_invoke _ _ (fun result context outcome => ?_) fun context outcome =>
        hbreaks _ _ (hcalled context outcome)
      have hs' := hcalled context outcome
      cases result with
      | ok raw =>
          dsimp only
          rw [leads_bind]
          exact (keeps_evaluate branch.curve raw).leads hs' (fun _ s hs => ih _ _ hs) (hbreaks _)
      | error error =>
          dsimp only
          rw [leads_bind]
          exact ((hS _).fail hfailed _ label error).leads hs' (fun _ s hs => ih _ _ hs) (hbreaks _)

/-- A node calls its callback, or scores all its branches in order, or calls nothing. -/
theorem leads_choose_each (hQ : Detached Q noise)
    (hbody : n.kind ≠ .entry → n.kind ≠ .utility → ∀ s before after outcome, S 0 s →
      Q (s.record (.called (.body id) before after outcome)))
    (hscored : n.kind = .entry ∨ n.kind = .utility → ∀ s, S n.behaviour.branchCount s → Q s)
    (hQbreaks : ∀ s, Q s → breaks s) (hs : S 0 s) : (choose id n).Leads s (fun _ => Q) breaks := by
  have hcalled (hentry : n.kind ≠ .entry) (hutility : n.kind ≠ .utility) (context : κ)
      (outcome : Outcome) :
      Q ({ s with context }.record (.called (.body id) s.context context outcome)) :=
    hbody hentry hutility _ _ _ _ ((hS 0).surroundings s context s.clock s.random hs)
  unfold Node.kind at hcalled hscored
  unfold choose
  cases hbehaviour : n.behaviour with
  | entry =>
      rw [hbehaviour] at hscored
      exact hscored (.inl rfl) s hs
  | action callback =>
      rw [hbehaviour] at hcalled
      exact leads_answer callback (hcalled nofun nofun)
        (fun result => .bind (hQ.settle hfailed _ _ result) fun _ => .pure _) hQbreaks
  | condition guard reverse =>
      rw [hbehaviour] at hcalled
      exact leads_answer guard (hcalled nofun nofun)
        (fun result => .bind (hQ.verdict hfailed _ _ reverse result) fun _ => .pure _) hQbreaks
  | loop guard reverse =>
      rw [hbehaviour] at hcalled
      exact leads_answer guard (hcalled nofun nofun)
        (fun result => .bind (hQ.verdict hfailed _ _ reverse result) fun _ => .pure _) hQbreaks
  | utility branches =>
      rw [hbehaviour] at hscored
      dsimp only
      rw [leads_bind]
      refine (leads_scoreBranches hS hfailed hscorer hbreaks n.label branches 0 none hs).imp
        (fun _ s hs => hscored (.inr rfl) s ?_) fun _ hb => hb
      rwa [Nat.zero_add] at hs

end Choice

/-- A node calls its callback once or scores its branches in order. -/
theorem leads_choose {S : Nat → Session κ τ ρ → Prop} (hS : ∀ k, Detached (S k) noise)
    (hfailed : ∀ e label error, noise (.reported (.failed e label error)))
    (hscorer : ∀ k s before after outcome, S k s →
      S (k + 1) (s.record (.called (.scorer id k) before after outcome)))
    (hend : ∀ k s, S k s → Q s) (hQ : Detached Q noise)
    (hbody : ∀ s before after outcome, S 0 s →
      Q (s.record (.called (.body id) before after outcome)))
    (hs : S 0 s) : (choose id n).Leads s (fun _ => Q) Q :=
  leads_choose_each hS hfailed hscorer hend hQ (fun _ _ => hbody) (fun _ => hend _) (fun _ hs => hs) hs

theorem leads_choose_out (hkind : n.kind = .entry ∨ n.kind = .action) :
    (choose id n).Leads s (fun port _ => port = some .out) fun _ => True := by
  unfold Node.kind at hkind
  unfold choose
  cases hbehaviour : n.behaviour with
  | entry => rfl
  | action callback =>
      rw [leads_bind]
      refine leads_invoke _ _ (fun result context outcome => ?_) fun _ _ => trivial
      cases result <;> exact rfl
  | condition guard reverse => simp [hbehaviour, Behaviour.kind] at hkind
  | loop guard reverse => simp [hbehaviour, Behaviour.kind] at hkind
  | utility branches => simp [hbehaviour, Behaviour.kind] at hkind

theorem Detached.choose (h : Detached P noise)
    (hfailed : ∀ e label error, noise (.reported (.failed e label error)))
    (hbody : ∀ before after outcome, noise (.called (.body id) before after outcome))
    (hscorer : ∀ k before after outcome, noise (.called (.scorer id k) before after outcome)) :
    Keeps P (choose id n : Walk κ τ ρ (Option Port)) := fun _ hs =>
  leads_choose (S := fun _ => P) (fun _ => h) hfailed
    (fun k _ _ _ _ hs => h.record _ _ (hscorer k _ _ _) hs) (fun _ _ hs => hs) h
    (fun _ _ _ _ hs => h.record _ _ (hbody _ _ _) hs) hs

theorem leads_leave (hP : Ambient P noise)
    (hhook : ∀ before after outcome, noise (.called (.postTick id) before after outcome))
    (hrelax : n.kind ≠ .entry → ∀ s, P s → s.state.control = id →
      P (s.change (State.relax g .visited (.node id))))
    (hleft : ∀ s, P s → Q (s.record (.left id))) (hbreaks : ∀ s, P s → breaks s) (hs : P s) :
    (leave g id n).Leads s (fun _ => Q) breaks := by
  have hrest (s : Session κ τ ρ) (hs : P s) :
      (do runHook (.postTick id) n.postTick; record (.left id) : Walk κ τ ρ Unit).Leads s
        (fun _ => Q) breaks := by
    rw [leads_bind]
    exact (hP.runHook hhook n.postTick).leads hs (fun _ => hleft) hbreaks
  unfold leave
  rw [leads_bind, leads_get]
  split
  next hfree =>
    simp only [Bool.and_eq_true, decide_eq_true_eq] at hfree
    rw [leads_bind, leads_change]
    exact hrest _ (hrelax hfree.1 s hs hfree.2)
  next => exact hrest s hs

/-- A node that is entered chooses, acts on its choice, ticks the transitions of the port until one
asks to stop and is left. -/
theorem leads_runNode_until [Platform] {F : Option Port → List TransitionId → Session κ τ ρ → Prop}
    {E : Option Port → Session κ τ ρ → Prop} {tick : TransitionId → Walk κ τ ρ Bool}
    (henter : (enter g id n).Leads s (fun goes s => if goes then P s else Q s) breaks)
    (hchoose : ∀ s, P s → (choose id n).Leads s
      (fun port s => F port (port.elim [] (g.exits id)) (s.commit g id n port)) breaks)
    (htick : ∀ port t ts s, t ∈ g.exits id port → F (some port) (t :: ts) s →
      (tick t).Leads s (fun goes s => if goes then F (some port) ts s else E (some port) s) breaks)
    (hdone : ∀ port s, F port [] s → E port s)
    (hleave : ∀ port s, E port s → (leave g id n).Leads s (fun _ => Q) breaks) :
    (runNode g id n tick).Leads s (fun _ => Q) breaks := by
  unfold runNode
  rw [leads_bind]
  refine henter.imp (fun goes s hs => ?_) fun _ hb => hb
  cases goes with
  | false => exact hs
  | true =>
      simp only [if_true, leads_bind, leads_modify] at hs ⊢
      refine (hchoose s hs).imp (fun port s hs => ?_) fun _ hb => hb
      cases port with
      | none => exact hleave none _ (hdone none _ hs)
      | some port =>
          rw [leads_bind]
          exact (leads_fanOut_until (g.exits id port) (htick port) (hdone (some port)) hs).imp
            (fun _ s hs => hleave (some port) s hs) fun _ hb => hb

/-- The same for a property that holds whether or not a transition asks to stop. -/
theorem leads_runNode [Platform] {F : Option Port → List TransitionId → Session κ τ ρ → Prop}
    {tick : TransitionId → Walk κ τ ρ Bool}
    (henter : (enter g id n).Leads s (fun goes s => if goes then P s else Q s) breaks)
    (hchoose : ∀ s, P s → (choose id n).Leads s
      (fun port s => F port (port.elim [] (g.exits id)) (s.commit g id n port)) breaks)
    (htick : ∀ port t ts s, t ∈ g.exits id port → F (some port) (t :: ts) s →
      (tick t).Leads s (fun _ => F (some port) ts) breaks)
    (hleave : ∀ port ts s, F port ts s → (leave g id n).Leads s (fun _ => Q) breaks) :
    (runNode g id n tick).Leads s (fun _ => Q) breaks := by
  refine leads_runNode_until (E := fun port s => ∃ ts, F port ts s) henter hchoose
    (fun port t ts s ht hs => ?_) (fun port s hs => ⟨[], hs⟩) fun port s hs => ?_
  · refine (htick port t ts s ht hs).imp (fun goes s hs => ?_) fun _ hb => hb
    cases goes with
    | true => exact hs
    | false => exact ⟨ts, hs⟩
  · obtain ⟨ts, hs⟩ := hs
    exact hleave port ts s hs

variable [Clock κ τ] [RandomSource ρ] {visit : NodeId → Walk κ τ ρ Unit}

/-- A transition whose gates open is marked at once and asks its guard; one that opens ticks its end. -/
theorem leads_follow_staged {id : TransitionId} {t : Transition κ}
    (hgates : (rollGates id t).Leads s
      (fun opens s => if opens then Q (s.change (State.mark (.transition id))) else Q s) breaks)
    (hguard : ∀ s, Q s → (passesGuard id t).Leads s (fun _ => Q) breaks)
    (hvisit : ∀ s, Q s → (visit t.finish).Leads (s.record (.opened id)) (fun _ => Q) breaks) :
    (follow visit id t).Leads s (fun _ => Q) breaks := by
  unfold follow
  rw [leads_bind]
  refine hgates.imp (fun opens s hs => ?_) fun _ hb => hb
  cases opens with
  | false => exact hs
  | true =>
      simp only [Bool.not_true, Bool.false_eq_true, if_false, leads_bind, leads_change]
      refine (hguard _ hs).imp (fun passes s hs => ?_) fun _ hb => hb
      cases passes with
      | false => exact hs
      | true =>
          simp only [Bool.not_true, Bool.false_eq_true, if_false, leads_bind, leads_record]
          exact (hvisit s hs).imp (fun _ s hs => hs) fun _ hb => hb

/-- The same for a property that does not look at statuses. -/
theorem leads_follow_gated {id : TransitionId} {t : Transition κ} (hQ : Detached Q noise)
    (hfailed : ∀ e label error, noise (.reported (.failed e label error)))
    (hguard : ∀ before after outcome, noise (.called (.guard id) before after outcome))
    (hgates : (rollGates id t).Leads s
      (fun opens s => if opens then Q (s.change (State.mark (.transition id))) else Q s) breaks)
    (hvisit : ∀ s, Q s → (visit t.finish).Leads (s.record (.opened id)) (fun _ => Q) breaks)
    (hbreaks : ∀ s, Q s → breaks s) : (follow visit id t).Leads s (fun _ => Q) breaks :=
  leads_follow_staged hgates
    (fun _ hs => (hQ.passesGuard hfailed hguard t).leads hs (fun _ _ hs => hs) hbreaks) hvisit

theorem leads_follow_opened {id : TransitionId} {t : Transition κ} (hP : Detached P noise)
    (hfiring : ∀ s firing, P s → P (s.change (State.setFiring id firing)))
    (hfailed : ∀ e label error, noise (.reported (.failed e label error)))
    (hdraw : ∀ lo hi value, noise (.drew id lo hi value))
    (hguard : ∀ before after outcome, noise (.called (.guard id) before after outcome))
    (hfire : ∀ s now cooldown, P s →
      P ((s.record (.fired id now cooldown)).change (State.mark (.transition id))))
    (hvisit : ∀ s, P s → (visit t.finish).Leads (s.record (.opened id)) (fun _ => P) breaks)
    (hbreaks : ∀ s, P s → breaks s) (hs : P s) :
    (follow visit id t).Leads s (fun _ => P) breaks := by
  refine leads_follow_gated hP hfailed hguard ?_ hvisit hbreaks
  refine (hP.leads_rollGates hdraw hfiring t hs).imp (fun opens s hs => ?_) hbreaks
  cases opens with
  | false => exact hs
  | true =>
      obtain ⟨s', now, cooldown, hs', rfl⟩ := hs
      exact hfire s' now cooldown hs'

theorem leads_follow {id : TransitionId} {t : Transition κ} (hP : Inert P noise)
    (hfailed : ∀ e label error, noise (.reported (.failed e label error)))
    (hdraw : ∀ lo hi value, noise (.drew id lo hi value))
    (hguard : ∀ before after outcome, noise (.called (.guard id) before after outcome))
    (hopened : noise (.opened id))
    (hfire : ∀ s now cooldown, P s →
      P ((s.record (.fired id now cooldown)).change (State.mark (.transition id))))
    (hvisit : ∀ s, P s → (visit t.finish).Leads s (fun _ => P) breaks)
    (hbreaks : ∀ s, P s → breaks s) (hs : P s) :
    (follow visit id t).Leads s (fun _ => P) breaks :=
  leads_follow_opened hP.toDetached (fun s firing => hP.setFiring s id firing) hfailed hdraw hguard
    hfire (fun s hs => hvisit _ (hP.record s _ hopened hs)) hbreaks hs

/-- The gates of a transition with neither a probability nor a cooldown open whatever the clock reads, and
the random source is not asked. -/
theorem rollGates_of_ungated {t : Transition κ} (hchance : t.probability.isAlways = true)
    (hcooldown : t.cooldown.isZero = true) (id : TransitionId) (s : Session κ τ ρ) :
    (rollGates id t : Walk κ τ ρ Bool) s =
      .ok true ({ s with clock := (Clock.read s.context s.clock).2 }.record
        (.fired id (Clock.read s.context s.clock).1 none)) := by
  have hready (firing : Firing) (now : Float) : t.cooldownReady firing now = true := by
    simp only [TransitionSpec.cooldownReady, hcooldown, Bool.true_or]
  unfold rollGates rollGates.passesChance
  simp only [hready, hchance, hcooldown, Bool.not_true, Bool.false_eq_true, if_true, if_false]
  rfl

theorem leads_follow_ungated {id : TransitionId} {t : Transition κ} (hP : Inert P noise)
    (hchance : t.probability.isAlways = true) (hcooldown : t.cooldown.isZero = true)
    (hguard : t.guard = none)
    (hfire : ∀ s now cooldown, P s →
      P ((s.record (.fired id now cooldown)).change (State.mark (.transition id))))
    (hvisit : ∀ s, P s → (visit t.finish).Leads (s.record (.opened id)) (fun _ => Q) breaks)
    (hs : P s) :
    (follow visit id t).Leads s (fun goes s => goes = !t.terminatesGroup ∧ Q s) breaks := by
  have hgates : (rollGates id t).Leads s
      (fun opens s => opens = true ∧ P (s.change (State.mark (.transition id)))) breaks := by
    unfold Leads
    rw [rollGates_of_ungated hchance hcooldown]
    exact ⟨rfl, hfire _ _ none (hP.surroundings s s.context _ s.random hs)⟩
  unfold follow
  rw [leads_bind]
  refine hgates.imp (fun opens s hs => ?_) fun _ hb => hb
  obtain ⟨rfl, hs⟩ := hs
  simp only [passesGuard, hguard, leads_bind, leads_change, leads_record, leads_pure, Bool.not_true,
    Bool.false_eq_true, if_false]
  exact (hvisit _ hs).imp (fun _ s hs => ⟨trivial, hs⟩) fun _ hb => hb

theorem leads_tickTransition_until {ends : Bool → Session κ τ ρ → Prop} {id : TransitionId}
    (hnone : g.transition? id = none → ∀ s, P s → ends true s)
    (hticked : ∀ s, P s → Q (s.record (.ticked id)))
    (hcapture : ∀ t s, g.transition? id = some t → t.capturesControl = true → Q s →
      Q (s.switchTo g t.start))
    (hfollow : ∀ t s, g.transition? id = some t → Q s → (follow visit id t).Leads s ends breaks)
    (hs : P s) : (tickTransition g visit id).Leads s ends breaks := by
  unfold tickTransition
  split
  next ht => exact hnone ht s hs
  next t ht =>
    simp only [leads_bind, leads_record]
    have hsticked := hticked s hs
    split
    next hcaptures => exact hfollow t _ ht (hcapture t _ ht hcaptures hsticked)
    next => exact hfollow t _ ht hsticked

theorem leads_tickTransition {id : TransitionId} (hnone : ∀ s, P s → Q s)
    (hticked : ∀ s, P s → Q (s.record (.ticked id)))
    (hcapture : ∀ t s, g.transition? id = some t → t.capturesControl = true → Q s →
      Q (s.switchTo g t.start))
    (hfollow : ∀ t s, g.transition? id = some t → Q s →
      (follow visit id t).Leads s (fun _ => Q) breaks) (hs : P s) :
    (tickTransition g visit id).Leads s (fun _ => Q) breaks :=
  leads_tickTransition_until (fun _ => hnone) hticked hcapture hfollow hs

/-- The induction over nested node ticks.  What holds where a node tick begins may speak of the node,
of how many ticks can still be nested and of how many are in progress. -/
theorem leads_visit_counted [Platform] {ι : Type} {I D : Nat → ι → NodeId → Session κ τ ρ → Prop}
    {U O : ι → Session κ τ ρ → Prop}
    (hdown : ∀ budget i id s, I (budget + 1) i id s →
      D budget i id (s.change fun a => { a with depth := a.depth + 1 }))
    (hup : ∀ i s, U i s → O i (s.change fun a => { a with depth := a.depth - 1 }))
    (hzero : ∀ i id s, I 0 i id s → O i (s.report (.depthExceeded id g.config.maxTickDepth)))
    (hnone : ∀ budget i id s, g.node? id = none → D budget i id s → U i s)
    (hnode : ∀ (budget : Nat) (visit : NodeId → Walk κ τ ρ Unit),
      (∀ i id s, I budget i id s → (visit id).Leads s (fun _ => O i) breaks) →
      ∀ i id n s, g.node? id = some n → D budget i id s →
        (runNode g id n (tickTransition g visit)).Leads s (fun _ => U i) breaks)
    (budget : Nat) (i : ι) (id : NodeId) (hs : I budget i id s) :
    (Walk.visit g budget id).Leads s (fun _ => O i) breaks := by
  induction budget generalizing i id s with
  | zero => exact hzero i id s hs
  | succ budget ih =>
      have hdeeper := hdown budget i id s hs
      unfold Walk.visit
      rw [leads_bind, leads_change]
      split
      next n hn =>
        rw [leads_bind]
        exact (hnode budget _ (fun i id _ hs => ih i id hs) i id n _ hn hdeeper).imp
          (fun _ s hs => hup i s hs) fun _ hb => hb
      next hn => exact hup i _ (hnone budget i id _ hn hdeeper)

/-- The same for what does not look at the number of node ticks in progress. -/
theorem leads_visit_of [Platform] {ι : Type} {I : Nat → ι → NodeId → Session κ τ ρ → Prop}
    {O : ι → Session κ τ ρ → Prop}
    (hI : ∀ budget i id s (depth : State → Nat), I budget i id s →
      I budget i id (s.change fun a => { a with depth := depth a }))
    (hO : ∀ i s (depth : State → Nat), O i s → O i (s.change fun a => { a with depth := depth a }))
    (hzero : ∀ i id s limit, I 0 i id s → O i (s.report (.depthExceeded id limit)))
    (hnone : ∀ budget i id s, g.node? id = none → I (budget + 1) i id s → O i s)
    (hnode : ∀ (budget : Nat) (visit : NodeId → Walk κ τ ρ Unit),
      (∀ i id s, I budget i id s → (visit id).Leads s (fun _ => O i) breaks) →
      ∀ i id n s, g.node? id = some n → I (budget + 1) i id s →
        (runNode g id n (tickTransition g visit)).Leads s (fun _ => O i) breaks)
    (budget : Nat) (i : ι) (id : NodeId) (hs : I budget i id s) :
    (Walk.visit g budget id).Leads s (fun _ => O i) breaks :=
  leads_visit_counted (D := fun budget => I (budget + 1)) (U := O)
    (fun budget i id s hs => hI (budget + 1) i id s _ hs) (fun i s hs => hO i s _ hs)
    (fun i id s hs => hzero i id s _ hs) hnone hnode budget i id hs

/-- The induction for a family of properties that acting as a node keeps, if the node ticks below it
keep all of them. -/
theorem leads_visit [Platform] {ι : Type} {I : ι → Session κ τ ρ → Prop} (hI : ∀ i, Inert (I i) noise)
    (hreport : ∀ r, noise (.reported r))
    (hnode : ∀ visit : NodeId → Walk κ τ ρ Unit,
      (∀ i id s, I i s → (visit id).Leads s (fun _ => I i) breaks) →
      ∀ i id n s, g.node? id = some n → I i s →
        (runNode g id n (tickTransition g visit)).Leads s (fun _ => I i) breaks)
    (budget : Nat) (i : ι) (id : NodeId) (hs : I i s) :
    (Walk.visit g budget id).Leads s (fun _ => I i) breaks :=
  leads_visit_of (I := fun _ i _ => I i) (fun _ i _ => (hI i).setDepth) (fun i => (hI i).setDepth)
    (fun i _ s _ hs => (hI i).record s _ (hreport _) hs) (fun _ _ _ _ _ hs => hs) (fun _ => hnode) budget
    i id hs

/-- A tick is its walk from where that begins, the sweep after it and the report of its end. -/
theorem tick_eq [Platform] (g : Graph κ) (s : Session κ τ ρ) :
    tick g s =
      (do
        Walk.visit g g.config.maxTickDepth (s.walkStart g).state.control
        change State.sweep
        let s ← get
        report (.tickEnded s.state.control) : Walk κ τ ρ Unit) (s.walkStart g) :=
  rfl

/-- A tick is its walk, from where that begins to the sweep after it. -/
theorem leads_tick [Platform] {ends : Unit → Session κ τ ρ → Prop} :
    (tick g).Leads s ends breaks ↔
      (Walk.visit g g.config.maxTickDepth (s.walkStart g).state.control).Leads (s.walkStart g)
        (fun _ s => ends () ((s.change State.sweep).report (.tickEnded s.state.control))) breaks := by
  unfold tick
  simp only [leads_bind, leads_change, leads_readClock, leads_modify, leads_get, leads_report]
  rfl

end Stages

end Walk

end BehaviourGraph
