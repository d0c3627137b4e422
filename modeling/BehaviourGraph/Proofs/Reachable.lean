import BehaviourGraph.Proofs.Relaxation
import BehaviourGraph.Proofs.Walk.Calculus

/-!
# Reachable sessions

A session is reachable if a host can bring it about: it starts one, makes requests in any order, and
changes what surrounds the graph in between.  A property is `Unflagged` if flags and control do not
matter for it, `Loose` if statuses do not either, `Robust` if it looks at control but reported switches do
not end it, `Steady` if node ticks can only end it at the gates of transitions, `Lasting` if not even
there, and `Stable` if no elementary change at all can.  Walks and requests are made of elementary changes,
so a stable property of all fresh sessions holds of every reachable one, however often walks were broken
off on the way.
-/

namespace BehaviourGraph

variable {κ τ ρ : Type}

/-! ## Requests of the host -/

def Session.reading [Clock κ τ] (s : Session κ τ ρ) : Float := (Clock.read s.context s.clock).1

/-- The sessions that a host can bring about. -/
inductive Session.Reachable [Clock κ τ] [RandomSource ρ] (g : Graph κ) : Session κ τ ρ → Prop where
  | start (context : κ) (clock : τ) (random : ρ) : Reachable g (.start g context clock random)
  /-- The host changes its context, sets the clock or replaces the random source. -/
  | surroundings {s : Session κ τ ρ} (context : κ) (clock : τ) (random : ρ) (h : Reachable g s) :
      Reachable g { s with context, clock, random }
  | perform {s : Session κ τ ρ} (operation : Operation) (h : Reachable g s) :
      Reachable g (s.perform g operation).2

/-- The sessions that a host can bring about without a request that is broken off. -/
inductive Session.Unbroken [Clock κ τ] [RandomSource ρ] (g : Graph κ) : Session κ τ ρ → Prop where
  | start (context : κ) (clock : τ) (random : ρ) : Unbroken g (.start g context clock random)
  | surroundings {s : Session κ τ ρ} (context : κ) (clock : τ) (random : ρ) (h : Unbroken g s) :
      Unbroken g { s with context, clock, random }
  | perform {s s' : Session κ τ ρ} {operation : Operation} {response : Response} (h : Unbroken g s)
      (hperform : s.perform g operation = (response, s')) (hends : ∀ cause, response ≠ .aborted cause) :
      Unbroken g s'

theorem Session.Unbroken.reachable [Clock κ τ] [RandomSource ρ] {g : Graph κ} {s : Session κ τ ρ}
    (h : s.Unbroken g) : s.Reachable g := by
  induction h with
  | start context clock random => exact .start context clock random
  | surroundings context clock random _ ih => exact .surroundings context clock random ih
  | @perform _ _ operation _ _ hperform _ ih =>
      have hreach := ih.perform operation
      rwa [hperform] at hreach

inductive Move (κ τ ρ : Type) where
  | request (operation : Operation)
  /-- Change the context, set the clock or replace the random source. -/
  | surround (context : κ) (clock : τ) (random : ρ)

def Session.play [Clock κ τ] [RandomSource ρ] (g : Graph κ) :
    List (Move κ τ ρ) → Session κ τ ρ → List Response × Session κ τ ρ
  | [], s => ([], s)
  | .request operation :: moves, s =>
    let (response, s) := s.perform g operation
    let (responses, s) := play g moves s
    (response :: responses, s)
  | .surround context clock random :: moves, s => play g moves { s with context, clock, random }

def Response.isDone : Response → Bool
  | .done => true
  | _ => false

theorem Session.perform_eq_done [Clock κ τ] [RandomSource ρ] {g : Graph κ} {operation : Operation}
    {s : Session κ τ ρ} (h : (s.perform g operation).1.isDone = true) :
    s.perform g operation = (.done, (s.perform g operation).2) := by
  cases hanswer : s.perform g operation with
  | mk response s' =>
      rw [hanswer] at h
      cases response <;> first | rfl | cases h

/-- A request walks, switches control, changes the queue or relaxes an element, or it is refused. -/
theorem Session.perform_cases [Clock κ τ] [RandomSource ρ] {g : Graph κ} {s : Session κ τ ρ}
    {P : Response × Session κ τ ρ → Prop} (operation : Operation) (htick : P (s.run (Walk.tick g)))
    (hreset : P (s.run (Walk.reset g)))
    (hswitch : ∀ id, g.hasNode id = true → P (.done, s.switchTo g id))
    (hpush : ∀ id due, g.hasNode id = true →
      P (.done, s.change fun a => { a with queue := a.queue.push due id }))
    (hcancel : ∀ id, P (.cancelled (s.state.queue.pending id),
      s.change fun a => { a with queue := a.queue.cancel id }))
    (hrelax : ∀ flag e, g.hasElement e = true → P (.done, s.change (State.relax g flag e)))
    (hrefused : ∀ cause, P (.refused cause, s)) : P (s.perform g operation) := by
  cases operation with
  | tick => exact htick
  | reset => exact hreset
  | setActive id =>
      simp only [perform, provided]
      split
      next hid => exact hswitch id hid
      next => exact hrefused _
  | resumeAt id due =>
      simp only [perform, provided]
      split
      next hid =>
        split
        · exact hpush id due hid
        · exact hrefused _
      next => exact hrefused _
  | cancel id => exact hcancel id
  | relax flag e =>
      simp only [perform, provided]
      split
      next he => exact hrelax flag e he
      next => exact hrefused _

/-- What the requests of a host keep, unless they are broken off, all sessions have that it can bring
about so. -/
theorem Session.Unbroken.has_of [Clock κ τ] [RandomSource ρ] {g : Graph κ} {P : Session κ τ ρ → Prop}
    (hstart : ∀ context clock random, P (.start g context clock random))
    (hsurroundings : ∀ s context clock random, P s → P { s with context, clock, random })
    (htick : ∀ s, P s → (Walk.tick g).Leads s (fun _ => P) fun _ => True)
    (hreset : ∀ s, P s → (Walk.reset g).Leads s (fun _ => P) fun _ => True)
    (hswitch : ∀ s id, P s → P (s.switchTo g id))
    (hqueue : ∀ s (queue : State → ResumeQueue), P s → P (s.change fun a => { a with queue := queue a }))
    (hrelax : ∀ s flag e, P s → P (s.change (State.relax g flag e))) {s : Session κ τ ρ}
    (hs : s.Unbroken g) : P s := by
  induction hs with
  | start context clock random => exact hstart context clock random
  | surroundings context clock random _ ih => exact hsurroundings _ context clock random ih
  | @perform s s' operation response _ hperform hends ih =>
      have hkept : (∀ cause, (s.perform g operation).1 ≠ .aborted cause) →
          P (s.perform g operation).2 := by
        apply perform_cases (P := fun outcome => (∀ cause, outcome.1 ≠ .aborted cause) → P outcome.2)
          operation
        · exact (htick s ih).ends_of_unbroken rfl
        · exact (hreset s ih).ends_of_unbroken rfl
        · exact fun id _ _ => hswitch s id ih
        · exact fun id due _ _ => hqueue s (fun a => a.queue.push due id) ih
        · exact fun id _ => hqueue s (fun a => a.queue.cancel id) ih
        · exact fun flag e _ _ => hrelax s flag e ih
        · exact fun _ _ => ih
      rw [hperform] at hkept
      exact hkept hends

/-! ## Flags and switches -/

/-- Acting on a choice comes down to recording it, switching to the node or the entry, marking the
node and relaxing its transitions. -/
theorem Session.commit_induction_of {g : Graph κ} {P : Session κ τ ρ → Prop} {s : Session κ τ ρ}
    {id : NodeId} (n : Node κ) (chosen : Option Port)
    (hswitch : ∀ s node, node = id ∨ node = entryNode → P s → P (s.switchTo g node))
    (hmark : ∀ s, P s → P (s.change (State.mark (.node id))))
    (hrelax : ∀ s flag port t, t ∈ g.exits id port → P s →
      P (s.change (State.relax g flag (.transition t))))
    (hs : P (s.record (.chose id chosen))) : P (s.commit g id n chosen) := by
  have hothers (s : Session κ τ ρ) (hs : P s) : P (s.change (State.relaxOthers g id n chosen)) :=
    State.relaxOthers_induction (P := fun a => P { s with state := a }) n chosen
      (fun a flag port _ ht ha => hrelax { s with state := a } flag port _ ht ha) hs
  apply hothers
  split
  · exact hs
  · split
    · exact hmark _ (hswitch _ id (.inl rfl) hs)
    · exact hswitch _ entryNode (.inr rfl) hs

theorem Session.commit_induction {g : Graph κ} {P : Session κ τ ρ → Prop} {s : Session κ τ ρ}
    {id : NodeId} (n : Node κ) (chosen : Option Port) (hswitch : ∀ s id, P s → P (s.switchTo g id))
    (hmark : ∀ s, P s → P (s.change (State.mark (.node id))))
    (hrelax : ∀ s flag port t, t ∈ g.exits id port → P s →
      P (s.change (State.relax g flag (.transition t))))
    (hs : P (s.record (.chose id chosen))) : P (s.commit g id n chosen) :=
  commit_induction_of n chosen (fun s node _ => hswitch s node) hmark hrelax hs

theorem Session.commit_of_not_loop {g : Graph κ} {s : Session κ τ ρ} {id : NodeId} {n : Node κ}
    (hloop : n.kind ≠ .loop) (chosen : Option Port) :
    s.commit g id n chosen =
      (s.record (.chose id chosen)).change (State.relaxOthers g id n chosen) := by
  unfold commit
  simp only [if_pos hloop]

theorem Session.has_of_has_switchTo {g : Graph κ} {s : Session κ τ ρ} {id : NodeId} {flag : Flag}
    {e : Element} (h : (s.switchTo g id).state.has flag e = true) : s.state.has flag e = true := by
  unfold switchTo at h
  dsimp only at h
  split at h
  · exact h
  · have hrelaxed : ((s.state.relax g .visited (.node s.state.control)).relax g .active
        (.node s.state.control)).has flag e = true := by
      cases flag <;> exact h
    exact State.has_of_has_relax (State.has_of_has_relax hrelaxed)

theorem Session.has_of_has_walkStart [Clock κ τ] {g : Graph κ} {s : Session κ τ ρ} {flag : Flag}
    {e : Element} (h : (s.walkStart g).state.has flag e = true) : s.state.sweep.has flag e = true := by
  have hhanded (now : Float) (clock : τ) :
      (handOver g now { s.change State.sweep with clock }).state.has flag e = true →
        s.state.sweep.has flag e = true := by
    refine List.foldlRecOn
      (motive := fun s' : Session κ τ ρ => s'.state.has flag e = true → s.state.sweep.has flag e = true)
      _ _ ?_ fun _ hs id _ h => hs (has_of_has_switchTo h)
    cases flag <;> exact fun h => h
  cases flag <;> exact hhanded _ _ h

/-- Acting on a choice raises no flag of a transition. -/
theorem Session.has_active_of_has_commit {g : Graph κ} {s : Session κ τ ρ} {id : NodeId} {n : Node κ}
    {chosen : Option Port} {t : TransitionId}
    (h : (s.commit g id n chosen).state.has .active (.transition t) = true) :
    s.state.has .active (.transition t) = true :=
  commit_induction
    (P := fun s' => s'.state.has .active (.transition t) = true →
      s.state.has .active (.transition t) = true) n chosen (fun _ _ hs h => hs (has_of_has_switchTo h))
    (fun _ hs h => hs ((State.has_of_has_mark h).resolve_left nofun))
    (fun _ _ _ _ _ hs h => hs (State.has_of_has_relax h)) (fun h => h) h

/-! ## Unflagged, loose, robust, steady, lasting and stable properties -/

def Event.ofTransition : Event κ → Bool
  | .ticked _ | .drew _ _ _ _ | .fired _ _ _ | .opened _ => true
  | _ => false

def Event.ofControl : Event κ → Bool
  | .reported (.tickStarted _) | .reported (.tickEnded _) => true
  | .reported (.activeChanged _ _) | .reported (.reset _) => true
  | _ => false

/-- An ambient property of sessions that does not look at flags and control either. -/
structure Unflagged (g : Graph κ) (P : Session κ τ ρ → Prop) (noise : Event κ → Prop) : Prop
    extends Walk.Ambient P noise where
  changed : ∀ previous id, noise (.reported (.activeChanged previous id))
  mark : ∀ s e, P s → P (s.change (State.mark e))
  relax : ∀ s flag e, P s → P (s.change (State.relax g flag e))
  setControl : ∀ s id, P s → P (s.change fun a => { a with control := id })

/-- An unflagged property of sessions that does not look at statuses either. -/
structure Loose (g : Graph κ) (P : Session κ τ ρ → Prop) (noise : Event κ → Prop) : Prop
    extends Unflagged g P noise, Walk.Detached P noise

/-- A detached property of sessions that neither raising and relaxing flags nor switching control ends. -/
structure Robust (g : Graph κ) (P : Session κ τ ρ → Prop) (noise : Event κ → Prop) : Prop
    extends Walk.Detached P noise where
  quiet : ∀ e, e.ofTransition = false → e.ofControl = false → noise e
  mark : ∀ s e, P s → P (s.change (State.mark e))
  relax : ∀ s flag e, P s → P (s.change (State.relax g flag e))
  switchTo : ∀ s id, P s → P (s.switchTo g id)
  setDepth : ∀ s (depth : State → Nat), P s → P (s.change fun a => { a with depth := depth a })

/-- A property of sessions that node ticks keep if the gates of transitions do. -/
structure Steady (g : Graph κ) (P : Session κ τ ρ → Prop) (noise : Event κ → Prop) : Prop
    extends Loose g P noise where
  noisy : ∀ e, e.ofTransition = false → noise e
  setDepth : ∀ s (depth : State → Nat), P s → P (s.change fun a => { a with depth := depth a })
  changed := fun _ _ => noisy _ rfl

/-- A property of sessions that no elementary change of a walk can end. -/
structure Lasting (g : Graph κ) (P : Session κ τ ρ → Prop) : Prop
    extends Steady g P fun _ => True, Walk.Inert P fun _ => True where
  noisy := fun _ _ => trivial

/-- A property of sessions that no elementary change can end. -/
structure Stable (g : Graph κ) (P : Session κ τ ρ → Prop) : Prop extends Lasting g P where
  sweep : ∀ s, P s → P (s.change State.sweep)
  setQueue : ∀ s (queue : State → ResumeQueue), P s → P (s.change fun a => { a with queue := queue a })

namespace Unflagged

variable {g : Graph κ} {P : Session κ τ ρ → Prop} {noise : Event κ → Prop} (h : Unflagged g P noise)
include h

theorem switchTo (s : Session κ τ ρ) (id : NodeId) (hs : P s) : P (s.switchTo g id) := by
  unfold Session.switchTo
  dsimp only
  split
  · exact hs
  · refine h.record _ _ (h.changed _ _) ?_
    exact h.setControl _ id (h.relax _ .active _ (h.relax s .visited _ hs))

theorem claim (s : Session κ τ ρ) (id : NodeId) (hs : P s) : P (s.claim g id) :=
  h.mark _ _ (h.switchTo s id hs)

theorem commit (s : Session κ τ ρ) (id : NodeId) (n : Node κ) (chosen : Option Port)
    (hchose : noise (.chose id chosen)) (hs : P s) : P (s.commit g id n chosen) :=
  Session.commit_induction n chosen h.switchTo (fun s hs => h.mark s _ hs)
    (fun s flag _ _ _ hs => h.relax s flag _ hs) (h.record s _ hchose hs)

section Requests

variable (hqueue : ∀ s (queue : State → ResumeQueue), P s →
  P (s.change fun a => { a with queue := queue a }))
include hqueue

theorem handOver (s : Session κ τ ρ) (now : Float) (hs : P s) : P (s.handOver g now) :=
  List.foldlRecOn _ _ (hqueue s (fun _ => (s.state.queue.drainDue now).2) hs)
    fun s hs id _ => h.switchTo s id hs

theorem walkStart [Clock κ τ] (hstarted : ∀ active, noise (.reported (.tickStarted active)))
    (hdepth : ∀ s, P s → P (s.change fun a => { a with depth := 0 }))
    (hsweep : ∀ s, P s → P (s.change State.sweep)) {s : Session κ τ ρ} (hs : P s) :
    P (s.walkStart g) :=
  hdepth _ (h.record _ _ (hstarted _) (h.handOver hqueue _ _
    (h.surroundings _ s.context _ s.random (hsweep s hs))))

end Requests

end Unflagged

theorem Loose.robust {g : Graph κ} {P : Session κ τ ρ → Prop} {noise : Event κ → Prop}
    (h : Loose g P noise) (hquiet : ∀ e, e.ofTransition = false → e.ofControl = false → noise e)
    (hdepth : ∀ s (depth : State → Nat), P s → P (s.change fun a => { a with depth := depth a })) :
    Robust g P noise :=
  { h.toDetached with
    quiet := hquiet
    mark := h.mark
    relax := h.relax
    switchTo := h.switchTo
    setDepth := hdepth }

namespace Robust

variable {g : Graph κ} {P : Session κ τ ρ → Prop} {noise : Event κ → Prop} (h : Robust g P noise)
include h

theorem claim (s : Session κ τ ρ) (id : NodeId) (hs : P s) : P (s.claim g id) :=
  h.mark _ _ (h.switchTo s id hs)

theorem commit (s : Session κ τ ρ) (id : NodeId) (n : Node κ) (chosen : Option Port) (hs : P s) :
    P (s.commit g id n chosen) :=
  Session.commit_induction n chosen h.switchTo (fun s hs => h.mark s _ hs)
    (fun s flag _ _ _ hs => h.relax s flag _ hs) (h.record s _ (h.quiet _ rfl rfl) hs)

/-! ## Robust properties of node ticks -/

theorem keeps_enter (id : NodeId) (n : Node κ) : Walk.Keeps P (Walk.enter g id n) := by
  intro s hs
  have henter : (Walk.enter g id n).Leads s (fun goes s => if goes then P s else P s) P :=
    Walk.leads_enter h.toDetached h.toDetached (fun _ _ _ => h.quiet _ rfl rfl)
      (fun s hs _ => h.record s _ (h.quiet _ rfl rfl) hs) (fun s hs => h.mark s _ hs)
      (fun _ s hs => h.claim s id hs) (fun s hs => hs.elim (·) (·)) hs
  exact henter.imp (fun goes s hs => by cases goes <;> exact hs) fun _ hb => hb

theorem keeps_choose (id : NodeId) (n : Node κ) :
    Walk.Keeps P (Walk.choose id n : Walk κ τ ρ (Option Port)) :=
  h.choose (fun _ _ _ => h.quiet _ rfl rfl) (fun _ _ _ => h.quiet _ rfl rfl)
    fun _ _ _ _ => h.quiet _ rfl rfl

theorem keeps_leave (id : NodeId) (n : Node κ) : Walk.Keeps P (Walk.leave g id n) := fun _ hs =>
  Walk.leads_leave h.toAmbient (fun _ _ _ => h.quiet _ rfl rfl)
    (fun _ s hs _ => h.relax s .visited _ hs) (fun s hs => h.record s _ (h.quiet _ rfl rfl) hs)
    (fun _ hs => hs) hs

/-- A node tick leads to a property if entering the node does and the transitions keep it. -/
theorem leads_runNode {tick : TransitionId → Walk κ τ ρ Bool} (htick : ∀ t, Walk.Keeps P (tick t))
    {id : NodeId} {n : Node κ} {s : Session κ τ ρ}
    (henter : (Walk.enter g id n).Leads s (fun _ => P) P) :
    (Walk.runNode g id n tick).Leads s (fun _ => P) P := by
  have hentered : (Walk.enter g id n).Leads s (fun goes s => if goes then P s else P s) P :=
    henter.imp (fun goes s hs => by cases goes <;> exact hs) fun _ hb => hb
  refine Walk.leads_runNode (F := fun _ _ => P) hentered (fun s hs => ?_)
    (fun _ t _ s _ hs => htick t s hs) fun _ _ s hs => h.keeps_leave id n s hs
  exact (h.keeps_choose id n).leads hs (fun port s hs => h.commit s id n port hs) fun s hs => hs

theorem keeps_runNode {tick : TransitionId → Walk κ τ ρ Bool} (htick : ∀ t, Walk.Keeps P (tick t))
    (id : NodeId) (n : Node κ) : Walk.Keeps P (Walk.runNode g id n tick) := fun s hs =>
  h.leads_runNode htick (h.keeps_enter id n s hs)

variable [Clock κ τ] [RandomSource ρ]

/-- Node ticks keep a property if the transitions do. -/
theorem keeps_visit_of
    (htick : ∀ visit : NodeId → Walk κ τ ρ Unit, (∀ id, Walk.Keeps P (visit id)) →
      ∀ t, Walk.Keeps P (Walk.tickTransition g visit t)) (budget : Nat) (id : NodeId) :
    Walk.Keeps P (Walk.visit g budget id) := by
  intro s hs
  refine Walk.leads_visit_of (I := fun _ (_ : Unit) _ => P)
    (fun _ _ _ s depth hs => h.setDepth s depth hs) (fun _ s depth hs => h.setDepth s depth hs)
    (fun _ _ s _ hs => h.record s _ (h.quiet _ rfl rfl) hs) (fun _ _ _ _ _ hs => hs)
    (fun _ visit hvisit _ id n s _ hs => ?_) budget () id hs
  exact h.keeps_runNode (htick visit fun id s hs => hvisit () id s hs) id n s hs

/-- Following a transition keeps a property if its gates and its end do. -/
theorem leads_follow {visit : NodeId → Walk κ τ ρ Unit} {id : TransitionId} {t : Transition κ}
    {s : Session κ τ ρ} (hopened : noise (.opened id)) (hvisit : Walk.Keeps P (visit t.finish))
    (hgates : (Walk.rollGates id t).Leads s (fun _ => P) P) :
    (Walk.follow visit id t).Leads s (fun _ => P) P := by
  refine Walk.leads_follow_gated h.toDetached (fun _ _ _ => h.quiet _ rfl rfl)
    (fun _ _ _ => h.quiet _ rfl rfl) (hgates.imp (fun opens s hs => ?_) fun _ hs => hs)
    (fun s hs => hvisit _ (h.record s _ hopened hs)) fun _ hs => hs
  cases opens with
  | true => exact h.mark s _ hs
  | false => exact hs

/-! ## Robust properties that do not look at the gates of transitions -/

section Inert

variable (hnoise : ∀ e, e.ofTransition = true → noise e)
  (hfiring : ∀ s t firing, P s → P (s.change (State.setFiring t firing)))
include hnoise hfiring

theorem keeps_tickTransition {visit : NodeId → Walk κ τ ρ Unit}
    (hv : ∀ id, Walk.Keeps P (visit id)) (id : TransitionId) :
    Walk.Keeps P (Walk.tickTransition g visit id) := by
  intro s hs
  refine Walk.leads_tickTransition (fun s hs => hs) (fun s hs => h.record s _ (hnoise _ rfl) hs)
    (fun t s _ _ hs => h.switchTo s t.start hs) (fun t s _ hs => ?_) hs
  have hgates : Walk.Keeps P (Walk.rollGates id t : Walk κ τ ρ Bool) :=
    h.toDetached.keeps_rollGates (fun _ _ _ => hnoise _ rfl) (fun _ _ => hnoise _ rfl)
      (fun s firing => hfiring s id firing) t
  exact h.leads_follow (hnoise _ rfl) (hv t.finish) (hgates s hs)

theorem keeps_visit (budget : Nat) (id : NodeId) : Walk.Keeps P (Walk.visit g budget id) :=
  h.keeps_visit_of (fun _ hvisit => h.keeps_tickTransition hnoise hfiring hvisit) budget id

end Inert

end Robust

namespace Steady

variable {g : Graph κ} {P : Session κ τ ρ → Prop} {noise : Event κ → Prop} (h : Steady g P noise)
include h

theorem robust : Robust g P noise :=
  h.toLoose.robust (fun e he _ => h.noisy e he) h.setDepth

theorem report (s : Session κ τ ρ) (r : Report) (hs : P s) : P (s.report r) :=
  h.record s _ (h.noisy _ rfl) hs

theorem commit (s : Session κ τ ρ) (id : NodeId) (n : Node κ) (chosen : Option Port) (hs : P s) :
    P (s.commit g id n chosen) :=
  h.robust.commit s id n chosen hs

theorem keeps_report (r : Report) : Walk.Keeps P (Walk.report r : Walk κ τ ρ Unit) :=
  Walk.keeps_modify fun s hs => h.report s r hs

theorem keeps_reset : Walk.Keeps P (Walk.reset g : Walk κ τ ρ Unit) :=
  .bind (Walk.keeps_modify fun s => h.switchTo s entryNode) fun _ =>
    .bind (h.runHook (fun _ _ _ => h.noisy _ rfl) _) fun _ => h.keeps_report _

/-! ## Steady properties of requests -/

section Requests

variable (hsweep : ∀ s, P s → P (s.change State.sweep))
  (hqueue : ∀ s (queue : State → ResumeQueue), P s → P (s.change fun a => { a with queue := queue a }))
include hqueue

variable [Clock κ τ]
include hsweep

theorem walkStart_of {s : Session κ τ ρ} (hs : P s) : P (s.walkStart g) :=
  h.walkStart hqueue (fun _ => h.noisy _ rfl) (fun s => h.setDepth s fun _ => 0) hsweep hs

variable [RandomSource ρ] (hvisit : ∀ budget id, Walk.Keeps P (Walk.visit g budget id))
include hvisit

theorem keeps_tick_of : Walk.Keeps P (Walk.tick g : Walk κ τ ρ Unit) := by
  intro s hs
  rw [Walk.leads_tick]
  exact (hvisit _ _).leads (h.walkStart_of hsweep hqueue hs) (fun _ s hs => h.report _ _ (hsweep s hs))
    fun _ hs => hs

theorem perform_of (operation : Operation) {s : Session κ τ ρ} (hs : P s) :
    P (s.perform g operation).2 :=
  Session.perform_cases (P := fun outcome => P outcome.2) operation
    ((h.keeps_tick_of hsweep hqueue hvisit).run hs) (h.keeps_reset.run hs)
    (fun id _ => h.switchTo s id hs) (fun id due _ => hqueue s (fun a => a.queue.push due id) hs)
    (fun id => hqueue s (fun a => a.queue.cancel id) hs) (fun flag e _ => h.relax s flag e hs)
    fun _ => hs

/-- What fresh sessions have and the walks of ticks keep, all reachable sessions have. -/
theorem reachable_of (hstart : ∀ context clock random, P (.start g context clock random))
    {s : Session κ τ ρ} (hs : s.Reachable g) : P s := by
  induction hs with
  | start context clock random => exact hstart context clock random
  | surroundings context clock random _ ih => exact h.surroundings _ context clock random ih
  | perform operation _ ih => exact h.perform_of hsweep hqueue hvisit operation ih

end Requests

end Steady

namespace Lasting

variable {g : Graph κ} {P : Session κ τ ρ → Prop} (h : Lasting g P) [Clock κ τ] [RandomSource ρ]
include h

theorem keeps_rollGates (id : TransitionId) (t : Transition κ) :
    Walk.Keeps P (Walk.rollGates id t : Walk κ τ ρ Bool) :=
  h.toDetached.keeps_rollGates (fun _ _ _ => trivial) (fun _ _ => trivial)
    (fun s firing => h.setFiring s id firing) t

theorem keeps_tickTransition {visit : NodeId → Walk κ τ ρ Unit}
    (hv : ∀ id, Walk.Keeps P (visit id)) (id : TransitionId) :
    Walk.Keeps P (Walk.tickTransition g visit id) :=
  h.robust.keeps_tickTransition (fun _ _ => trivial) h.setFiring hv id

theorem keeps_visit (budget : Nat) (id : NodeId) : Walk.Keeps P (Walk.visit g budget id) :=
  h.robust.keeps_visit (fun _ _ => trivial) h.setFiring budget id

end Lasting

namespace Stable

variable {g : Graph κ} {P : Session κ τ ρ → Prop} (h : Stable g P)
include h

theorem walkStart [Clock κ τ] {s : Session κ τ ρ} (hs : P s) : P (s.walkStart g) :=
  h.walkStart_of h.sweep h.setQueue hs

variable [Clock κ τ] [RandomSource ρ]

theorem perform (operation : Operation) {s : Session κ τ ρ} (hs : P s) :
    P (s.perform g operation).2 :=
  h.perform_of h.sweep h.setQueue h.keeps_visit operation hs

/-- A stable property of fresh sessions holds of all reachable sessions. -/
theorem reachable (hstart : ∀ context clock random, P (.start g context clock random))
    {s : Session κ τ ρ} (hs : s.Reachable g) : P s :=
  h.reachable_of h.sweep h.setQueue h.keeps_visit hstart hs

end Stable

end BehaviourGraph
