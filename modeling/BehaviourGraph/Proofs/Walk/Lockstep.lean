import Mathlib.Data.List.Forall2
import BehaviourGraph.Proofs.Reachable

/-!
# Walks in lockstep

Two walks match if from related sessions they end in related sessions, both regularly or both broken
off for the same cause.  A relation is `Mirrored` if both of its sides may change in the same way.
Then walks of two graphs that are wired alike match, as long as their nodes choose alike and their
transitions open alike.  So do the requests of two hosts, and moves that match one by one make matching
runs.
-/

namespace BehaviourGraph

variable {κ τ ρ τ' ρ' α β α' β' : Type}

namespace Walk

inductive Match (R : Session κ τ ρ → Session κ τ' ρ' → Prop) (V : α → α' → Prop) :
    EStateM.Result Abort (Session κ τ ρ) α → EStateM.Result Abort (Session κ τ' ρ') α' → Prop where
  | ends {a : α} {a' : α'} {s : Session κ τ ρ} {s' : Session κ τ' ρ'} (hvalue : V a a') (hs : R s s') :
      Match R V (.ok a s) (.ok a' s')
  | breaks {s : Session κ τ ρ} {s' : Session κ τ' ρ'} (cause : Abort) (hs : R s s') :
      Match R V (.error cause s) (.error cause s')

/-- From related sessions two walks have related outcomes. -/
def Matches (R : Session κ τ ρ → Session κ τ' ρ' → Prop) (V : α → α' → Prop) (w : Walk κ τ ρ α)
    (w' : Walk κ τ' ρ' α') : Prop :=
  ∀ s s', R s s' → Match R V (w s) (w' s')

section Matches

variable {R : Session κ τ ρ → Session κ τ' ρ' → Prop} {U : β → β' → Prop} {V : α → α' → Prop}

theorem Match.imp {V' : α → α' → Prop} {result : EStateM.Result Abort (Session κ τ ρ) α}
    {result' : EStateM.Result Abort (Session κ τ' ρ') α'} (h : Match R V result result')
    (hV : ∀ a a', V a a' → V' a a') : Match R V' result result' := by
  cases h with
  | ends hvalue hs => exact .ends (hV _ _ hvalue) hs
  | breaks cause hs => exact .breaks cause hs

theorem Matches.imp {V' : α → α' → Prop} {w : Walk κ τ ρ α} {w' : Walk κ τ' ρ' α'}
    (h : Matches R V w w') (hV : ∀ a a', V a a' → V' a a') : Matches R V' w w' :=
  fun s s' hs => (h s s' hs).imp hV

theorem Matches.pure {a : α} {a' : α'} (h : V a a') :
    Matches R V (pure a : Walk κ τ ρ α) (pure a' : Walk κ τ' ρ' α') :=
  fun _ _ hs => .ends h hs

theorem Match.bind {w : Walk κ τ ρ β} {w' : Walk κ τ' ρ' β'} {f : β → Walk κ τ ρ α}
    {f' : β' → Walk κ τ' ρ' α'} {s : Session κ τ ρ} {s' : Session κ τ' ρ'}
    (h : Match R U (w s) (w' s')) (hf : ∀ b b', U b b' → Matches R V (f b) (f' b')) :
    Match R V ((w >>= f) s) ((w' >>= f') s') := by
  show Match R V (EStateM.bind w f s) (EStateM.bind w' f' s')
  unfold EStateM.bind
  generalize w s = result at h ⊢
  generalize w' s' = result' at h ⊢
  cases h with
  | ends hvalue hs => exact hf _ _ hvalue _ _ hs
  | breaks cause hs => exact .breaks cause hs

theorem Matches.bind {w : Walk κ τ ρ β} {w' : Walk κ τ' ρ' β'} {f : β → Walk κ τ ρ α}
    {f' : β' → Walk κ τ' ρ' α'} (hw : Matches R U w w')
    (hf : ∀ b b', U b b' → Matches R V (f b) (f' b')) :
    Matches R V (w >>= f) (w' >>= f') :=
  fun s s' hs => (hw s s' hs).bind hf

/-- After matching parts with the same value the rest goes on from the same value. -/
theorem Matches.then {w : Walk κ τ ρ β} {w' : Walk κ τ' ρ' β} {f : β → Walk κ τ ρ α}
    {f' : β → Walk κ τ' ρ' α'} (hw : Matches R Eq w w') (hf : ∀ b, Matches R V (f b) (f' b)) :
    Matches R V (w >>= f) (w' >>= f') :=
  hw.bind fun b b' hb => by
    subst hb
    exact hf b

theorem Matches.ite {c : Prop} [Decidable c] {w v : Walk κ τ ρ α} {w' v' : Walk κ τ' ρ' α'}
    (hw : Matches R V w w') (hv : Matches R V v v') :
    Matches R V (if c then w else v) (if c then w' else v') := by
  split
  · exact hw
  · exact hv

theorem matches_modify {f : Session κ τ ρ → Session κ τ ρ} {f' : Session κ τ' ρ' → Session κ τ' ρ'}
    (h : ∀ s s', R s s' → R (f s) (f' s')) :
    Matches R Eq (modify f : Walk κ τ ρ Unit) (modify f' : Walk κ τ' ρ' Unit) :=
  fun s s' hs => .ends rfl (h s s' hs)

theorem matches_change {f : State → State} (h : ∀ s s', R s s' → R (s.change f) (s'.change f)) :
    Matches R Eq (change f : Walk κ τ ρ Unit) (change f : Walk κ τ' ρ' Unit) :=
  matches_modify h

theorem matches_get :
    Matches R R (get : Walk κ τ ρ (Session κ τ ρ)) (get : Walk κ τ' ρ' (Session κ τ' ρ')) :=
  fun _ _ hs => .ends hs hs

theorem matches_fanOut {tick : TransitionId → Walk κ τ ρ Bool} {tick' : TransitionId → Walk κ τ' ρ' Bool}
    {ts : List TransitionId} (htick : ∀ t ∈ ts, Matches R Eq (tick t) (tick' t)) :
    Matches R Eq (fanOut tick ts) (fanOut tick' ts) := by
  induction ts with
  | nil => exact .pure rfl
  | cons t ts ih =>
      have hrest := ih fun u hu => htick u (List.mem_cons_of_mem t hu)
      exact (htick t List.mem_cons_self).then fun goes => .ite hrest (.pure rfl)

theorem Match.run {V : Unit → Unit → Prop} {w : Walk κ τ ρ Unit} {w' : Walk κ τ' ρ' Unit}
    {s : Session κ τ ρ} {s' : Session κ τ' ρ'} (h : Match R V (w s) (w' s')) :
    (s.run w).1 = (s'.run w').1 ∧ R (s.run w).2 (s'.run w').2 := by
  unfold Session.run
  generalize w s = result at h ⊢
  generalize w' s' = result' at h ⊢
  cases h with
  | ends _ hs => exact ⟨rfl, hs⟩
  | breaks cause hs => exact ⟨rfl, hs⟩

end Matches

/-! ## Mirrored changes -/

/-- Both sides of a relation have the same context, control, queue and visited flags, and may change in
the same way. -/
structure Mirrored (R : Session κ τ ρ → Session κ τ' ρ' → Prop) : Prop where
  context : ∀ s s', R s s' → s.context = s'.context
  control : ∀ s s', R s s' → s.state.control = s'.state.control
  queue : ∀ s s', R s s' → s.state.queue = s'.state.queue
  visited : ∀ s s' e, R s s' → s.state.has .visited e = s'.state.has .visited e
  setContext : ∀ s s' context, R s s' → R { s with context } { s' with context }
  record : ∀ s s' e, R s s' → R (s.record e) (s'.record e)
  setNormal : ∀ s s' e, R s s' →
    R (s.change (State.setStatus e .normal)) (s'.change (State.setStatus e .normal))
  demote : ∀ s s' e status, R s s' →
    R (s.change (State.demote e status)) (s'.change (State.demote e status))
  setDepth : ∀ s s' (depth : Nat → Nat), R s s' →
    R (s.change fun a => { a with depth := depth a.depth })
      (s'.change fun a => { a with depth := depth a.depth })
  mark : ∀ s s' e, R s s' → R (s.change (State.mark e)) (s'.change (State.mark e))
  relax : ∀ (g : Graph κ) s s' flag e, R s s' →
    R (s.change (State.relax g flag e)) (s'.change (State.relax g flag e))
  setControl : ∀ s s' id, R s s' →
    R (s.change fun a => { a with control := id }) (s'.change fun a => { a with control := id })
  sweep : ∀ s s', R s s' → R (s.change State.sweep) (s'.change State.sweep)
  setQueue : ∀ s s' (queue : ResumeQueue → ResumeQueue), R s s' →
    R (s.change fun a => { a with queue := queue a.queue })
      (s'.change fun a => { a with queue := queue a.queue })

namespace Mirrored

variable {g : Graph κ} {R : Session κ τ ρ → Session κ τ' ρ' → Prop} (h : Mirrored R)
include h

theorem report {s : Session κ τ ρ} {s' : Session κ τ' ρ'} (r : Report) (hs : R s s') :
    R (s.report r) (s'.report r) :=
  h.record s s' _ hs

theorem switchTo {s : Session κ τ ρ} {s' : Session κ τ' ρ'} (id : NodeId) (hs : R s s') :
    R (s.switchTo g id) (s'.switchTo g id) := by
  unfold Session.switchTo
  rw [h.control s s' hs]
  dsimp only
  split
  · exact hs
  · exact h.report _ (h.setControl _ _ id (h.relax g _ _ .active _ (h.relax g s s' .visited _ hs)))

theorem claim {s : Session κ τ ρ} {s' : Session κ τ' ρ'} (id : NodeId) (hs : R s s') :
    R (s.claim g id) (s'.claim g id) :=
  h.mark _ _ _ (h.switchTo id hs)

theorem relaxOthers {s : Session κ τ ρ} {s' : Session κ τ' ρ'} (id : NodeId) (n : Node κ)
    (chosen : Option Port) (hs : R s s') :
    R (s.change (State.relaxOthers g id n chosen)) (s'.change (State.relaxOthers g id n chosen)) := by
  have hboth (a b : State) (hab : R { s with state := a } { s' with state := b }) (flag : Flag)
      (e : Element) :
      R { s with state := a.relax g flag e } { s' with state := b.relax g flag e } :=
    h.relax g _ _ flag e hab
  refine List.foldl_rel (r := fun a b => R { s with state := a } { s' with state := b }) hs
    fun port _ a b hab => ?_
  exact List.foldl_rel (r := fun a b => R { s with state := a } { s' with state := b }) hab
    fun t _ a b hab => hboth _ _ (hboth a b hab .visited _) .active _

theorem commit {s : Session κ τ ρ} {s' : Session κ τ' ρ'} (id : NodeId) (n : Node κ)
    (chosen : Option Port) (hs : R s s') : R (s.commit g id n chosen) (s'.commit g id n chosen) := by
  unfold Session.commit
  dsimp only
  apply h.relaxOthers
  have hchosen := h.record s s' (.chose id chosen) hs
  split
  · exact hchosen
  · split
    · exact h.claim id hchosen
    · exact h.switchTo entryNode hchosen

theorem handOver {s : Session κ τ ρ} {s' : Session κ τ' ρ'} (now : Float) (hs : R s s') :
    R (s.handOver g now) (s'.handOver g now) := by
  unfold Session.handOver
  rw [h.queue s s' hs]
  exact List.foldl_rel (h.setQueue s s' (fun _ => (s'.state.queue.drainDue now).2) hs)
    fun id _ s s' hs => h.switchTo id hs

/-! ## Matching parts -/

theorem matches_record (e : Event κ) :
    Matches R Eq (Walk.record e : Walk κ τ ρ Unit) (Walk.record e : Walk κ τ' ρ' Unit) :=
  matches_modify fun s s' => h.record s s' e

theorem matches_report (r : Report) :
    Matches R Eq (Walk.report r : Walk κ τ ρ Unit) (Walk.report r : Walk κ τ' ρ' Unit) :=
  matches_modify fun _ _ => h.report r

theorem matches_runHook (call : Call) (hook : Option (Hook κ)) :
    Matches R Eq (runHook call hook : Walk κ τ ρ Unit) (runHook call hook : Walk κ τ' ρ' Unit) := by
  intro s s' hs
  cases hook with
  | none => exact .ends rfl hs
  | some hook =>
      unfold runHook
      dsimp only
      rw [h.context s s' hs]
      cases hook s'.context with
      | ok _ context => exact .ends rfl (h.record _ _ _ (h.setContext s s' context hs))
      | error message context => exact .breaks _ (h.record _ _ _ (h.setContext s s' context hs))

theorem match_invoke [OfValue α] (call : Call) {callback callback' : Callback κ α} {s : Session κ τ ρ}
    {s' : Session κ τ' ρ'} (hs : R s s')
    (hinvoke : callback'.invoke s.context = callback.invoke s.context) :
    Match R Eq (invoke call callback s) (invoke call callback' s') := by
  unfold invoke
  rw [← h.context s s' hs, hinvoke]
  cases callback.invoke s.context with
  | ok result context =>
      cases result with
      | ok a => exact .ends rfl (h.record _ _ _ (h.setContext s s' context hs))
      | error error => exact .ends rfl (h.record _ _ _ (h.setContext s s' context hs))
  | error message context => exact .breaks _ (h.record _ _ _ (h.setContext s s' context hs))

theorem matches_fail (e : Element) (label : String) (error : CallbackError) :
    Matches R Eq (fail e label error : Walk κ τ ρ Unit) (fail e label error : Walk κ τ' ρ' Unit) :=
  (matches_change fun s s' => h.demote s s' e _).then fun _ => h.matches_report _

theorem matches_settle (e : Element) (label : String) (result : Except CallbackError α) :
    Matches R Eq (settle e label result : Walk κ τ ρ _) (settle e label result : Walk κ τ' ρ' _) := by
  cases result with
  | ok a => exact .pure rfl
  | error error => exact (h.matches_fail e label error).then fun _ => .pure rfl

theorem matches_verdict (e : Element) (label : String) (reverse : Bool)
    (result : Except CallbackError Bool) :
    Matches R Eq (verdict e label reverse result : Walk κ τ ρ _)
      (verdict e label reverse result : Walk κ τ' ρ' _) := by
  refine (h.matches_settle e label result).then fun held => ?_
  cases held with
  | none => exact .pure rfl
  | some holds => exact .pure rfl

/-- Branches with the same curves and scorers that do the same are scored alike. -/
theorem matches_scoreBranches (id : NodeId) (label : String) {branches branches' : List (Branch κ)}
    (hsame : List.Forall₂ (fun b b' => b'.curve = b.curve ∧ b'.scorer.invoke = b.scorer.invoke)
      branches branches') (index : Nat) (best : Option (Nat × Float32)) :
    Matches R Eq (scoreBranches id label index best branches : Walk κ τ ρ _)
      (scoreBranches id label index best branches' : Walk κ τ' ρ' _) := by
  induction hsame generalizing index best with
  | nil => exact .pure rfl
  | @cons branch branch' _ _ hbranch _ ih =>
      unfold scoreBranches
      rw [hbranch.1]
      have hscorer : Matches R Eq (invoke (.scorer id index) branch.scorer : Walk κ τ ρ _)
          (invoke (.scorer id index) branch'.scorer : Walk κ τ' ρ' _) := fun s s' hs =>
        h.match_invoke _ hs (congrFun hbranch.2 _)
      refine hscorer.then fun result => ?_
      cases result with
      | error error => exact (h.matches_fail _ label error).then fun _ => ih _ _
      | ok raw =>
          have hcurve : Matches R Eq (evaluate branch.curve raw : Walk κ τ ρ _)
              (evaluate branch.curve raw : Walk κ τ' ρ' _) := fun s s' hs => by
            unfold evaluate
            cases branch.curve.evaluate raw with
            | some value => exact .ends rfl hs
            | none => exact .breaks _ hs
          exact hcurve.then fun score => ih _ _

/-! ## The same node and the same transition -/

theorem matches_invoke [OfValue α] (call : Call) (callback : Callback κ α) :
    Matches R Eq (invoke call callback : Walk κ τ ρ _) (invoke call callback : Walk κ τ' ρ' _) :=
  fun _ _ hs => h.match_invoke call hs rfl

theorem matches_choose (id : NodeId) (n : Node κ) :
    Matches R Eq (choose id n : Walk κ τ ρ _) (choose id n : Walk κ τ' ρ' _) := by
  have hguard (callback : Callback κ Bool) (reverse : Bool) (port : Bool → Option Port) :
      Matches R Eq
        (do return port (← verdict (.node id) n.label reverse (← invoke (.body id) callback)) :
          Walk κ τ ρ _)
        (do return port (← verdict (.node id) n.label reverse (← invoke (.body id) callback)) :
          Walk κ τ' ρ' _) :=
    (h.matches_invoke _ callback).then fun _ => (h.matches_verdict _ _ _ _).then fun _ => .pure rfl
  unfold choose
  cases n.behaviour with
  | entry => exact .pure rfl
  | action callback =>
      exact (h.matches_invoke _ callback).then fun _ => (h.matches_settle _ _ _).then fun _ => .pure rfl
  | condition guard reverse =>
      exact hguard guard reverse fun holds => some (if holds then .whenTrue else .whenFalse)
  | loop guard reverse =>
      exact hguard guard reverse fun holds => some (if holds then .body else .finish)
  | utility branches =>
      have hscored := h.matches_scoreBranches id n.label
        (List.forall₂_same.mpr fun branch (_ : branch ∈ branches) => ⟨rfl, rfl⟩) 0 none
      exact hscored.then fun _ => .pure rfl

theorem matches_passesGuard (id : TransitionId) (t : Transition κ) :
    Matches R Eq (passesGuard id t : Walk κ τ ρ _) (passesGuard id t : Walk κ τ' ρ' _) := by
  unfold passesGuard
  cases t.guard with
  | none => exact .pure rfl
  | some guard =>
      refine (h.matches_invoke _ guard).then fun result => ?_
      exact (matches_change fun s s' => h.setNormal s s' _).then fun _ => h.matches_verdict _ _ _ _

end Mirrored

end Walk

/-! ## Graphs that are wired alike -/

structure Graph.SameWiring (g g' : Graph κ) : Prop where
  next : g'.next = g.next
  exits : g'.exits = g.exits

structure Node.Twin (n n' : Node κ) : Prop where
  kind : n'.kind = n.kind
  ports : n'.behaviour.ports = n.behaviour.ports
  capturesControl : n'.capturesControl = n.capturesControl
  preTick : n'.preTick = n.preTick
  postTick : n'.postTick = n.postTick

structure Transition.Twin (t t' : Transition κ) : Prop where
  start : t'.start = t.start
  finish : t'.finish = t.finish
  capturesControl : t'.capturesControl = t.capturesControl
  terminatesGroup : t'.terminatesGroup = t.terminatesGroup

theorem rel_imp {r r' : α → β → Prop} {a : Option α} {b : Option β} (h : Option.Rel r a b)
    (hr : ∀ x y, r x y → r' x y) : Option.Rel r' a b := by
  cases h with
  | none => exact .none
  | some hxy => exact .some (hr _ _ hxy)

theorem isSome_eq_of_rel {r : α → β → Prop} {a : Option α} {b : Option β} (h : Option.Rel r a b) :
    b.isSome = a.isSome := by
  cases h <;> rfl

theorem map_eq_of_rel {γ : Type} {r : α → β → Prop} {f : α → γ} {f' : β → γ} {a : Option α}
    {b : Option β} (h : Option.Rel r a b) (hf : ∀ x y, r x y → f' y = f x) : b.map f' = a.map f := by
  cases h with
  | none => rfl
  | some hr => exact congrArg some (hf _ _ hr)

theorem elim_eq_of_rel {γ : Type} {r : α → β → Prop} {c : γ} {f : α → γ} {f' : β → γ} {a : Option α}
    {b : Option β} (h : Option.Rel r a b) (hf : ∀ x y, r x y → f' y = f x) :
    b.elim c f' = a.elim c f := by
  cases h with
  | none => rfl
  | some hr => exact hf _ _ hr

namespace Graph

variable {g g' : Graph κ}

theorem hasNode_congr {N : Node κ → Node κ → Prop} {id : NodeId}
    (h : Option.Rel N (g.node? id) (g'.node? id)) : g'.hasNode id = g.hasNode id := by
  rw [hasNode_eq_isSome, hasNode_eq_isSome, isSome_eq_of_rel h]

theorem hasTransition_congr {T : Transition κ → Transition κ → Prop} {t : TransitionId}
    (h : Option.Rel T (g.transition? t) (g'.transition? t)) :
    g'.hasTransition t = g.hasTransition t := by
  rw [hasTransition_eq_isSome, hasTransition_eq_isSome, isSome_eq_of_rel h]

/-- The lists of their nodes and the ends of their transitions tell how graphs are wired. -/
theorem sameWiring_of_rel
    (hnode : ∀ id, Option.Rel (fun n n' => n'.outgoing = n.outgoing ∧ n'.exits = n.exits)
      (g.node? id) (g'.node? id))
    (htransition : ∀ t, Option.Rel (fun tr tr' => tr'.finish = tr.finish)
      (g.transition? t) (g'.transition? t)) : g.SameWiring g' := by
  refine ⟨funext fun e => ?_, funext fun id => funext fun port => ?_⟩
  · cases e with
    | node id =>
        have hout : g'.outgoing id = g.outgoing id := elim_eq_of_rel (hnode id) fun n n' hn => hn.1
        simp only [next, hout]
    | transition t =>
        have hend : (g'.transition? t).map (fun tr => Element.node tr.finish) =
            (g.transition? t).map fun tr => .node tr.finish :=
          map_eq_of_rel (htransition t) fun tr tr' hfinish => by rw [hfinish]
        simp only [next, hend]
  · exact elim_eq_of_rel (hnode id) fun n n' hn => by rw [hn.2]

end Graph

namespace Graph.SameWiring

variable {g g' : Graph κ} (h : g.SameWiring g')
include h

theorem relax : State.relax g' = State.relax g := by
  funext flag e s
  unfold State.relax
  rw [h.next]

theorem switchTo : (Session.switchTo g' : NodeId → Session κ τ ρ → Session κ τ ρ) =
    Session.switchTo g := by
  funext id s
  unfold Session.switchTo
  rw [h.relax]

theorem claim : (Session.claim g' : NodeId → Session κ τ ρ → Session κ τ ρ) = Session.claim g := by
  funext id s
  unfold Session.claim
  rw [h.switchTo]

theorem handOver : (Session.handOver g' : Float → Session κ τ ρ → Session κ τ ρ) =
    Session.handOver g := by
  funext now s
  unfold Session.handOver
  rw [h.switchTo]

theorem commit {n n' : Node κ} (hn : n.Twin n') (id : NodeId) (chosen : Option Port) :
    (Session.commit g' id n' chosen : Session κ τ ρ → Session κ τ ρ) = Session.commit g id n chosen := by
  funext s
  unfold Session.commit State.relaxOthers State.relaxPort
  rw [h.relax, h.exits, h.claim, h.switchTo, hn.kind, hn.ports]

end Graph.SameWiring

namespace Walk

variable [Clock κ τ] [Clock κ τ'] [RandomSource ρ] [RandomSource ρ']

structure Parallel (R : Session κ τ ρ → Session κ τ' ρ' → Prop) (g g' : Graph κ) : Prop
    extends g.SameWiring g' where
  maxTickDepth : g'.config.maxTickDepth = g.config.maxTickDepth
  onReset : g'.onReset = g.onReset
  node : ∀ id, Option.Rel (fun n n' => n.Twin n' ∧ Matches R Eq (choose id n) (choose id n'))
    (g.node? id) (g'.node? id)
  transition : ∀ t, Option.Rel (fun tr tr' => tr.Twin tr' ∧
    Matches R Eq (rollGates t tr) (rollGates t tr') ∧
      Matches R Eq (passesGuard t tr) (passesGuard t tr')) (g.transition? t) (g'.transition? t)

/-- A graph is parallel to itself if the gates of its transitions open alike. -/
theorem Mirrored.parallel_self {R : Session κ τ ρ → Session κ τ' ρ' → Prop} {g : Graph κ}
    (h : Mirrored R)
    (hgates : ∀ t tr, g.transition? t = some tr → Matches R Eq (rollGates t tr) (rollGates t tr)) :
    Parallel R g g where
  next := rfl
  exits := rfl
  maxTickDepth := rfl
  onReset := rfl
  node id := by
    cases g.node? id with
    | none => exact .none
    | some n => exact .some ⟨⟨rfl, rfl, rfl, rfl, rfl⟩, h.matches_choose id n⟩
  transition t := by
    cases htr : g.transition? t with
    | none => exact .none
    | some tr =>
        exact .some ⟨⟨rfl, rfl, rfl, rfl⟩, hgates t tr htr, h.matches_passesGuard t tr⟩

namespace Mirrored

variable {R : Session κ τ ρ → Session κ τ' ρ' → Prop} {g g' : Graph κ} {n n' : Node κ}
  (h : Mirrored R)
include h

omit [Clock κ τ] [Clock κ τ'] [RandomSource ρ] [RandomSource ρ']

theorem matches_enter (hw : g.SameWiring g') (hn : n.Twin n') (id : NodeId) :
    Matches R Eq (enter g id n) (enter g' id n') := by
  unfold enter
  rw [hn.kind, hn.preTick, hn.capturesControl, hw.claim]
  refine .ite ?_ (matches_get.bind fun s s' hs => ?_)
  · exact (h.matches_record _).then fun _ => (h.matches_runHook _ _).then fun _ =>
      (matches_change fun s s' => h.mark s s' _).then fun _ => .pure rfl
  · rw [h.control s s' hs, h.visited s s' _ hs]
    refine .ite (.pure rfl) ?_
    have hrest : Matches R Eq
        (do change (State.setStatus (.node id) .normal); return true : Walk κ τ ρ Bool)
        (do change (State.setStatus (.node id) .normal); return true : Walk κ τ' ρ' Bool) :=
      (matches_change fun s s' => h.setNormal s s' _).then fun _ => .pure rfl
    refine (h.matches_record _).then fun _ => (matches_change fun s s' => h.mark s s' _).then fun _ =>
      (h.matches_runHook _ _).then fun _ => .ite ?_ hrest
    exact (matches_modify fun _ _ => h.claim id).then fun _ => hrest

theorem matches_leave (hw : g.SameWiring g') (hn : n.Twin n') (id : NodeId) :
    Matches R Eq (leave g id n) (leave g' id n') := by
  unfold leave
  rw [hn.kind, hn.postTick, hw.relax]
  have hrest : Matches R Eq
      (do runHook (.postTick id) n.postTick; Walk.record (.left id) : Walk κ τ ρ Unit)
      (do runHook (.postTick id) n.postTick; Walk.record (.left id) : Walk κ τ' ρ' Unit) :=
    (h.matches_runHook _ _).then fun _ => h.matches_record _
  refine matches_get.bind fun s s' hs => ?_
  rw [h.control s s' hs]
  exact .ite ((matches_change fun s s' => h.relax g s s' .visited _).then fun _ => hrest) hrest

theorem matches_runNode (hw : g.SameWiring g') (hn : n.Twin n') (id : NodeId)
    (hchoose : Matches R Eq (choose id n) (choose id n')) {tick : TransitionId → Walk κ τ ρ Bool}
    {tick' : TransitionId → Walk κ τ' ρ' Bool} (htick : ∀ t, Matches R Eq (tick t) (tick' t)) :
    Matches R Eq (runNode g id n tick) (runNode g' id n' tick') := by
  unfold runNode
  rw [hw.exits]
  refine (h.matches_enter hw hn id).then fun goes => .ite ?_ (.pure rfl)
  refine hchoose.then fun port => ?_
  rw [hw.commit hn]
  refine (matches_modify fun _ _ => h.commit id n port).then fun _ => ?_
  cases port with
  | none => exact h.matches_leave hw hn id
  | some port => exact (matches_fanOut fun t _ => htick t).then fun _ => h.matches_leave hw hn id

variable [Clock κ τ] [Clock κ τ'] [RandomSource ρ] [RandomSource ρ']

theorem matches_tickTransition (hp : Parallel R g g') {visit : NodeId → Walk κ τ ρ Unit}
    {visit' : NodeId → Walk κ τ' ρ' Unit} (hvisit : ∀ id, Matches R Eq (visit id) (visit' id))
    (t : TransitionId) : Matches R Eq (tickTransition g visit t) (tickTransition g' visit' t) := by
  unfold tickTransition
  have ht := hp.transition t
  generalize g.transition? t = tr at ht ⊢
  generalize g'.transition? t = tr' at ht ⊢
  cases ht with
  | none => exact .pure rfl
  | @some tr tr' ht =>
      obtain ⟨htwin, hgates, hguard⟩ := ht
      have hfollow : Matches R Eq (follow visit t tr) (follow visit' t tr') := by
        unfold follow
        rw [htwin.finish, htwin.terminatesGroup]
        refine hgates.then fun opens => .ite (.pure rfl) ?_
        refine (matches_change fun s s' => h.mark s s' _).then fun _ => ?_
        refine hguard.then fun passes => .ite (.pure rfl) ?_
        exact (h.matches_record _).then fun _ => (hvisit _).then fun _ => .pure rfl
      dsimp only
      rw [htwin.capturesControl, htwin.start, hp.switchTo]
      refine (h.matches_record _).then fun _ => .ite ?_ hfollow
      exact (matches_modify fun _ _ => h.switchTo _).then fun _ => hfollow

theorem matches_visit (hp : Parallel R g g') (budget : Nat) (id : NodeId) :
    Matches R Eq (visit g budget id) (visit g' budget id) := by
  induction budget generalizing id with
  | zero =>
      unfold visit
      rw [hp.maxTickDepth]
      exact h.matches_report _
  | succ budget ih =>
      unfold visit
      refine (matches_change fun s s' => h.setDepth s s' (· + 1)).then fun _ => ?_
      have hrest : Matches R Eq (change fun s => { s with depth := s.depth - 1 } : Walk κ τ ρ Unit)
          (change fun s => { s with depth := s.depth - 1 } : Walk κ τ' ρ' Unit) :=
        matches_change fun s s' => h.setDepth s s' (· - 1)
      have hnode := hp.node id
      generalize g.node? id = n at hnode ⊢
      generalize g'.node? id = n' at hnode ⊢
      cases hnode with
      | none => exact hrest
      | some hn =>
          obtain ⟨htwin, hchoose⟩ := hn
          exact (h.matches_runNode hp.toSameWiring htwin id hchoose
            (h.matches_tickTransition hp ih)).then fun _ => hrest

/-- Ticks match if their walks begin alike. -/
theorem match_tick (hp : Parallel R g g') {s : Session κ τ ρ} {s' : Session κ τ' ρ'}
    (hs : R (s.walkStart g) (s'.walkStart g')) : Match R Eq (tick g s) (tick g' s') := by
  rw [tick_eq, tick_eq, hp.maxTickDepth, h.control _ _ hs]
  refine Matches.then (h.matches_visit hp _ _) (fun _ => ?_) _ _ hs
  refine (matches_change h.sweep).then fun _ => matches_get.bind fun s s' hs => ?_
  rw [h.control s s' hs]
  exact h.matches_report _

omit [Clock κ τ] [Clock κ τ'] [RandomSource ρ] [RandomSource ρ'] in
theorem matches_reset (hw : g.SameWiring g') (hreset : g'.onReset = g.onReset) :
    Matches R Eq (reset g : Walk κ τ ρ Unit) (reset g' : Walk κ τ' ρ' Unit) := by
  unfold reset
  rw [hw.switchTo, hreset]
  exact (matches_modify fun _ _ => h.switchTo entryNode).then fun _ =>
    (h.matches_runHook .reset g.onReset).then fun _ => h.matches_report _

end Mirrored

end Walk

/-! ## Requests in lockstep -/

section Requests

variable [Clock κ τ] [Clock κ τ'] [RandomSource ρ] [RandomSource ρ']
  {R : Session κ τ ρ → Session κ τ' ρ' → Prop} {g g' : Graph κ}

theorem Walk.Parallel.hasElement (hp : Walk.Parallel R g g') : g'.hasElement = g.hasElement := by
  funext e
  cases e with
  | node id => exact Graph.hasNode_congr (hp.node id)
  | transition t => exact Graph.hasTransition_congr (hp.transition t)

/-- The same request to parallel graphs has the same response, and leads to related sessions. -/
theorem Walk.Mirrored.perform (h : Walk.Mirrored R) (hp : Walk.Parallel R g g')
    {s : Session κ τ ρ} {s' : Session κ τ' ρ'} (operation : Operation) (hs : R s s')
    (hstart : operation = .tick → R (s.walkStart g) (s'.walkStart g')) :
    (s.perform g operation).1 = (s'.perform g' operation).1 ∧
      R (s.perform g operation).2 (s'.perform g' operation).2 := by
  cases operation with
  | tick => exact (h.match_tick hp (hstart rfl)).run
  | reset => exact ((h.matches_reset hp.toSameWiring hp.onReset) s s' hs).run
  | setActive id =>
      simp only [Session.perform, Session.provided, hp.hasElement, hp.switchTo]
      split
      · exact ⟨rfl, h.switchTo id hs⟩
      · exact ⟨rfl, hs⟩
  | resumeAt id due =>
      simp only [Session.perform, Session.provided, hp.hasElement]
      split
      · split
        · exact ⟨rfl, h.setQueue s s' (fun queue => queue.push due id) hs⟩
        · exact ⟨rfl, hs⟩
      · exact ⟨rfl, hs⟩
  | cancel id =>
      simp only [Session.perform, h.queue s s' hs]
      exact ⟨trivial, h.setQueue s s' (fun queue => queue.cancel id) hs⟩
  | relax flag e =>
      simp only [Session.perform, Session.provided, hp.hasElement, hp.relax]
      split
      · exact ⟨rfl, h.relax g s s' flag e hs⟩
      · exact ⟨rfl, hs⟩

inductive Move.Matches (R : Session κ τ ρ → Session κ τ' ρ' → Prop) (g g' : Graph κ) :
    Move κ τ ρ → Move κ τ' ρ' → Prop where
  | request {operation operation' : Operation}
      (h : ∀ s s', R s s' → (s.perform g operation).1 = (s'.perform g' operation').1 ∧
        R (s.perform g operation).2 (s'.perform g' operation').2) :
      Matches R g g' (.request operation) (.request operation')
  | surround {context context' : κ} {clock : τ} {clock' : τ'} {random : ρ} {random' : ρ'}
      (h : ∀ s s', R s s' →
        R { s with context, clock, random }
          { s' with context := context', clock := clock', random := random' }) :
      Matches R g g' (.surround context clock random) (.surround context' clock' random')

/-- Moves that match one by one have the same responses and lead to related sessions. -/
theorem Session.play_matches {moves : List (Move κ τ ρ)} {moves' : List (Move κ τ' ρ')}
    (hmoves : List.Forall₂ (Move.Matches R g g') moves moves') {s : Session κ τ ρ}
    {s' : Session κ τ' ρ'} (hs : R s s') :
    (s.play g moves).1 = (s'.play g' moves').1 ∧ R (s.play g moves).2 (s'.play g' moves').2 := by
  induction hmoves generalizing s s' with
  | nil => exact ⟨rfl, hs⟩
  | cons hmove _ ih =>
      cases hmove with
      | surround hsurround => exact ih (hsurround s s' hs)
      | request hrequest =>
          obtain ⟨hresponse, hafter⟩ := hrequest s s' hs
          obtain ⟨hresponses, hend⟩ := ih hafter
          exact ⟨List.cons_eq_cons.mpr ⟨hresponse, hresponses⟩, hend⟩

end Requests

end BehaviourGraph
