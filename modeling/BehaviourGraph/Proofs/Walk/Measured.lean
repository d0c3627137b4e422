import BehaviourGraph.Proofs.Nesting
import BehaviourGraph.Proofs.Walk.Agreement

/-!
# Measured walks

The walk of a tick once more, without looking at the depth counter.  Whether a node is refused is decided
where a transition opens, by the number of nodes that have been entered since the tick began and not been
left; the counter is compared with that number, and the number with the limit, where a node tick begins,
where the gates of a transition are rolled and before every call of the host, and everything breaks off
where they do not fit.  If node ticks may be nested at all, a tick and its measured text do the same.  So
the counter is the number of node ticks in progress wherever the host is called, and a refusal does no
more than report itself.
-/

namespace BehaviourGraph

variable {κ τ ρ α : Type}

namespace Measured

/-! ## The measured text -/

section Walks

variable (g : Graph κ) (earlier : Session κ τ ρ) (fault : Abort)

/-- Break off unless the depth counter is the number of node ticks in progress and within the limit.
Some may have begun without having entered their nodes. -/
def confirm (begun : Nat) : Walk κ τ ρ Unit := fun s =>
  if (s.state.depth : Int) = nesting (s.since earlier) + begun ∧
      s.state.depth ≤ g.config.maxTickDepth then .ok () s
  else .error fault s

def runHook (call : Call) (hook : Option (Hook κ)) : Walk κ τ ρ Unit := do
  confirm g earlier fault 0
  Walk.runHook call hook

def invoke [OfValue α] (call : Call) (callback : Callback κ α) :
    Walk κ τ ρ (Except CallbackError α) := do
  confirm g earlier fault 0
  Walk.invoke call callback

def enter (id : NodeId) (n : Node κ) : Walk κ τ ρ Bool := do
  if n.kind = .entry then
    Walk.record (.entered id)
    runHook g earlier fault (.preTick id) n.preTick
    Walk.change (State.mark (.node id))
    return true
  let s ← get
  if s.state.control ≠ id && s.state.has .visited (.node id) then return false
  Walk.record (.entered id)
  Walk.change (State.mark (.node id))
  runHook g earlier fault (.preTick id) n.preTick
  if n.capturesControl then modify (Session.claim g id)
  Walk.change (State.setStatus (.node id) .normal)
  return true

def leave (id : NodeId) (n : Node κ) : Walk κ τ ρ Unit := do
  let s ← get
  if n.kind ≠ .entry && s.state.control = id then Walk.change (State.relax g .visited (.node id))
  runHook g earlier fault (.postTick id) n.postTick
  Walk.record (.left id)

def scoreBranches (id : NodeId) (label : String) :
    Nat → Option (Nat × Float32) → List (Branch κ) → Walk κ τ ρ (Option (Nat × Float32))
  | _, best, [] => pure best
  | index, best, branch :: branches => do
    match ← invoke g earlier fault (.scorer id index) branch.scorer with
    | .ok raw =>
      let score ← Walk.evaluate branch.curve raw
      scoreBranches id label (index + 1) (Walk.better best index score) branches
    | .error error =>
      Walk.fail (.node id) label error
      scoreBranches id label (index + 1) best branches

def choose (id : NodeId) (n : Node κ) : Walk κ τ ρ (Option Port) :=
  match n.behaviour with
  | .entry => return some .out
  | .action callback => do
    let result ← invoke g earlier fault (.body id) callback
    let _ ← Walk.settle (.node id) n.label result
    return some .out
  | .condition guard reverse => do
    let result ← invoke g earlier fault (.body id) guard
    let holds ← Walk.verdict (.node id) n.label reverse result
    return some (if holds then .whenTrue else .whenFalse)
  | .loop guard reverse => do
    let result ← invoke g earlier fault (.body id) guard
    let holds ← Walk.verdict (.node id) n.label reverse result
    return some (if holds then .body else .finish)
  | .utility branches => do
    let best ← scoreBranches g earlier fault id n.label 0 none branches
    return best.map fun (index, _) => .branch index

def runNode (id : NodeId) (n : Node κ) (tick : TransitionId → Walk κ τ ρ Bool) : Walk κ τ ρ Unit := do
  if ← enter g earlier fault id n then
    let port ← choose g earlier fault id n
    modify (Session.commit g id n port)
    match port with
    | some port => Walk.fanOut tick (g.exits id port)
    | none => pure ()
    leave g earlier fault id n

def passesGuard (id : TransitionId) (t : Transition κ) : Walk κ τ ρ Bool := do
  match t.guard with
  | none => return true
  | some guard =>
    let result ← invoke g earlier fault (.guard id) guard
    Walk.change (State.setStatus (.transition id) .normal)
    Walk.verdict (.transition id) t.labelText t.reverse result

variable [Clock κ τ] [RandomSource ρ]

/-- Lead on through a transition.  Where as many node ticks are in progress as may be, all that is done
for its end is the report that it is refused; the siblings go on or not as ever. -/
def follow (visit : NodeId → Walk κ τ ρ Unit) (id : TransitionId) (t : Transition κ) :
    Walk κ τ ρ Bool := do
  confirm g earlier fault 0
  if !(← Walk.rollGates id t) then return true
  Walk.change (State.mark (.transition id))
  if !(← passesGuard g earlier fault id t) then return true
  Walk.record (.opened id)
  let s ← get
  if nesting (s.since earlier) = g.config.maxTickDepth then
    Walk.report (.depthExceeded t.finish g.config.maxTickDepth)
  else visit t.finish
  return !t.terminatesGroup

def tickTransition (visit : NodeId → Walk κ τ ρ Unit) (id : TransitionId) : Walk κ τ ρ Bool := do
  match g.transition? id with
  | none => return true
  | some t =>
    Walk.record (.ticked id)
    if t.capturesControl then modify (Session.switchTo g t.start)
    follow g earlier fault visit id t

def visit : Nat → NodeId → Walk κ τ ρ Unit
  | 0, _ => throw fault
  | budget + 1, id => do
    Walk.change fun s => { s with depth := s.depth + 1 }
    confirm g earlier fault 1
    match g.node? id with
    | some n => runNode g earlier fault id n (tickTransition g earlier fault (visit budget))
    | none => pure ()
    Walk.change fun s => { s with depth := s.depth - 1 }

end Walks

def tick [Clock κ τ] [RandomSource ρ] (g : Graph κ) (fault : Abort) : Walk κ τ ρ Unit := do
  let earlier ← get
  Walk.change State.sweep
  let now ← Walk.readClock
  modify (Session.handOver g now)
  let s ← get
  Walk.report (.tickStarted s.state.control)
  Walk.change fun s => { s with depth := 0 }
  visit g earlier fault g.config.maxTickDepth s.state.control
  Walk.change State.sweep
  let s ← get
  Walk.report (.tickEnded s.state.control)

/-! ## Agreement -/

section Agreement

open Walk (AgreesOn)

variable {g : Graph κ} {earlier s : Session κ τ ρ} {fault : Abort} {id : NodeId} {n : Node κ}
  {k begun : Nat}

theorem confirm_eq (hk : k + begun ≤ g.config.maxTickDepth)
    (hs : Nested g earlier.journal.toList (k + begun) k s) :
    confirm g earlier fault begun s = .ok () s := by
  have hnesting : nesting (s.since earlier) = k := hs.journal.since.2
  unfold confirm
  rw [if_pos]
  rw [hs.depth, hnesting]
  exact ⟨rfl, hk⟩

theorem agrees_confirm (begun : Nat) (hk : k + begun ≤ g.config.maxTickDepth) {w w' : Walk κ τ ρ α}
    (h : AgreesOn (Nested g earlier.journal.toList (k + begun) k) w w') :
    AgreesOn (Nested g earlier.journal.toList (k + begun) k) w
      (confirm g earlier fault begun >>= fun _ => w') := by
  intro s hs
  left
  show EStateM.bind (confirm g earlier fault begun) (fun _ => w') s = w s
  simp only [EStateM.bind, confirm_eq hk hs]
  exact h.eq hs

theorem agrees_runHook (hk : k ≤ g.config.maxTickDepth) (call : Call) (hook : Option (Hook κ)) :
    AgreesOn (Nested g earlier.journal.toList k k) (Walk.runHook call hook)
      (runHook g earlier fault call hook) :=
  agrees_confirm 0 hk (.refl _)

theorem agrees_invoke [OfValue α] (hk : k ≤ g.config.maxTickDepth) (call : Call)
    (callback : Callback κ α) :
    AgreesOn (Nested g earlier.journal.toList k k) (Walk.invoke call callback)
      (invoke g earlier fault call callback) :=
  agrees_confirm 0 hk (.refl _)

theorem agrees_enter (hk : k < g.config.maxTickDepth) :
    AgreesOn (Nested g earlier.journal.toList (k + 1) k) (Walk.enter g id n : Walk κ τ ρ Bool)
      (enter g earlier fault id n) := by
  have hloose := Nested.loose (τ := τ) (ρ := ρ) g earlier.journal.toList (k + 1) (k + 1)
  have hentered (s : Session κ τ ρ) (hs : Nested g earlier.journal.toList (k + 1) k s) :
      (Walk.record (.entered id)).Leads s
        (fun _ => Nested g earlier.journal.toList (k + 1) (k + 1)) fun _ => True := hs.enter hk id
  unfold Walk.enter enter
  refine .ite ?_ (.after (J := fun _ => Nested g earlier.journal.toList (k + 1) k) (fun _ hs => hs)
    fun _ => ?_)
  · exact .after hentered fun _ => (agrees_runHook hk _ _).before _
  · refine .ite (.refl _) (.after hentered fun _ => ?_)
    exact .after (Walk.keeps_change fun s hs => hloose.mark s _ hs).led fun _ =>
      (agrees_runHook hk _ _).before _

theorem agrees_leave (hk : k ≤ g.config.maxTickDepth) :
    AgreesOn (Nested g earlier.journal.toList k k) (Walk.leave g id n : Walk κ τ ρ Unit)
      (leave g earlier fault id n) := by
  have hloose := Nested.loose (τ := τ) (ρ := ρ) g earlier.journal.toList k k
  have hrelax : Walk.Keeps (Nested g earlier.journal.toList k k)
      (Walk.change (State.relax g .visited (.node id)) : Walk κ τ ρ Unit) :=
    Walk.keeps_change fun s hs => hloose.relax s .visited _ hs
  unfold Walk.leave leave
  refine .after (J := fun _ => Nested g earlier.journal.toList k k) (fun _ hs => hs) fun _ => ?_
  exact .ite (.after hrelax.led fun _ => (agrees_runHook hk _ _).before _)
    ((agrees_runHook hk _ _).before _)

theorem agrees_scoreBranches (hk : k ≤ g.config.maxTickDepth) (label : String)
    (branches : List (Branch κ)) (index : Nat) (best : Option (Nat × Float32)) :
    AgreesOn (Nested g earlier.journal.toList k k)
      (Walk.scoreBranches id label index best branches)
      (scoreBranches g earlier fault id label index best branches) := by
  have hloose := Nested.loose (τ := τ) (ρ := ρ) g earlier.journal.toList k k
  induction branches generalizing index best with
  | nil => exact .refl _
  | cons branch branches ih =>
      have hscorer : Walk.Keeps (Nested g earlier.journal.toList k k)
          (Walk.invoke (.scorer id index) branch.scorer : Walk κ τ ρ (Except CallbackError Float32)) :=
        hloose.invoke (fun _ _ _ => trivial) _
      unfold Walk.scoreBranches scoreBranches
      refine (agrees_invoke hk _ _).then hscorer.led fun result => ?_
      cases result with
      | ok raw => exact .after (Walk.keeps_evaluate _ _).led fun _ => ih _ _
      | error error =>
          exact .after (hloose.fail (fun _ _ _ => trivial) _ _ _).led fun _ => ih _ _

theorem agrees_choose (hk : k ≤ g.config.maxTickDepth) :
    AgreesOn (Nested g earlier.journal.toList k k) (Walk.choose id n : Walk κ τ ρ (Option Port))
      (choose g earlier fault id n) := by
  unfold Walk.choose choose
  cases n.behaviour with
  | entry => exact .refl _
  | action callback => exact (agrees_invoke hk _ _).before _
  | condition guard reverse => exact (agrees_invoke hk _ _).before _
  | loop guard reverse => exact (agrees_invoke hk _ _).before _
  | utility branches => exact (agrees_scoreBranches hk _ _ _ _).before _

theorem agrees_runNode (hk : k < g.config.maxTickDepth) {tick tick' : TransitionId → Walk κ τ ρ Bool}
    (htick : ∀ t, AgreesOn (Nested g earlier.journal.toList (k + 1) (k + 1)) (tick t) (tick' t))
    (hleads : ∀ t s, Nested g earlier.journal.toList (k + 1) (k + 1) s →
      (tick t).Leads s (fun _ => Nested g earlier.journal.toList (k + 1) (k + 1)) fun _ => True) :
    AgreesOn (Nested g earlier.journal.toList (k + 1) k) (Walk.runNode g id n tick)
      (runNode g earlier fault id n tick') := by
  have hloose := Nested.loose (τ := τ) (ρ := ρ) g earlier.journal.toList (k + 1) (k + 1)
  unfold Walk.runNode runNode
  refine (agrees_enter hk).then (fun _ hs => hs.leads_enter hk) fun goes => ?_
  cases goes with
  | false => exact .refl _
  | true =>
      have hchoose :=
        Nested.keeps_choose (τ := τ) (ρ := ρ) g earlier.journal.toList id n (k + 1) (k + 1)
      refine (agrees_choose hk).then hchoose.led fun port => ?_
      refine .after (Walk.keeps_modify fun s hs => hloose.commit s id n port trivial hs).led fun _ => ?_
      cases port with
      | none => exact agrees_leave hk
      | some port =>
          have hfan : AgreesOn (Nested g earlier.journal.toList (k + 1) (k + 1))
              (Walk.fanOut tick (g.exits id port)) (Walk.fanOut tick' (g.exits id port)) :=
            Walk.agrees_fanOut htick hleads (fun _ _ hs => hs.elim) _
          exact hfan.then (fun s hs => Walk.leads_fanOut hleads _ hs) fun _ => agrees_leave hk

theorem agrees_passesGuard (hk : k ≤ g.config.maxTickDepth) (t : TransitionId) (tr : Transition κ) :
    AgreesOn (Nested g earlier.journal.toList k k) (Walk.passesGuard t tr : Walk κ τ ρ Bool)
      (passesGuard g earlier fault t tr) := by
  unfold Walk.passesGuard passesGuard
  cases tr.guard with
  | none => exact .refl _
  | some guard => exact (agrees_invoke hk _ _).before _

/-- A transition that opens ticks its end as measured, or its end is refused. -/
theorem agrees_opened {visit visit' : NodeId → Walk κ τ ρ Unit} {t : TransitionId} {tr : Transition κ}
    (hrefused : k = g.config.maxTickDepth →
      visit tr.finish = Walk.report (.depthExceeded tr.finish g.config.maxTickDepth))
    (hvisit : k < g.config.maxTickDepth →
      AgreesOn (Nested g earlier.journal.toList k k) (visit tr.finish) (visit' tr.finish))
    (hk : k ≤ g.config.maxTickDepth) :
    AgreesOn (Nested g earlier.journal.toList k k)
      (do
        Walk.record (.opened t)
        visit tr.finish
        return !tr.terminatesGroup : Walk κ τ ρ Bool)
      (do
        Walk.record (.opened t)
        let s ← get
        if nesting (s.since earlier) = g.config.maxTickDepth then
          Walk.report (.depthExceeded tr.finish g.config.maxTickDepth)
        else visit' tr.finish
        return !tr.terminatesGroup) := by
  refine .after (J := fun _ s => nesting (s.since earlier) = k ∧
    (k < g.config.maxTickDepth → Nested g earlier.journal.toList k k s)) (fun s hs => ?_)
    fun _ => AgreesOn.look fun s hs => ?_
  · have hopened : (s.record (.opened t)).Adds earlier.journal.toList fun events => nesting events = k :=
      hs.journal.record _ fun events hevents => by
        rw [nesting_snoc, hevents.2]
        exact Int.add_zero _
    exact ⟨hopened.since, fun hroom => hs.opened hroom t⟩
  · obtain ⟨hnesting, hroom⟩ := hs
    dsimp only
    split
    next hfull => rw [hrefused (by omega)]
    next hfree =>
      have hlt : k < g.config.maxTickDepth := by omega
      exact ((hvisit hlt).before _).eq (hroom hlt)

variable [Clock κ τ] [RandomSource ρ]

theorem agrees_follow {visit visit' : NodeId → Walk κ τ ρ Unit} {t : TransitionId} {tr : Transition κ}
    (hrefused : k = g.config.maxTickDepth →
      visit tr.finish = Walk.report (.depthExceeded tr.finish g.config.maxTickDepth))
    (hvisit : k < g.config.maxTickDepth →
      AgreesOn (Nested g earlier.journal.toList k k) (visit tr.finish) (visit' tr.finish))
    (hk : k ≤ g.config.maxTickDepth) :
    AgreesOn (Nested g earlier.journal.toList k k) (Walk.follow visit t tr)
      (follow g earlier fault visit' t tr) := by
  have hloose := Nested.loose (τ := τ) (ρ := ρ) g earlier.journal.toList k k
  have hgates : Walk.Keeps (Nested g earlier.journal.toList k k)
      (Walk.rollGates t tr : Walk κ τ ρ Bool) :=
    hloose.keeps_rollGates (fun _ _ _ => trivial) (fun _ _ => trivial)
      (fun s firing hs => hs.setFiring t firing) tr
  have hguard : Walk.Keeps (Nested g earlier.journal.toList k k)
      (Walk.passesGuard t tr : Walk κ τ ρ Bool) :=
    hloose.passesGuard (fun _ _ _ => trivial) (fun _ _ _ => trivial) tr
  unfold Walk.follow follow
  refine agrees_confirm 0 hk (.after hgates.led fun opens => .ite (.refl _) ?_)
  refine .after (Walk.keeps_change fun s hs => hloose.mark s _ hs).led fun _ => ?_
  refine (agrees_passesGuard hk t tr).then hguard.led fun passes => .ite (.refl _) ?_
  exact agrees_opened hrefused hvisit hk

theorem agrees_tickTransition (hk : k ≤ g.config.maxTickDepth)
    {visit visit' : NodeId → Walk κ τ ρ Unit}
    (hrefused : k = g.config.maxTickDepth →
      ∀ id, visit id = Walk.report (.depthExceeded id g.config.maxTickDepth))
    (hvisit : k < g.config.maxTickDepth →
      ∀ id, AgreesOn (Nested g earlier.journal.toList k k) (visit id) (visit' id)) (t : TransitionId) :
    AgreesOn (Nested g earlier.journal.toList k k) (Walk.tickTransition g visit t)
      (tickTransition g earlier fault visit' t) := by
  have hloose := Nested.loose (τ := τ) (ρ := ρ) g earlier.journal.toList k k
  unfold Walk.tickTransition tickTransition
  cases g.transition? t with
  | none => exact .refl _
  | some tr =>
      have hfollow : AgreesOn (Nested g earlier.journal.toList k k) (Walk.follow visit t tr)
          (follow g earlier fault visit' t tr) :=
        agrees_follow (fun hfull => hrefused hfull tr.finish) (fun hroom => hvisit hroom tr.finish) hk
      refine .after (Walk.keeps_record fun s hs => hloose.record s (.ticked t) trivial hs).led
        fun _ => .ite ?_ hfollow
      exact .after (Walk.keeps_modify fun s hs => hloose.switchTo s tr.start hs).led fun _ => hfollow

/-- Below the limit node ticks go as measured. -/
theorem agrees_visit {budget : Nat} (hbudget : k + budget = g.config.maxTickDepth)
    (hk : k < g.config.maxTickDepth) (id : NodeId) :
    AgreesOn (Nested g earlier.journal.toList k k) (Walk.visit g budget id)
      (visit g earlier fault budget id) := by
  induction budget generalizing k id with
  | zero => omega
  | succ budget ih =>
      have hdeeper : k + 1 + budget = g.config.maxTickDepth := by omega
      have htick (t : TransitionId) :
          AgreesOn (Nested g earlier.journal.toList (k + 1) (k + 1))
            (Walk.tickTransition g (Walk.visit g budget) t)
            (tickTransition g earlier fault (visit g earlier fault budget) t) := by
        refine agrees_tickTransition hk (fun hfull id => ?_) (fun hroom id => ih hdeeper hroom id) t
        obtain rfl : budget = 0 := by omega
        rfl
      have hleads (t : TransitionId) (s : Session κ τ ρ)
          (hs : Nested g earlier.journal.toList (k + 1) (k + 1) s) :=
        Nested.leads_tickTransition hdeeper (fun id s hs => Nested.leads_visit hdeeper hs) t hs
      unfold Walk.visit visit
      refine .after (J := fun _ => Nested g earlier.journal.toList (k + 1) k)
        (fun s hs => ⟨congrArg (· + 1) hs.depth, hs.journal⟩) fun _ => agrees_confirm 1 hk ?_
      cases g.node? id with
      | none => exact .refl _
      | some n => exact (agrees_runNode hk htick hleads).before _

theorem tick_eq (hlimit : 0 < g.config.maxTickDepth) (fault : Abort) (s : Session κ τ ρ) :
    tick g fault s = Walk.tick g s := by
  have hvisit : AgreesOn (Nested g s.journal.toList 0 0)
      (Walk.visit g g.config.maxTickDepth (s.walkStart g).state.control)
      (visit g s fault g.config.maxTickDepth (s.walkStart g).state.control) :=
    agrees_visit (Nat.zero_add _) hlimit _
  rw [Walk.tick_eq]
  exact (hvisit.before _).eq (s.nested_walkStart g)

end Agreement

end Measured

end BehaviourGraph
