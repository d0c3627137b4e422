import BehaviourGraph.Proofs.Building
import BehaviourGraph.Proofs.Walk.Measured

/-!
# The depth limit

A walk refuses exactly the nodes that a transition leads to while as many node ticks are in progress as
the limit allows, and otherwise goes its way.  It looks at the limit only there and reports every
refusal.  So a tick that refuses nothing goes the same way under every higher limit, however long it is:
walks under two limits agree unless the first has refused a node by the time it ends or breaks off.
-/

namespace BehaviourGraph

variable {κ τ ρ : Type}

def Graph.withMaxTickDepth (g : Graph κ) (depth : Nat) : Graph κ :=
  { g with config := { g.config with maxTickDepth := depth } }

def Event.isRefusal : Event κ → Bool
  | .reported (.depthExceeded _ _) => true
  | _ => false

/-! ## Keeping to the limit -/

/-- If node ticks may be nested at all, every tick goes as measured, whether or not it is broken off.  The
events of one that is done keep to the limit: at no point more nodes have been entered than left by more
than the limit, each transition that opens at the limit has its end refused, and nothing else is refused.
In the end no node tick is in progress. -/
theorem depth_discipline [Clock κ τ] [RandomSource ρ] (g : Graph κ)
    (hlimit : 0 < g.config.maxTickDepth) (s : Session κ τ ρ) :
    (∀ fault, Measured.tick g fault s = Walk.tick g s) ∧
      ∀ s', s.perform g .tick = (.done, s') →
        g.Disciplined (s'.since s) ∧ nesting (s'.since s) = 0 ∧ s'.state.depth = 0 := by
  refine ⟨fun fault => Measured.tick_eq hlimit fault s, fun s' htick => ?_⟩
  have hended := (Walk.leads_tick_nested hlimit s).ends_of_run htick
  obtain ⟨hdisciplined, hnesting⟩ := hended.journal.since
  exact ⟨hdisciplined, hnesting, hended.depth⟩

/-- The entry, a node that takes control and leads back to itself, and another beside that. -/
def runawayGraph : Graph Nat :=
  .ofSteps [.add "again" (.action (.noArgs fun n => .ok (.ok ()) (n + 1))) [.captureControl true],
    .add "beside" (.action (.noArgs fun n => .ok (.ok ()) (n + 10))) [],
    .link entryNode ⟨1⟩, .link ⟨1⟩ ⟨1⟩, .link ⟨1⟩ ⟨2⟩] { maxTickDepth := 3 }

def runawayStart : Session Nat ManualClock Xoshiro :=
  .start runawayGraph 0 (ManualClock.mk 0.0) (Xoshiro.ofSeed 0)

def runawayTicked : Session Nat ManualClock Xoshiro :=
  (runawayStart.perform runawayGraph .tick).2

/-- At the third nested node tick both of its transitions have their ends refused; the second then leads
on from the node tick above. -/
theorem runaway_disciplined :
    Measured.tick runawayGraph .noDraw runawayStart = Walk.tick runawayGraph runawayStart ∧
      runawayGraph.Disciplined (runawayTicked.since runawayStart) ∧
      runawayTicked.state.depth = 0 ∧ runawayTicked.context = 12 ∧
      ((runawayTicked.since runawayStart).filter Event.isRefusal).length = 2 := by
  have hdone : (runawayStart.perform runawayGraph .tick).1.isDone = true := by decide +kernel
  obtain ⟨hmeasured, hended⟩ := depth_discipline runawayGraph (by decide) runawayStart
  obtain ⟨hdisciplined, _, hdepth⟩ := hended runawayTicked (Session.perform_eq_done hdone)
  exact ⟨hmeasured .noDraw, hdisciplined, hdepth, by decide +kernel, by decide +kernel⟩

namespace Walk

/-! ## Walks under two limits -/

section Limits

variable {g : Graph κ} {I P : Session κ τ ρ → Prop} (hI : Stable g I) (hP : Stable g P)
include hI hP

theorem agrees_runNode {tick tick' : TransitionId → Walk κ τ ρ Bool}
    (htick : ∀ t, AgreesUnless I P (tick t) (tick' t)) (hkeepsI : ∀ t, Keeps I (tick t))
    (hkeepsP : ∀ t, Keeps P (tick t)) (id : NodeId) (n : Node κ) :
    AgreesUnless I P (runNode g id n tick) (runNode g id n tick') := by
  refine .after (hI.robust.keeps_enter id n).led fun goes => .ite ?_ (.refl _)
  refine .after (hI.robust.keeps_choose id n).led fun port => ?_
  refine .after (keeps_modify fun s hs => hI.commit s id n port hs).led fun _ => ?_
  cases port with
  | none => exact .refl _
  | some port =>
      have hfan := agrees_fanOut htick (fun t => (hkeepsI t).led) hkeepsP (g.exits id port)
      exact hfan.bind (Keeps.fanOut hkeepsI _).led (fun _ => .refl _) fun _ => hP.robust.keeps_leave id n

variable [Clock κ τ] [RandomSource ρ]

omit hP in
theorem agrees_tickTransition {visit visit' : NodeId → Walk κ τ ρ Unit}
    (hvisit : ∀ id, AgreesUnless I P (visit id) (visit' id)) (hkeeps : ∀ id, Keeps I (visit id))
    (t : TransitionId) :
    AgreesUnless I P (tickTransition g visit t) (tickTransition g visit' t) := by
  have hrecord (e : Event κ) : Keeps I (record e : Walk κ τ ρ Unit) :=
    keeps_record fun s hs => hI.record s e trivial hs
  unfold tickTransition
  cases g.transition? t with
  | none => exact .refl _
  | some tr =>
      have hfollow : AgreesUnless I P (follow visit t tr) (follow visit' t tr) := by
        refine .after (hI.keeps_rollGates t tr).led fun opens => .ite (.refl _) ?_
        refine .after (keeps_change fun s hs => hI.mark s _ hs).led fun _ => ?_
        have hguard : Keeps I (passesGuard t tr : Walk κ τ ρ Bool) :=
          hI.passesGuard (fun _ _ _ => trivial) (fun _ _ _ => trivial) tr
        refine .after hguard.led fun passes => .ite (.refl _) (.after (hrecord _).led fun _ => ?_)
        exact (hvisit tr.finish).bind (hkeeps tr.finish).led (fun _ => .refl _) fun _ => .pure _
      refine .after (hrecord _).led fun _ => .ite ?_ hfollow
      exact .after (keeps_modify fun s hs => hI.switchTo s tr.start hs).led fun _ => hfollow

/-- Under a higher limit a node tick does the same unless a node is refused. -/
theorem agrees_visit (hrefused : ∀ s id limit, I s → P (s.report (.depthExceeded id limit)))
    (depth : Nat) {budget budget' : Nat} (hle : budget ≤ budget') (id : NodeId) :
    AgreesUnless I P (visit g budget id) (visit (g.withMaxTickDepth depth) budget' id) := by
  induction budget generalizing budget' id with
  | zero => exact fun s hs => .inr (hrefused s id _ hs)
  | succ budget ih =>
      cases budget' with
      | zero => omega
      | succ budget' =>
          have hdeeper (id : NodeId) := ih (Nat.le_of_succ_le_succ hle) id
          have hkeepsI (id : NodeId) := hI.keeps_visit budget id
          have hkeepsP (id : NodeId) := hP.keeps_visit budget id
          have hdepth : Keeps I (change fun a => { a with depth := a.depth + 1 } : Walk κ τ ρ Unit) :=
            keeps_change fun s hs => hI.setDepth s (fun a => a.depth + 1) hs
          refine .after hdepth.led fun _ => ?_
          have hnode : (g.withMaxTickDepth depth).node? id = g.node? id := rfl
          rw [hnode]
          cases g.node? id with
          | none => exact .refl _
          | some n =>
              have hticks := hI.keeps_tickTransition hkeepsI
              have hrun := agrees_runNode hI hP (agrees_tickTransition hI hdeeper hkeepsI) hticks
                (hP.keeps_tickTransition hkeepsP) id n
              exact hrun.bind (hI.robust.keeps_runNode hticks id n).led
                (fun _ => .refl _) fun _ => keeps_change fun s hs => hP.setDepth s _ hs

theorem agrees_tick (hrefused : ∀ s id limit, I s → P (s.report (.depthExceeded id limit)))
    {depth : Nat} (hle : g.config.maxTickDepth ≤ depth) :
    AgreesUnless I P (tick g) (tick (g.withMaxTickDepth depth)) := by
  intro s hs
  have hstart : s.walkStart (g.withMaxTickDepth depth) = s.walkStart g := rfl
  unfold Leads
  rw [tick_eq, tick_eq, hstart]
  refine AgreesUnless.bind (agrees_visit hI hP hrefused depth hle _) (hI.keeps_visit _ _).led
    (fun _ => .refl _) (fun _ => ?_) _ (hI.walkStart hs)
  refine .bind (keeps_change fun s hs => hP.sweep s hs) fun _ => ?_
  exact fun s hs => hP.report s _ hs

end Limits

end Walk

/-! ## Ticks under two limits -/

/-- A tick that refuses no node has the same response under every higher limit and ends in the same
session, whether or not it is broken off. -/
theorem perform_tick_of_no_refusal [Clock κ τ] [RandomSource ρ] (g : Graph κ) (s : Session κ τ ρ)
    {depth : Nat} (hle : g.config.maxTickDepth ≤ depth)
    (hnone : ∀ e ∈ (s.perform g .tick).2.since s, e.isRefusal = false) :
    s.perform (g.withMaxTickDepth depth) .tick = s.perform g .tick := by
  have hgrown : Stable (τ := τ) (ρ := ρ) g fun s' => s'.Adds s.journal.toList fun _ => True :=
    Session.Adds.stable g fun _ _ _ => trivial
  have hrefuses : Stable (τ := τ) (ρ := ρ) g fun s' =>
      s'.Adds s.journal.toList fun events => ∃ e ∈ events, e.isRefusal = true :=
    Session.Adds.stable g fun _ _ ⟨e, he, hrefusal⟩ => ⟨e, List.mem_append_left _ he, hrefusal⟩
  have hrefused (s' : Session κ τ ρ) (id : NodeId) (limit : Nat)
      (h : s'.Adds s.journal.toList fun _ => True) :
      (s'.report (.depthExceeded id limit)).Adds s.journal.toList
        fun events => ∃ e ∈ events, e.isRefusal = true :=
    h.record _ fun events _ => ⟨_, List.mem_append_right events List.mem_cons_self, rfl⟩
  rcases Walk.agrees_tick hgrown hrefuses hrefused hle s (.nil trivial) with hsame | hled
  · simp only [Session.perform, Session.run, hsame]
  · -- a refusal would be among the events of the tick
    obtain ⟨e, he, hrefusal⟩ := hled.run.since
    have hquiet := hnone e he
    rw [hrefusal] at hquiet
    cases hquiet

/-- The entry and two actions that lead to each other.  A walk nests as many node ticks as there are
nodes, and one more for the action that it comes back to. -/
def carouselGraph (depth : Nat) : Graph Nat :=
  .ofSteps [.add "up" (.action (.noArgs fun n => .ok (.ok ()) (n + 1))) [],
    .add "down" (.action (.noArgs fun n => .ok (.ok ()) (n * 3))) [],
    .link entryNode ⟨1⟩, .link ⟨1⟩ ⟨2⟩, .link ⟨2⟩ ⟨1⟩] { maxTickDepth := depth }

def carouselStart (depth : Nat) : Session Nat ManualClock Xoshiro :=
  .start (carouselGraph depth) 1 (ManualClock.mk 0.0) (Xoshiro.ofSeed 0)

def carouselTurned (depth : Nat) : Session Nat ManualClock Xoshiro :=
  ((carouselStart depth).perform (carouselGraph depth) .tick).2

theorem carousel_turns_alike :
    (∀ e ∈ (carouselTurned 4).since (carouselStart 4), e.isRefusal = false) ∧
      (carouselStart 4).perform ((carouselGraph 4).withMaxTickDepth 256) .tick =
        (carouselStart 4).perform (carouselGraph 4) .tick ∧
      (carouselTurned 4).context = 6 ∧
      ∃ e ∈ (carouselTurned 3).since (carouselStart 3), e.isRefusal = true := by
  have hnone : ∀ e ∈ (carouselTurned 4).since (carouselStart 4), e.isRefusal = false := by
    decide +kernel
  exact ⟨hnone, perform_tick_of_no_refusal _ _ (by decide) hnone, by decide +kernel,
    by decide +kernel⟩

end BehaviourGraph
