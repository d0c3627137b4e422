import BehaviourGraph.Proofs.Cooldowns
import BehaviourGraph.Proofs.HandOffs
import BehaviourGraph.Proofs.Walk.Lockstep

/-!
# Ungated graphs

A run asks its clock where a tick begins, to find the hand-offs that are due, and where a transition rolls
its gates; it asks its random source at the gates only.  If nothing is handed off and no transition has a
probability or a cooldown, all of these answers are lost: the time that the clock tells is written down
where a transition fires and goes nowhere else.  So hosts that differ in clocks and random sources see the
same run.
-/

namespace BehaviourGraph

variable {κ τ ρ τ' ρ' : Type}

structure Graph.Ungated (g : Graph κ) : Prop where
  chance : ∀ t tr, g.transition? t = some tr → tr.probability.isAlways = true
  cooldown : ∀ t tr, g.transition? t = some tr → tr.cooldown.isZero = true

/-- The same move of two hosts with clocks and random sources of their own.  It hands nothing off. -/
inductive Move.Shared : Move κ τ ρ → Move κ τ' ρ' → Prop where
  | request (operation : Operation) (h : ∀ id due, operation ≠ .resumeAt id due) :
      Shared (.request operation) (.request operation)
  | surround (context : κ) (clock : τ) (random : ρ) (clock' : τ') (random' : ρ') :
      Shared (.surround context clock random) (.surround context clock' random')

def Event.timeless : Event κ → Event κ
  | .fired t _ cooldown => .fired t 0.0 cooldown
  | e => e

/-! ## Sessions that differ in time and chance -/

/-- Two sessions differ at most in their clocks, their random sources and the times of firings. -/
structure Session.Aligned (s : Session κ τ ρ) (s' : Session κ τ' ρ') : Prop where
  state : s.state = s'.state
  context : s.context = s'.context
  journal : s.journal.map Event.timeless = s'.journal.map Event.timeless

namespace Session.Aligned

variable {s : Session κ τ ρ} {s' : Session κ τ' ρ'} (h : s.Aligned s')
include h

theorem change (f : State → State) : (s.change f).Aligned (s'.change f) :=
  ⟨congrArg f h.state, h.context, h.journal⟩

theorem surround (context : κ) (clock : τ) (random : ρ) (clock' : τ') (random' : ρ') :
    Session.Aligned { s with context, clock, random }
      { s' with context := context, clock := clock', random := random' } :=
  ⟨h.state, rfl, h.journal⟩

theorem setClock (clock : τ) (clock' : τ') :
    Session.Aligned { s with clock } { s' with clock := clock' } :=
  ⟨h.state, h.context, h.journal⟩

theorem record {e e' : Event κ} (he : e.timeless = e'.timeless) :
    (s.record e).Aligned (s'.record e') := by
  refine ⟨h.state, h.context, ?_⟩
  simp only [Session.record, Array.map_push, h.journal, he]

end Session.Aligned

theorem mirrored_aligned :
    Walk.Mirrored (Session.Aligned : Session κ τ ρ → Session κ τ' ρ' → Prop) where
  context _ _ hs := hs.context
  control _ _ hs := congrArg State.control hs.state
  queue _ _ hs := congrArg State.queue hs.state
  visited _ _ e hs := congrArg (State.has · .visited e) hs.state
  setContext _ _ _ hs := ⟨hs.state, rfl, hs.journal⟩
  record _ _ _ hs := hs.record rfl
  setNormal _ _ _ hs := hs.change _
  demote _ _ _ _ hs := hs.change _
  setDepth _ _ depth hs := hs.change fun a => { a with depth := depth a.depth }
  mark _ _ _ hs := hs.change _
  relax _ _ _ _ _ hs := hs.change _
  setControl _ _ _ hs := hs.change _
  sweep _ _ hs := hs.change _
  setQueue _ _ queue hs := hs.change fun a => { a with queue := queue a.queue }

theorem mirrored_eq : Walk.Mirrored (Eq : Session κ τ ρ → Session κ τ ρ → Prop) where
  context _ _ hs := congrArg Session.context hs
  control _ _ hs := congrArg (fun s => s.state.control) hs
  queue _ _ hs := congrArg (fun s => s.state.queue) hs
  visited _ _ e hs := congrArg (fun s => s.state.has .visited e) hs
  setContext _ _ context hs := congrArg (fun s => { s with context }) hs
  record _ _ e hs := congrArg (Session.record e) hs
  setNormal _ _ _ hs := congrArg (Session.change _) hs
  demote _ _ _ _ hs := congrArg (Session.change _) hs
  setDepth _ _ depth hs := congrArg (Session.change fun a => { a with depth := depth a.depth }) hs
  mark _ _ _ hs := congrArg (Session.change _) hs
  relax _ _ _ _ _ hs := congrArg (Session.change _) hs
  setControl _ _ _ hs := congrArg (Session.change _) hs
  sweep _ _ hs := congrArg (Session.change _) hs
  setQueue _ _ queue hs := congrArg (Session.change fun a => { a with queue := queue a.queue }) hs

/-! ## Gates that are always open -/

/-- A transition without gates has fired: the clock was read and the time written down. -/
def Session.fire [Clock κ τ] (t : TransitionId) (s : Session κ τ ρ) : Session κ τ ρ :=
  { s with clock := (Clock.read s.context s.clock).2 }.record (.fired t s.reading none)

section Gates

variable [Clock κ τ] [Clock κ τ'] [RandomSource ρ] [RandomSource ρ'] {g : Graph κ}
  {R : Session κ τ ρ → Session κ τ' ρ' → Prop} {s : Session κ τ ρ} {s' : Session κ τ' ρ'}

theorem Graph.Ungated.rollGates_eq (hg : g.Ungated) {t : TransitionId} {tr : Transition κ}
    (htr : g.transition? t = some tr) (s : Session κ τ ρ) :
    (Walk.rollGates t tr : Walk κ τ ρ Bool) s = .ok true (s.fire t) :=
  Walk.rollGates_of_ungated (hg.chance t tr htr) (hg.cooldown t tr htr) t s

/-- Whatever lasts while both sides fire does not see which clocks and random sources they have. -/
theorem Graph.Ungated.parallel (hg : g.Ungated) (h : Walk.Mirrored R)
    (hfire : ∀ s s' t, R s s' → R (s.fire t) (s'.fire t)) : Walk.Parallel R g g := by
  apply h.parallel_self
  intro t tr htr s s' hs
  rw [hg.rollGates_eq htr, hg.rollGates_eq htr]
  exact .ends rfl (hfire s s' t hs)

omit [RandomSource ρ] [RandomSource ρ'] in
theorem Session.Aligned.fire (h : s.Aligned s') (t : TransitionId) : (s.fire t).Aligned (s'.fire t) :=
  (h.setClock _ _).record rfl

end Gates

/-! ## Runs without hand-offs -/

section Runs

variable [Clock κ τ] [RandomSource ρ] {g : Graph κ} {s : Session κ τ ρ}

omit [Clock κ τ] [RandomSource ρ] in
theorem Session.handOver_of_idle (hidle : s.state.queue.entries = []) (now : Float) :
    s.handOver g now = s := by
  have hqueue : s.state.queue = ⟨[]⟩ := congrArg ResumeQueue.mk hidle
  have hdrained : s.state.queue.drainDue now = ([], ⟨[]⟩) := by simp [ResumeQueue.drainDue, hidle]
  unfold Session.handOver
  rw [hdrained, ← hqueue]
  rfl

/-- Only a request for a hand-off fills the queue. -/
theorem Session.idle_perform (hidle : s.state.queue.entries = []) {operation : Operation}
    (hnone : ∀ id due, operation ≠ .resumeAt id due) :
    (s.perform g operation).2.state.queue.entries = [] := by
  have hpromised : s.promised? g (.request operation) = none := by
    cases operation with
    | resumeAt id due => exact (hnone id due rfl).elim
    | _ => rfl
  have horderly : s.state.queue.Orderly := by
    constructor
    · simp [hidle]
    · simp [hidle]
  have hkept := entries_of_not_promised horderly hpromised
  rw [hidle] at hkept
  exact hkept

variable [Clock κ τ'] [RandomSource ρ'] {s' : Session κ τ' ρ'}

omit [RandomSource ρ] [RandomSource ρ'] in
theorem Session.Aligned.walkStart (h : s.Aligned s') (hidle : s.state.queue.entries = []) :
    (s.walkStart g).Aligned (s'.walkStart g) := by
  have hidle' : s'.state.queue.entries = [] := by rw [← h.state, hidle]
  have hcontrol : s.state.control = s'.state.control := congrArg State.control h.state
  unfold Session.walkStart
  dsimp only
  rw [handOver_of_idle, handOver_of_idle]
  · apply change
    apply record ((h.change State.sweep).setClock _ _)
    exact congrArg (fun id => Event.reported (.tickStarted id)) hcontrol
  · exact hidle'
  · exact hidle

/-- A shared move keeps sessions aligned as long as nothing has been handed off. -/
theorem Move.Shared.matches (hg : g.Ungated) {move : Move κ τ ρ} {move' : Move κ τ' ρ'}
    (h : move.Shared move') :
    Move.Matches (fun s s' => s.Aligned s' ∧ s.state.queue.entries = []) g g move move' := by
  cases h with
  | request operation hnone =>
      apply Move.Matches.request
      intro s s' hs
      obtain ⟨haligned, hidle⟩ := hs
      have hparallel : Walk.Parallel (Session.Aligned : Session κ τ ρ → Session κ τ' ρ' → Prop) g g :=
        hg.parallel mirrored_aligned fun _ _ t hs => hs.fire t
      obtain ⟨hresponse, hafter⟩ := mirrored_aligned.perform hparallel operation haligned
        fun _ => haligned.walkStart hidle
      exact ⟨hresponse, hafter, Session.idle_perform hidle hnone⟩
  | surround context clock random clock' random' =>
      apply Move.Matches.surround
      intro s s' hs
      exact ⟨hs.1.surround context clock random clock' random', hs.2⟩

theorem Session.Aligned.play (hg : g.Ungated) (h : s.Aligned s') (hidle : s.state.queue.entries = [])
    {moves : List (Move κ τ ρ)} {moves' : List (Move κ τ' ρ')}
    (hmoves : List.Forall₂ Move.Shared moves moves') :
    (s.play g moves).1 = (s'.play g moves').1 ∧ (s.play g moves).2.Aligned (s'.play g moves').2 := by
  have hmatching := hmoves.imp fun move move' hmove => hmove.matches hg
  obtain ⟨hresponses, hend, _⟩ := Session.play_matches hmatching ⟨h, hidle⟩
  exact ⟨hresponses, hend⟩

end Runs

/-! ## Two sources of the same host -/

section Sources

variable [Clock κ τ] {g : Graph κ} (hg : g.Ungated) (source source' : RandomSource ρ)
include hg

/-- It does not matter to a request how the random source answers. -/
theorem Session.perform_of_source (operation : Operation) (s : Session κ τ ρ) :
    @Session.perform κ τ ρ _ source _ g operation s =
      @Session.perform κ τ ρ _ source' _ g operation s := by
  have hparallel : @Walk.Parallel κ τ ρ τ ρ _ _ source source' Eq g g :=
    @Graph.Ungated.parallel κ τ ρ τ ρ _ _ source source' g Eq hg mirrored_eq
      fun _ _ t hs => congrArg (Session.fire t) hs
  have hsame := @Walk.Mirrored.perform κ τ ρ τ ρ _ _ source source' Eq g g mirrored_eq hparallel s s
    operation rfl fun _ => rfl
  exact Prod.ext hsame.1 hsame.2

theorem Session.play_of_source (moves : List (Move κ τ ρ)) (s : Session κ τ ρ) :
    @Session.play κ τ ρ _ source g moves s = @Session.play κ τ ρ _ source' g moves s := by
  induction moves generalizing s with
  | nil => rfl
  | cons move moves ih =>
      cases move with
      | surround context clock random => exact ih _
      | request operation => simp only [Session.play, perform_of_source hg source source', ih]

end Sources

/-! ## Transitions that always fire -/

/-- The steps of a transition that fires, without a draw, whenever it is ticked. -/
def AlwaysFires (steps : List GateStep) : Prop :=
  ∃ times : List Float, steps = times.flatMap fun time => [.ticked, .fired time none]

theorem AlwaysFires.snoc {steps : List GateStep} (h : AlwaysFires steps) (time : Float) :
    AlwaysFires (steps ++ [.ticked] ++ [.fired time none]) := by
  obtain ⟨times, rfl⟩ := h
  refine ⟨times ++ [time], ?_⟩
  simp

theorem Session.Reachable.alwaysFires [Clock κ τ] [RandomSource ρ] {g : Graph κ} {s : Session κ τ ρ}
    (hg : g.Ungated) (hs : s.Reachable g) {t : TransitionId} (ht : g.hasTransition t = true) :
    AlwaysFires (gateSteps t s.journal.toList) := by
  have hgated : s.Gated t AlwaysFires := by
    refine hs.gated (fun tr steps s htr hfires hs => ?_) ht ⟨[], rfl⟩
    have hread : Session.Gated t (· = steps ++ [.ticked])
        { s with clock := (Clock.read s.context s.clock).2 } := ⟨hs.place, hs.firing, hs.steps⟩
    have hstep : (Event.fired t s.reading none : Event κ).gateStep? t = some (.fired s.reading none) := by
      simp [Event.gateStep?]
    unfold Walk.Leads
    rw [hg.rollGates_eq htr]
    apply (hread.record hstep rfl).imp
    rintro _ rfl
    exact hfires.snoc s.reading
  exact hgated.steps

/-! ## Two runs -/

/-- In a graph without probabilities and cooldowns two hosts that hand nothing off and differ in clocks
and random sources make the same moves.  They have the same responses and end with the same states and
contexts, and their journals differ at most in the times of firings.  The run does not depend on how its
random source answers, so it is never asked, and a transition fires whenever it is ticked. -/
theorem ungated_runs_agree [Clock κ τ] [RandomSource ρ] [Clock κ τ'] [RandomSource ρ'] (g : Graph κ)
    (hg : g.Ungated) (context : κ) (clock : τ) (random : ρ) (clock' : τ') (random' : ρ')
    (moves : List (Move κ τ ρ)) (moves' : List (Move κ τ' ρ'))
    (hmoves : List.Forall₂ Move.Shared moves moves') :
    let run := (Session.start g context clock random).play g moves
    let run' := (Session.start g context clock' random').play g moves'
    run.1 = run'.1 ∧ run.2.state = run'.2.state ∧ run.2.context = run'.2.context ∧
      run.2.journal.map Event.timeless = run'.2.journal.map Event.timeless ∧
      (∀ source : RandomSource ρ,
        @Session.play κ τ ρ _ source g moves (.start g context clock random) = run) ∧
      ∀ t, g.hasTransition t = true → AlwaysFires (gateSteps t run.2.journal.toList) := by
  intro run run'
  have hstart : (Session.start g context clock random).Aligned (.start g context clock' random') :=
    ⟨rfl, rfl, rfl⟩
  obtain ⟨hresponses, hend⟩ := hstart.play hg rfl hmoves
  have hreach : run.2.Reachable g := (Session.Reachable.start context clock random).play moves
  refine ⟨hresponses, hend.state, hend.context, hend.journal, ?_, ?_⟩
  · intro source
    exact Session.play_of_source hg source _ moves _
  · intro t ht
    exact hreach.alwaysFires hg ht

structure FallingClock where
  now : Float

instance : Clock κ FallingClock := ⟨fun _ c => (c.now, ⟨c.now - 1.0⟩)⟩

structure EmptySource where

instance : RandomSource EmptySource := ⟨fun _ _ _ => none⟩

/-- The entry, an action that fails at every third call, and a loop that leads back to it. -/
def shuttleGraph : Graph Nat :=
  .ofSteps [
    .add "count" (.action (.noArgs fun n =>
      .ok (if n % 3 = 2 then .error (.unexpected "third") else .ok ()) (n + 1))) [],
    .add "again" (.loop (.noArgs fun n => .ok (.ok (n % 4 ≠ 0)) n) false) [],
    .link entryNode ⟨1⟩, .connect ⟨1⟩ .out ⟨2⟩ { capturesControl := true },
    .connect ⟨2⟩ .body ⟨1⟩ {}]

theorem shuttle_ungated : shuttleGraph.Ungated where
  chance := by
    rintro ⟨_ | _ | _ | i⟩ tr htr <;> cases htr <;> decide +kernel
  cooldown := by
    rintro ⟨_ | _ | _ | i⟩ tr htr <;> cases htr <;> decide +kernel

def shuttleMoves (clock : τ) (random : ρ) : List (Move Nat τ ρ) :=
  [.request .tick, .request (.cancel ⟨1⟩), .surround 5 clock random, .request (.setActive ⟨1⟩),
    .request .tick]

def stoppedRun : List Response × Session Nat ManualClock Xoshiro :=
  (Session.start shuttleGraph 0 (ManualClock.mk (0.0 / 0.0)) (Xoshiro.ofSeed 5)).play shuttleGraph
    (shuttleMoves (ManualClock.mk 3.0) (Xoshiro.ofSeed 6))

def fallingRun : List Response × Session Nat FallingClock EmptySource :=
  (Session.start shuttleGraph 0 (FallingClock.mk 0.0) EmptySource.mk).play shuttleGraph
    (shuttleMoves (FallingClock.mk 100.0) EmptySource.mk)

theorem shuttle_runs_agree :
    stoppedRun.2.context = 8 ∧ fallingRun.1 = stoppedRun.1 ∧
      fallingRun.2.state = stoppedRun.2.state ∧ fallingRun.2.context = stoppedRun.2.context ∧
      fallingRun.2.journal.map Event.timeless = stoppedRun.2.journal.map Event.timeless ∧
      (gateSteps ⟨1⟩ stoppedRun.2.journal.toList).length = 14 ∧
      AlwaysFires (gateSteps ⟨1⟩ stoppedRun.2.journal.toList) := by
  have hmoves : List.Forall₂ Move.Shared
      (shuttleMoves (ManualClock.mk 3.0) (Xoshiro.ofSeed 6))
      (shuttleMoves (FallingClock.mk 100.0) EmptySource.mk) :=
    .cons (.request _ nofun) (.cons (.request _ nofun) (.cons (.surround _ _ _ _ _)
      (.cons (.request _ nofun) (.cons (.request _ nofun) .nil))))
  have hcounted : stoppedRun.2.context = 8 := by decide +kernel
  have hticked : (gateSteps ⟨1⟩ stoppedRun.2.journal.toList).length = 14 := by decide +kernel
  have hmember : shuttleGraph.hasTransition ⟨1⟩ = true := by decide +kernel
  obtain ⟨hresponses, hstate, hcontext, hjournal, -, hfires⟩ := ungated_runs_agree shuttleGraph
    shuttle_ungated 0 (ManualClock.mk (0.0 / 0.0)) (Xoshiro.ofSeed 5) (FallingClock.mk 0.0)
    EmptySource.mk _ _ hmoves
  unfold stoppedRun at hcounted hticked ⊢
  unfold fallingRun
  exact ⟨hcounted, hresponses.symm, hstate.symm, hcontext.symm, hjournal.symm, hticked,
    hfires ⟨1⟩ hmember⟩

end BehaviourGraph
