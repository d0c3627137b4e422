import BehaviourGraph.Proofs.Evaluations

/-!
# Statuses and failure reports

As long as no request is broken off, the status of each element is the worst outcome of its latest
evaluation, and the failures that were reported are those of the callbacks, in order.  Both follow along
a walk: a node is opened, evaluated call by call and closed before anything below it is ticked, and the
guard of a transition is called and settled at once.
-/

namespace BehaviourGraph

variable {κ τ ρ α : Type}

def Session.Settled (g : Graph κ) (s : Session κ τ ρ) : Prop :=
  Accounted g none [] s.state.status s.journal.toList

/-! ## What does not matter -/

section Quiet

variable {g : Graph κ} {Q : ElementMap Status → List (Event κ) → Prop}

/-- A property of the statuses and of the events that count. -/
theorem unflagged_of_quiet
    (hquiet : ∀ status events event, Event.quiet event = true → Q status events →
      Q status (events ++ [event])) :
    Unflagged (τ := τ) (ρ := ρ) g (fun s => Q s.state.status s.journal.toList)
      fun event => event.quiet = true where
  surroundings _ _ _ _ hs := hs
  record s event hevent hs := by
    rw [Session.toList_record]
    exact hquiet _ _ event hevent hs
  changed _ _ := rfl
  mark _ _ hs := hs
  relax _ flag _ hs := by cases flag <;> exact hs
  setControl _ _ hs := hs

theorem unflagged_settled (g : Graph κ) :
    Unflagged (τ := τ) (ρ := ρ) g (Session.Settled g) fun event => event.quiet = true :=
  unflagged_of_quiet fun _ _ _ hquiet hs => hs.quiet hquiet

theorem unflagged_opened (g : Graph κ) (id : NodeId) :
    Unflagged (τ := τ) (ρ := ρ) g (fun s => Opened g id s.state.status s.journal.toList)
      fun event => event.quiet = true :=
  unflagged_of_quiet fun _ _ _ hquiet hs => hs.quiet hquiet

end Quiet

/-! ## Failures -/

section Failures

variable {g : Graph κ} {s : Session κ τ ρ} {e : Element} {done : List Call} {label : String}

theorem Callback.answer_of_ok [OfValue α] {callback : Callback κ α} {before after : κ}
    {result : Except CallbackError α} (h : callback.invoke before = .ok result after) :
    callback.answer before = (.ofResult result, after) := by
  unfold answer
  rw [h]

/-- A failure that has not been settled is. -/
theorem Answered.leads_fail {error : CallbackError}
    (h : Answered g e (.failed error) done s.state.status s.journal.toList) (hlabel : label = g.label e) :
    (Walk.fail e label error).Leads s
      (fun _ s => Evaluating g e done s.state.status s.journal.toList) fun _ => True := by
  unfold Walk.fail
  rw [Walk.leads_bind, Walk.leads_change, Walk.leads_report, hlabel, Session.report,
    Session.toList_record]
  exact h.failed

theorem Answered.leads_settle {result : Except CallbackError α}
    (h : Answered g e (.ofResult result) done s.state.status s.journal.toList)
    (hlabel : label = g.label e) :
    (Walk.settle e label result).Leads s
      (fun _ s => Evaluating g e done s.state.status s.journal.toList) fun _ => True := by
  cases result with
  | ok a => exact h.returned
  | error error =>
      unfold Walk.settle
      rw [Walk.leads_bind]
      exact (Answered.leads_fail h hlabel).imp (fun _ s hs => hs) fun _ hb => hb

theorem Answered.leads_verdict {result : Except CallbackError Bool}
    (h : Answered g e (.ofResult result) done s.state.status s.journal.toList)
    (hlabel : label = g.label e) (reverse : Bool) :
    (Walk.verdict e label reverse result).Leads s
      (fun _ s => Evaluating g e done s.state.status s.journal.toList) fun _ => True := by
  unfold Walk.verdict
  rw [Walk.leads_bind]
  refine (h.leads_settle hlabel).imp (fun held s hs => ?_) fun _ hb => hb
  cases held <;> exact hs

end Failures

/-! ## Nodes -/

section Nodes

variable {g : Graph κ} {s : Session κ τ ρ} {id : NodeId} {n : Node κ} {done : List Call} {call : Call}

/-- A node that is being evaluated makes a call. -/
theorem Evaluating.leads_invoke [OfValue α] (callback : Callback κ α)
    (h : Evaluating g (.node id) done s.state.status s.journal.toList)
    (hcall : call.evaluated? = some (.node id))
    (hanswer : ∀ before, g.answer? before call = some (callback.answer before)) :
    (Walk.invoke call callback).Leads s
      (fun result s => Answered g (.node id) (.ofResult result) (done ++ [call]) s.state.status
        s.journal.toList) fun _ => True := by
  refine Walk.leads_invoke_answer call callback (fun result context hinvoke => ?_) fun _ _ _ => trivial
  rw [Session.toList_record]
  apply h.called hcall
  rw [hanswer, Callback.answer_of_ok hinvoke]

/-- The branches of a utility are scored from an index on. -/
theorem Evaluating.leads_scoreBranches {branches : List (Branch κ)} {k : Nat}
    (hlabel : n.label = g.label (.node id))
    (hanswer : ∀ i branch, branches[i]? = some branch → ∀ before,
      g.answer? before (.scorer id (k + i)) = some (branch.scorer.answer before))
    (best : Option (Nat × Float32))
    (h : Evaluating g (.node id) ((List.range k).map (.scorer id)) s.state.status s.journal.toList) :
    (Walk.scoreBranches id n.label k best branches).Leads s
      (fun _ s => Evaluating g (.node id) ((List.range (k + branches.length)).map (.scorer id))
        s.state.status s.journal.toList) fun _ => True := by
  induction branches generalizing k best s with
  | nil => exact h
  | cons branch branches ih =>
      have hnext (i : Nat) (other : Branch κ) (hother : branches[i]? = some other) (before : κ) :
          g.answer? before (.scorer id (k + 1 + i)) = some (other.scorer.answer before) := by
        rw [Nat.add_assoc, Nat.add_comm 1 i]
        exact hanswer (i + 1) other hother before
      have hcount : k + (branch :: branches).length = k + 1 + branches.length := by
        rw [List.length_cons]
        omega
      unfold Walk.scoreBranches
      rw [Walk.leads_bind, hcount]
      refine (h.leads_invoke branch.scorer rfl (hanswer 0 branch rfl)).imp (fun result s hs => ?_)
        fun _ hb => hb
      have hcalls : (List.range k).map (Call.scorer id) ++ [.scorer id k] =
          (List.range (k + 1)).map (Call.scorer id) := by
        rw [List.range_succ, List.map_append]
        rfl
      rw [Nat.add_zero, hcalls] at hs
      cases result with
      | ok raw =>
          dsimp only
          rw [Walk.leads_bind]
          exact (Walk.keeps_evaluate branch.curve raw).leads hs.returned
            (fun _ s hs => ih hnext _ hs) fun _ _ => trivial
      | error error =>
          dsimp only
          rw [Walk.leads_bind]
          exact (Answered.leads_fail hs hlabel).imp (fun _ s hs => ih hnext _ hs) fun _ hb => hb

/-- A node that has called its one callback settles what it returned. -/
theorem Evaluating.leads_called [OfValue α] {port : Except CallbackError α → Walk κ τ ρ (Option Port)}
    (callback : Callback κ α) (h : Evaluating g (.node id) [] s.state.status s.journal.toList)
    (hcalls : g.callsOf (.node id) = [.body id])
    (hanswer : ∀ before, g.answer? before (.body id) = some (callback.answer before))
    (hport : ∀ result s,
      Answered g (.node id) (.ofResult result) [.body id] s.state.status s.journal.toList →
        (port result).Leads s
          (fun _ s => Evaluating g (.node id) [.body id] s.state.status s.journal.toList)
          fun _ => True) :
    (Walk.invoke (.body id) callback >>= port).Leads s (fun _ => Session.Settled g) fun _ => True := by
  rw [Walk.leads_bind]
  refine (h.leads_invoke callback rfl hanswer).imp (fun result s hs => ?_) fun _ hb => hb
  refine (hport result s hs).imp (fun _ s hs => ?_) fun _ hb => hb
  rw [← hcalls] at hs
  exact hs.close

/-- Choosing a port makes a whole evaluation of a node. -/
theorem Evaluating.leads_choose (hn : g.node? id = some n)
    (h : Evaluating g (.node id) [] s.state.status s.journal.toList) :
    (Walk.choose id n).Leads s (fun _ => Session.Settled g) fun _ => True := by
  have hlabel : n.label = g.label (.node id) := by simp [Graph.label, hn]
  unfold Walk.choose
  cases hbehaviour : n.behaviour with
  | entry =>
      have hcalls : g.callsOf (.node id) = [] := by simp [Graph.callsOf, hn, hbehaviour]
      rw [← hcalls] at h
      exact h.close
  | action callback =>
      refine h.leads_called callback ?_ (fun before => ?_) fun result s hs => ?_
      · simp [Graph.callsOf, hn, hbehaviour]
      · simp [Graph.answer?, hn, hbehaviour]
      · rw [Walk.leads_bind]
        exact (hs.leads_settle hlabel).imp (fun _ _ hs => hs) fun _ hb => hb
  | condition guard reverse | loop guard reverse =>
      refine h.leads_called guard ?_ (fun before => ?_) fun result s hs => ?_
      · simp [Graph.callsOf, hn, hbehaviour]
      · simp [Graph.answer?, hn, hbehaviour]
      · rw [Walk.leads_bind]
        exact (hs.leads_verdict hlabel reverse).imp (fun _ _ hs => hs) fun _ hb => hb
  | utility branches =>
      have hcalls : g.callsOf (.node id) = (List.range (0 + branches.length)).map (Call.scorer id) := by
        simp [Graph.callsOf, hn, hbehaviour]
      have hanswer (i : Nat) (branch : Branch κ) (hbranch : branches[i]? = some branch) (before : κ) :
          g.answer? before (.scorer id (0 + i)) = some (branch.scorer.answer before) := by
        simp [Graph.answer?, hn, hbehaviour, hbranch]
      dsimp only
      rw [Walk.leads_bind]
      refine (h.leads_scoreBranches hlabel hanswer none).imp (fun _ s hs => ?_) fun _ hb => hb
      rw [← hcalls] at hs
      exact hs.close

theorem Session.Settled.leads_enter (hn : g.node? id = some n) (h : s.Settled g) :
    (Walk.enter g id n).Leads s
      (fun goes s => if goes then Evaluating g (.node id) [] s.state.status s.journal.toList
        else s.Settled g) fun _ => True := by
  have hpresent : g.hasElement (.node id) = true := Graph.hasNode_iff.mpr ⟨n, hn⟩
  have hopened := unflagged_opened (κ := κ) (τ := τ) (ρ := ρ) g id
  refine Walk.leads_enter_staged (R := fun s => Opened g id s.state.status s.journal.toList)
    hopened.toAmbient hopened.toAmbient (fun _ _ _ => rfl) (fun s hs _ => ?_)
    (fun s hs => hopened.mark s _ hs) (fun _ s hs => hopened.claim s id hs) (fun hkind s hs => ?_)
    (fun _ s hs => hs.begin hpresent) (fun _ hs _ => hs) (fun _ _ => trivial) h
  · rw [Session.toList_record]
    exact hs.enter id
  · exact hs.begin_entry hpresent (Graph.callsOf_entry hn hkind)

theorem Session.Settled.leads_runNode {tick : TransitionId → Walk κ τ ρ Bool}
    (htick : ∀ t s, s.Settled g → (tick t).Leads s (fun _ => Session.Settled g) fun _ => True)
    (hn : g.node? id = some n) (h : s.Settled g) :
    (Walk.runNode g id n tick).Leads s (fun _ => Session.Settled g) fun _ => True := by
  have hsettled := unflagged_settled (κ := κ) (τ := τ) (ρ := ρ) g
  refine Walk.leads_runNode (F := fun _ _ => Session.Settled g) (h.leads_enter hn) (fun s hs => ?_)
    (fun _ t _ s _ hs => htick t s hs) fun _ _ s hs => ?_
  · exact (hs.leads_choose hn).imp (fun port s hs => hsettled.commit s id n port rfl hs) fun _ hb => hb
  · exact Walk.leads_leave hsettled.toAmbient (fun _ _ _ => rfl)
      (fun _ s hs _ => hsettled.relax s .visited _ hs) (fun s hs => hsettled.record s _ rfl hs)
      (fun _ _ => trivial) hs

end Nodes

/-! ## Transitions -/

section Transitions

variable {g : Graph κ} {s : Session κ τ ρ} {id : TransitionId} {t : Transition κ}

theorem Session.Settled.leads_passesGuard (ht : g.transition? id = some t) (h : s.Settled g) :
    (Walk.passesGuard id t).Leads s (fun _ => Session.Settled g) fun _ => True := by
  unfold Walk.passesGuard
  cases hguard : t.guard with
  | none => exact h
  | some guard =>
      have hpresent : g.hasElement (.transition id) = true := Graph.hasTransition_iff.mpr ⟨t, ht⟩
      have hcalls : g.callsOf (.transition id) = [.guard id] := by simp [Graph.callsOf, ht, hguard]
      have hlabel : t.labelText = g.label (.transition id) := by simp [Graph.label, ht]
      rw [Walk.leads_bind]
      refine Walk.leads_invoke_answer _ guard (fun result context hinvoke => ?_) fun _ _ _ => trivial
      rw [Walk.leads_bind, Walk.leads_change]
      have hanswer : g.answer? s.context (.guard id) = some (.ofResult result, context) := by
        simp [Graph.answer?, ht, hguard, Callback.answer_of_ok hinvoke]
      have hasked := Accounted.asked h hpresent hanswer
      rw [← Session.toList_record] at hasked
      refine (Answered.leads_verdict hasked hlabel t.reverse).imp (fun _ s hs => ?_) fun _ hb => hb
      rw [← hcalls] at hs
      exact hs.close

variable [Clock κ τ] [RandomSource ρ]

theorem Session.Settled.leads_rollGates (h : s.Settled g) :
    (Walk.rollGates id t).Leads s (fun _ => Session.Settled g) fun _ => True :=
  ((unflagged_settled g).keeps_rollGates (fun _ _ _ => rfl) (fun _ _ => rfl) (fun _ _ hs => hs) t).leads
    h (fun _ _ hs => hs) fun _ _ => trivial

theorem Session.Settled.leads_tickTransition {visit : NodeId → Walk κ τ ρ Unit}
    (hvisit : ∀ id s, s.Settled g → (visit id).Leads s (fun _ => Session.Settled g) fun _ => True)
    (h : s.Settled g) :
    (Walk.tickTransition g visit id).Leads s (fun _ => Session.Settled g) fun _ => True := by
  have hsettled := unflagged_settled (κ := κ) (τ := τ) (ρ := ρ) g
  refine Walk.leads_tickTransition (fun _ hs => hs) (fun s hs => hsettled.record s _ rfl hs)
    (fun t s _ _ hs => hsettled.switchTo s t.start hs) (fun t s ht hs => ?_) h
  refine Walk.leads_follow_staged (hs.leads_rollGates.imp (fun opens s hs => ?_) fun _ hb => hb)
    (fun _ hs => hs.leads_passesGuard ht)
    fun s hs => hvisit t.finish _ (hsettled.record s _ rfl hs)
  cases opens with
  | true => exact hsettled.mark s _ hs
  | false => exact hs

end Transitions

/-! ## Requests -/

section Requests

variable [Clock κ τ] [RandomSource ρ] {g : Graph κ} {s : Session κ τ ρ}

theorem Session.Settled.leads_visit (budget : Nat) (id : NodeId) (h : s.Settled g) :
    (Walk.visit g budget id).Leads s (fun _ => Session.Settled g) fun _ => True := by
  have hsettled := unflagged_settled (κ := κ) (τ := τ) (ρ := ρ) g
  refine Walk.leads_visit_of (I := fun _ (_ : Unit) _ => Session.Settled g)
    (fun _ _ _ _ _ hs => hs) (fun _ _ _ hs => hs) (fun _ _ s _ hs => hsettled.record s _ rfl hs)
    (fun _ _ _ _ _ hs => hs) (fun budget visit hvisit _ id n s hn hs => ?_) budget () id h
  exact hs.leads_runNode (fun t s hs => hs.leads_tickTransition fun id s hs => hvisit () id s hs) hn

theorem Session.Settled.leads_tick (h : s.Settled g) :
    (Walk.tick g).Leads s (fun _ => Session.Settled g) fun _ => True := by
  have hsettled := unflagged_settled (κ := κ) (τ := τ) (ρ := ρ) g
  have hstart : (s.walkStart g).Settled g :=
    hsettled.walkStart (fun _ _ hs => hs) (fun _ => rfl) (fun _ hs => hs) (fun _ hs => hs) h
  rw [Walk.leads_tick]
  exact (hstart.leads_visit _ _).imp (fun _ s hs => hsettled.record (s.change State.sweep) _ rfl hs)
    fun _ hb => hb

omit [Clock κ τ] [RandomSource ρ] in
theorem Session.Settled.leads_reset (h : s.Settled g) :
    (Walk.reset g).Leads s (fun _ => Session.Settled g) fun _ => True := by
  have hsettled := unflagged_settled (κ := κ) (τ := τ) (ρ := ρ) g
  unfold Walk.reset
  rw [Walk.leads_bind, Walk.leads_modify, Walk.leads_bind]
  exact (hsettled.runHook (fun _ _ _ => rfl) g.onReset).leads (hsettled.switchTo s entryNode h)
    (fun _ s hs => hsettled.record s _ rfl hs) fun _ _ => trivial

theorem Session.Unbroken.settled (hs : s.Unbroken g) : s.Settled g := by
  have hsettled := unflagged_settled (κ := κ) (τ := τ) (ρ := ρ) g
  exact hs.has_of (fun _ _ _ => accounted_start g) hsettled.surroundings (fun _ hs => hs.leads_tick)
    (fun _ hs => hs.leads_reset) hsettled.switchTo (fun _ _ hs => hs) hsettled.relax

end Requests

/-! ## Statuses and reports of a run -/

/-- After a run that is not broken off the status of each element is the most severe outcome of its latest
evaluation, which is empty or has made all the calls of the element; so an entry and a transition without
a guard are normal.  The reports of failures are those that the callbacks call for, in order, and the
callbacks have answered as recorded. -/
theorem statuses_and_failures_of_run [Clock κ τ] [RandomSource ρ] (g : Graph κ) (s : Session κ τ ρ)
    (hs : s.Unbroken g) :
    let events := s.journal.toList
    (∀ e, s.state.status.get e = severest (evaluation e events) ∧
      (∀ call ∈ evaluation e events,
        call.2.status.severity ≤ (s.state.status.get e).severity) ∧
      (s.state.status.get e = .normal ∨
        ∃ call ∈ evaluation e events, s.state.status.get e = call.2.status)) ∧
      (∀ e, evaluation e events = [] ∨ (evaluation e events).map Prod.fst = g.callsOf e) ∧
      (∀ id n, g.node? id = some n → n.kind = .entry → s.state.status.get (.node id) = .normal) ∧
      (∀ id t, g.transition? id = some t → t.guard = none →
        s.state.status.get (.transition id) = .normal) ∧
      events.flatMap Event.failureReports = events.flatMap g.failures ∧
      ∀ event ∈ events, g.Told event := by
  intro events
  have hsettled : Accounted g none [] s.state.status events := hs.settled
  have hstatus (e : Element) : s.state.status.get e = severest (evaluation e events) :=
    hsettled.statuses e nofun
  have hwhole (e : Element) :
      evaluation e events = [] ∨ (evaluation e events).map Prod.fst = g.callsOf e :=
    (hsettled.whole e nofun).imp_left List.map_eq_nil_iff.mp
  have hnormal (e : Element) (hcalls : g.callsOf e = []) : s.state.status.get e = .normal := by
    have hnone : evaluation e events = [] := by
      rcases hwhole e with hnil | hcalled
      · exact hnil
      · rw [hcalls] at hcalled
        exact List.map_eq_nil_iff.mp hcalled
    rw [hstatus, hnone]
    rfl
  refine ⟨fun e => ?_, hwhole, fun id n hn hkind => ?_, fun id t ht hguard => ?_, ?_, hsettled.told⟩
  · obtain ⟨hone, hall⟩ := severest_spec (evaluation e events)
    rw [hstatus]
    exact ⟨rfl, hall, hone⟩
  · exact hnormal (.node id) (Graph.callsOf_entry hn hkind)
  · apply hnormal
    simp [Graph.callsOf, ht, hguard]
  · rw [← hsettled.reports, List.append_nil]

/-- A utility that is entered again through a guarded branch; what its callbacks return depends on how
many calls there were. -/
def searchGraph : Graph Nat :=
  .ofSteps [
    .add "search"
      (.utility
        [{ scorer := .noArgs fun n =>
            .ok (.error (if n = 0 then .unexpected "lost" else .componentNotFound "map")) (n + 1)
           curve := .identity },
          { scorer := .noArgs fun n => .ok (.ok 1.0) (n + 1), curve := .identity }])
      [.captureControl true],
    .link entryNode ⟨1⟩,
    .connect ⟨1⟩ (.branch 1) ⟨1⟩
      { label := some "door"
        guard := some (.noArgs fun n =>
          .ok (if n < 3 then .ok true else .error (.componentNotFound "door")) (n + 1)) }]

def searchStart : Session Nat ManualClock Xoshiro :=
  .start searchGraph 0 (ManualClock.mk 0.0) (Xoshiro.ofSeed 0)

def searched : Session Nat ManualClock Xoshiro := (searchStart.perform searchGraph .tick).2

theorem searched_statuses :
    searched.Unbroken searchGraph ∧
      evaluation (.node ⟨1⟩) searched.journal.toList =
        [(.scorer ⟨1⟩ 0, .failed (.componentNotFound "map")), (.scorer ⟨1⟩ 1, .returned)] ∧
      searched.state.status.get (.node ⟨1⟩) = .warning ∧
      searched.journal.toList.flatMap Event.failureReports =
        [.failed (.node ⟨1⟩) "search" (.unexpected "lost"),
          .failed (.node ⟨1⟩) "search" (.componentNotFound "map"),
          .failed (.transition ⟨1⟩) "door" (.componentNotFound "door")] := by
  have hunbroken : searched.Unbroken searchGraph :=
    .perform (.start _ _ _) (Session.perform_eq_done (by decide +kernel)) nofun
  have hevaluation : evaluation (.node ⟨1⟩) searched.journal.toList =
      [(.scorer ⟨1⟩ 0, .failed (.componentNotFound "map")), (.scorer ⟨1⟩ 1, .returned)] := by
    decide +kernel
  have hfailures : searched.journal.toList.flatMap searchGraph.failures =
      [.failed (.node ⟨1⟩) "search" (.unexpected "lost"),
        .failed (.node ⟨1⟩) "search" (.componentNotFound "map"),
        .failed (.transition ⟨1⟩) "door" (.componentNotFound "door")] := by decide +kernel
  obtain ⟨hstatus, _, _, _, hreports, _⟩ := statuses_and_failures_of_run searchGraph searched hunbroken
  have hnode := (hstatus (.node ⟨1⟩)).1
  rw [hevaluation] at hnode
  exact ⟨hunbroken, hevaluation, hnode, hreports.trans hfailures⟩

end BehaviourGraph
