import Mathlib.Data.List.Induction
import BehaviourGraph.Proofs.Bounds

/-!
# Evaluations

An evaluation of an element is what the journal has of its callbacks: those of a node are called after
it was entered, the guard of a transition makes an evaluation of its own.  `Accounted` says of a table of
statuses and a history that they agree: each status is the worst outcome of the latest evaluation, which
has made all its calls, and each failure is reported once.  While an element is evaluated it is left
out of that, and a failure is owed until its report.
-/

namespace BehaviourGraph

variable {κ τ ρ α : Type}

/-! ## Calls and their outcomes -/

/-- The element whose callback a call runs, if it is none of the hooks. -/
def Call.evaluated? : Call → Option Element
  | .body id | .scorer id _ => some (.node id)
  | .guard t => some (.transition t)
  | .preTick _ | .postTick _ | .reset => none

def Outcome.status : Outcome → Status
  | .failed error => error.status
  | .returned | .raised _ => .normal

def Callback.answer [OfValue α] (callback : Callback κ α) (before : κ) : Outcome × κ :=
  match callback.invoke before with
  | .ok result after => (.ofResult result, after)
  | .error message after => (.raised message, after)

namespace Graph

/-- What the graph's own callbacks answer to a call. -/
def answer? (g : Graph κ) (before : κ) : Call → Option (Outcome × κ)
  | .body id =>
    (g.node? id).bind fun n =>
      match n.behaviour with
      | .action callback => some (callback.answer before)
      | .condition guard _ | .loop guard _ => some (guard.answer before)
      | .entry | .utility _ => none
  | .scorer id k =>
    (g.node? id).bind fun n =>
      match n.behaviour with
      | .utility branches => branches[k]?.map fun branch => branch.scorer.answer before
      | _ => none
  | .guard id => (g.transition? id).bind fun t => t.guard.map fun guard => guard.answer before
  | .preTick _ | .postTick _ | .reset => none

def callsOf (g : Graph κ) : Element → List Call
  | .node id =>
    match (g.node? id).map Node.behaviour with
    | none | some .entry => []
    | some (.utility branches) => (List.range branches.length).map (.scorer id)
    | some _ => [.body id]
  | .transition id => if ((g.transition? id).bind fun t => t.guard).isSome then [.guard id] else []

theorem callsOf_entry {g : Graph κ} {id : NodeId} {n : Node κ} (hn : g.node? id = some n)
    (hkind : n.kind = .entry) : g.callsOf (.node id) = [] := by
  unfold Node.kind at hkind
  cases hbehaviour : n.behaviour <;> simp_all [callsOf, Behaviour.kind]

def label (g : Graph κ) : Element → String
  | .node id => (g.node? id).elim "" Node.label
  | .transition id => (g.transition? id).elim "" Transition.labelText

def owed (g : Graph κ) (e : Element) : Outcome → List Report
  | .failed error => [.failed e (g.label e) error]
  | .returned | .raised _ => []

def failures (g : Graph κ) : Event κ → List Report
  | .called call _ _ outcome => call.evaluated?.elim [] fun e => g.owed e outcome
  | _ => []

/-- A callback that was called is the graph's own and has answered as recorded. -/
def Told (g : Graph κ) : Event κ → Prop
  | .called call before after outcome =>
    call.evaluated? = none ∨ g.answer? before call = some (outcome, after)
  | _ => True

end Graph

def Event.failureReports : Event κ → List Report
  | .reported (.failed e label error) => [.failed e label error]
  | _ => []

/-! ## The latest evaluation -/

/-- The calls of the latest evaluation of an element, with their outcomes, after one more event. -/
def evaluationAfter (e : Element) (calls : List (Call × Outcome)) : Event κ → List (Call × Outcome)
  | .entered id => if .node id = e then [] else calls
  | .called call _ _ outcome =>
    if call.evaluated? = some e then
      match e with
      | .node _ => calls ++ [(call, outcome)]
      | .transition _ => [(call, outcome)]
    else calls
  | _ => calls

def evaluation (e : Element) (events : List (Event κ)) : List (Call × Outcome) :=
  events.foldl (evaluationAfter e) []

def severest (calls : List (Call × Outcome)) : Status :=
  calls.foldl (fun status call => status.worst call.2.status) .normal

def Event.quiet : Event κ → Bool
  | .entered _ | .reported (.failed _ _ _) => false
  | .called call _ _ _ => call.evaluated?.isNone
  | _ => true

section Evaluation

variable {e : Element} {events : List (Event κ)} {event : Event κ}

theorem evaluation_snoc (e : Element) (events : List (Event κ)) (event : Event κ) :
    evaluation e (events ++ [event]) = evaluationAfter e (evaluation e events) event := by
  simp only [evaluation, List.foldl_append, List.foldl_cons, List.foldl_nil]

theorem evaluation_entered_self (id : NodeId) (events : List (Event κ)) :
    evaluation (.node id) (events ++ [.entered id]) = [] := by
  rw [evaluation_snoc]
  exact if_pos rfl

theorem evaluation_entered_of_ne {id : NodeId} (h : Element.node id ≠ e) :
    evaluation e (events ++ [.entered id]) = evaluation e events := by
  rw [evaluation_snoc]
  exact if_neg h

theorem evaluation_reported (r : Report) :
    evaluation e (events ++ [.reported r]) = evaluation e events :=
  evaluation_snoc e events _

section Called

variable {call : Call} {before after : κ} {outcome : Outcome}

theorem evaluation_called_node {id : NodeId} (h : call.evaluated? = some (.node id)) :
    evaluation (.node id) (events ++ [.called call before after outcome]) =
      evaluation (.node id) events ++ [(call, outcome)] := by
  rw [evaluation_snoc]
  exact if_pos h

theorem evaluation_guard (t : TransitionId) :
    evaluation (.transition t) (events ++ [.called (.guard t) before after outcome]) =
      [(.guard t, outcome)] := by
  rw [evaluation_snoc]
  exact if_pos rfl

theorem evaluation_called_of_ne (h : call.evaluated? ≠ some e) :
    evaluation e (events ++ [.called call before after outcome]) = evaluation e events := by
  rw [evaluation_snoc]
  exact if_neg h

end Called

theorem evaluationAfter_of_ne (h : event.element? ≠ some e) (calls : List (Call × Outcome)) :
    evaluationAfter e calls event = calls := by
  cases event with
  | entered id => exact if_neg fun heq => h (congrArg some heq)
  | called call before after outcome =>
      refine if_neg fun heq => h ?_
      cases call <;> first | exact heq | cases heq
  | _ => rfl

theorem evaluationAfter_of_quiet (h : event.quiet = true) (calls : List (Call × Outcome)) :
    evaluationAfter e calls event = calls := by
  cases event with
  | entered id => cases h
  | called call before after outcome =>
      have hnone : call.evaluated? = none := by simpa [Event.quiet] using h
      simp [evaluationAfter, hnone]
  | _ => rfl

theorem evaluation_quiet (h : event.quiet = true) :
    evaluation e (events ++ [event]) = evaluation e events := by
  rw [evaluation_snoc, evaluationAfter_of_quiet h]

theorem failures_of_quiet (g : Graph κ) (h : event.quiet = true) : g.failures event = [] := by
  cases event with
  | called call before after outcome =>
      have hnone : call.evaluated? = none := by simpa [Event.quiet] using h
      simp [Graph.failures, hnone]
  | _ => rfl

theorem failureReports_of_quiet (h : event.quiet = true) : event.failureReports = [] := by
  cases event with
  | reported r => cases r <;> first | rfl | cases h
  | _ => rfl

theorem told_of_quiet (g : Graph κ) (h : event.quiet = true) : g.Told event := by
  cases event with
  | called call before after outcome => exact .inl (by simpa [Event.quiet] using h)
  | _ => trivial

theorem severest_snoc (calls : List (Call × Outcome)) (call : Call) (outcome : Outcome) :
    severest (calls ++ [(call, outcome)]) = (severest calls).worst outcome.status := by
  simp only [severest, List.foldl_append, List.foldl_cons, List.foldl_nil]

theorem Status.severity_worst (a b : Status) : (a.worst b).severity = max a.severity b.severity := by
  cases a <;> cases b <;> rfl

theorem Status.worst_eq (a b : Status) : a.worst b = a ∨ a.worst b = b := by
  unfold worst
  split
  · exact .inr rfl
  · exact .inl rfl

theorem Status.worst_normal (a : Status) : a.worst .normal = a := by cases a <;> rfl

/-- The severest status is that of an outcome unless all are normal, and no outcome is worse. -/
theorem severest_spec (calls : List (Call × Outcome)) :
    (severest calls = .normal ∨ ∃ call ∈ calls, severest calls = call.2.status) ∧
      ∀ call ∈ calls, call.2.status.severity ≤ (severest calls).severity := by
  induction calls using List.reverseRecOn with
  | nil => exact ⟨.inl rfl, nofun⟩
  | append_singleton calls call ih =>
      obtain ⟨hone, hall⟩ := ih
      rw [severest_snoc]
      constructor
      · rcases (severest calls).worst_eq call.2.status with heq | heq
        · rw [heq]
          refine hone.imp_right fun ⟨other, hother, hstatus⟩ => ?_
          exact ⟨other, List.mem_append_left _ hother, hstatus⟩
        · exact .inr ⟨call, by simp, heq⟩
      · intro other hother
        rw [Status.severity_worst]
        rcases List.mem_append.mp hother with hother | hother
        · exact Nat.le_trans (hall other hother) (Nat.le_max_left _ _)
        · rw [List.mem_singleton.mp hother]
          exact Nat.le_max_right _ _

end Evaluation

/-! ## Statuses and histories -/

/-- Statuses and a history agree, but for one element that is being evaluated and for reports that are
owed. -/
structure Accounted (g : Graph κ) (busy : Option Element) (owed : List Report)
    (status : ElementMap Status) (events : List (Event κ)) : Prop where
  fits : status.Fits g
  statuses : ∀ e, busy ≠ some e → status.get e = severest (evaluation e events)
  whole : ∀ e, busy ≠ some e →
    (evaluation e events).map Prod.fst = [] ∨ (evaluation e events).map Prod.fst = g.callsOf e
  reports : events.flatMap Event.failureReports ++ owed = events.flatMap g.failures
  told : ∀ event ∈ events, g.Told event

/-- A node has been entered and is about to be evaluated. -/
structure Opened (g : Graph κ) (id : NodeId) (status : ElementMap Status) (events : List (Event κ)) :
    Prop extends Accounted g (some (.node id)) [] status events where
  fresh : evaluation (.node id) events = []
  entry : g.callsOf (.node id) = [] → status.get (.node id) = .normal

structure Evaluating (g : Graph κ) (e : Element) (done : List Call) (status : ElementMap Status)
    (events : List (Event κ)) : Prop extends Accounted g (some e) [] status events where
  present : g.hasElement e = true
  current : status.get e = severest (evaluation e events)
  calls : (evaluation e events).map Prod.fst = done

/-- The last call of an evaluation has an outcome that its element's status does not show yet. -/
structure Answered (g : Graph κ) (e : Element) (outcome : Outcome) (done : List Call)
    (status : ElementMap Status) (events : List (Event κ)) : Prop
    extends Accounted g (some e) (g.owed e outcome) status events where
  present : g.hasElement e = true
  due : (status.get e).worst outcome.status = severest (evaluation e events)
  calls : (evaluation e events).map Prod.fst = done

section Accounted

variable {g : Graph κ} {busy : Option Element} {owed : List Report} {status : ElementMap Status}
  {events : List (Event κ)} {event : Event κ} {e : Element} {id : NodeId} {done : List Call}
  {outcome : Outcome}

theorem Accounted.quiet (h : Accounted g busy owed status events) (hquiet : event.quiet = true) :
    Accounted g busy owed status (events ++ [event]) where
  fits := h.fits
  statuses e he := by
    rw [evaluation_quiet hquiet]
    exact h.statuses e he
  whole e he := by
    rw [evaluation_quiet hquiet]
    exact h.whole e he
  reports := by
    simp only [List.flatMap_append, List.flatMap_cons, List.flatMap_nil,
      failureReports_of_quiet hquiet, failures_of_quiet g hquiet, List.append_nil]
    exact h.reports
  told := forall_mem_snoc h.told (told_of_quiet g hquiet)

theorem Opened.quiet (h : Opened g id status events) (hquiet : event.quiet = true) :
    Opened g id status (events ++ [event]) where
  toAccounted := h.toAccounted.quiet hquiet
  fresh := by
    rw [evaluation_quiet hquiet]
    exact h.fresh
  entry := h.entry

/-- Setting the status of the element that is being evaluated disturbs no other. -/
theorem Accounted.setStatus (h : Accounted g (some e) owed status events) (a : Status) :
    Accounted g (some e) owed (status.set e a) events where
  fits := h.fits.set e a
  statuses f hf := by
    rw [status.get_set_of_ne a fun heq => hf (congrArg some heq)]
    exact h.statuses f hf
  whole := h.whole
  reports := h.reports
  told := h.told

theorem Accounted.enter (h : Accounted g none [] status events) (id : NodeId) :
    Opened g id status (events ++ [.entered id]) where
  fits := h.fits
  statuses e he := by
    rw [evaluation_entered_of_ne fun heq => he (congrArg some heq)]
    exact h.statuses e nofun
  whole e he := by
    rw [evaluation_entered_of_ne fun heq => he (congrArg some heq)]
    exact h.whole e nofun
  reports := by
    simp only [List.flatMap_append, List.flatMap_cons, List.flatMap_nil, Event.failureReports,
      Graph.failures, List.append_nil]
    simpa using h.reports
  told := forall_mem_snoc h.told trivial
  fresh := evaluation_entered_self id events
  entry hnone := by
    have hwhole : (evaluation (.node id) events).map Prod.fst = [] := by
      rcases h.whole (.node id) nofun with hnil | hcalls
      · exact hnil
      · rw [hcalls, hnone]
    rw [h.statuses _ nofun, List.map_eq_nil_iff.mp hwhole]
    rfl

/-- An evaluation begins with a normal status. -/
theorem Opened.begin (h : Opened g id status events) (hpresent : g.hasElement (.node id) = true) :
    Evaluating g (.node id) [] (status.set (.node id) .normal) events where
  toAccounted := h.toAccounted.setStatus .normal
  present := hpresent
  current := by
    rw [status.get_set_self _ _ ((h.fits.holds_iff _).mpr hpresent), h.fresh]
    rfl
  calls := by rw [h.fresh, List.map_nil]

/-- A node without callbacks has a normal status already. -/
theorem Opened.begin_entry (h : Opened g id status events)
    (hpresent : g.hasElement (.node id) = true) (hnone : g.callsOf (.node id) = []) :
    Evaluating g (.node id) [] status events where
  toAccounted := h.toAccounted
  present := hpresent
  current := by
    rw [h.entry hnone, h.fresh]
    rfl
  calls := by rw [h.fresh, List.map_nil]

/-- An evaluation that has made all its calls is over. -/
theorem Evaluating.close (h : Evaluating g e (g.callsOf e) status events) :
    Accounted g none [] status events where
  fits := h.fits
  statuses f _ := by
    by_cases hf : e = f
    · rw [← hf]
      exact h.current
    · exact h.statuses f fun heq => hf (Option.some.inj heq)
  whole f _ := by
    by_cases hf : e = f
    · rw [← hf]
      exact .inr h.calls
    · exact h.whole f fun heq => hf (Option.some.inj heq)
  reports := h.reports
  told := h.told

/-- A call of an element leaves the evaluations of all others alone, and its failure is owed. -/
theorem Accounted.called {call : Call} {before after : κ} (h : Accounted g busy [] status events)
    (hbusy : ∀ f, busy = some f → f = e) (hcall : call.evaluated? = some e)
    (hanswer : g.answer? before call = some (outcome, after)) :
    Accounted g (some e) (g.owed e outcome) status (events ++ [.called call before after outcome]) where
  fits := h.fits
  statuses f hf := by
    rw [evaluation_called_of_ne fun heq => hf (hcall.symm.trans heq)]
    exact h.statuses f fun heq => hf (congrArg some (hbusy f heq).symm)
  whole f hf := by
    rw [evaluation_called_of_ne fun heq => hf (hcall.symm.trans heq)]
    exact h.whole f fun heq => hf (congrArg some (hbusy f heq).symm)
  reports := by
    have hreports := h.reports
    rw [List.append_nil] at hreports
    simp only [List.flatMap_append, List.flatMap_cons, List.flatMap_nil, Event.failureReports,
      Graph.failures, hcall, Option.elim_some, List.append_nil, hreports]
  told := forall_mem_snoc h.told (.inr hanswer)

/-- A node that is being evaluated makes one more call. -/
theorem Evaluating.called {call : Call} {before after : κ}
    (h : Evaluating g (.node id) done status events) (hcall : call.evaluated? = some (.node id))
    (hanswer : g.answer? before call = some (outcome, after)) :
    Answered g (.node id) outcome (done ++ [call]) status
      (events ++ [.called call before after outcome]) where
  toAccounted := h.toAccounted.called (fun f hf => (Option.some.inj hf).symm) hcall hanswer
  present := h.present
  due := by rw [evaluation_called_node hcall, severest_snoc, h.current]
  calls := by
    rw [evaluation_called_node hcall, List.map_append, h.calls]
    rfl

/-- The guard of a transition is called, and then the status of the transition is set to normal. -/
theorem Accounted.asked {t : TransitionId} {before after : κ}
    (h : Accounted g none [] status events) (hpresent : g.hasElement (.transition t) = true)
    (hanswer : g.answer? before (.guard t) = some (outcome, after)) :
    Answered g (.transition t) outcome [.guard t] (status.set (.transition t) .normal)
      (events ++ [.called (.guard t) before after outcome]) := by
  have hcalled : Accounted g (some (.transition t)) (g.owed (.transition t) outcome) status
      (events ++ [.called (.guard t) before after outcome]) := h.called nofun rfl hanswer
  constructor
  · exact hcalled.setStatus .normal
  · exact hpresent
  · rw [status.get_set_self _ _ ((h.fits.holds_iff _).mpr hpresent), evaluation_guard]
    rfl
  · rw [evaluation_guard]
    rfl

theorem Answered.returned (h : Answered g e .returned done status events) :
    Evaluating g e done status events where
  toAccounted := h.toAccounted
  present := h.present
  current := by
    rw [← h.due]
    exact (Status.worst_normal _).symm
  calls := h.calls

/-- A failure is settled by lowering the status and reporting it. -/
theorem Answered.failed {error : CallbackError} (h : Answered g e (.failed error) done status events) :
    Evaluating g e done (status.set e ((status.get e).worst error.status))
      (events ++ [.reported (.failed e (g.label e) error)]) := by
  have hset := h.toAccounted.setStatus ((status.get e).worst error.status)
  constructor
  · constructor
    · exact hset.fits
    · intro f hf
      rw [evaluation_reported]
      exact hset.statuses f hf
    · intro f hf
      rw [evaluation_reported]
      exact hset.whole f hf
    · simp only [List.flatMap_append, List.flatMap_cons, List.flatMap_nil, Event.failureReports,
        Graph.failures, List.append_nil]
      exact h.reports
    · exact forall_mem_snoc h.told trivial
  · exact h.present
  · rw [status.get_set_self _ _ ((h.fits.holds_iff _).mpr h.present), evaluation_reported]
    exact h.due
  · rw [evaluation_reported]
    exact h.calls

theorem accounted_start (g : Graph κ) : Accounted g none [] (State.start g).status [] where
  fits := (State.fits_start g).status
  statuses e _ := ElementMap.get_constant_default _ _ e
  whole _ _ := .inl rfl
  reports := rfl
  told := nofun

end Accounted

end BehaviourGraph
