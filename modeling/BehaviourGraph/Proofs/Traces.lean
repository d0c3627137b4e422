import BehaviourGraph.Proofs.HandOffs
import BehaviourGraph.Proofs.Wiring

/-!
# Traces of ticks

The trace of a tick is what its journal holds besides the reports.  It is a word of a grammar with a rule
for each way a node or a transition can be ticked, so the calls of a node enclose those of the nodes below
it.  `Writes` is a calculus of what a part of a walk adds to the trace, whatever the session it begins in.
-/

namespace BehaviourGraph

variable {κ τ ρ α β : Type}

/-! ## The grammar of a tick -/

def Event.isReport : Event κ → Bool
  | .reported _ => true
  | _ => false

def trace (events : List (Event κ)) : List (Event κ) := events.filter fun e => !e.isReport

theorem trace_append (first rest : List (Event κ)) : trace (first ++ rest) = trace first ++ trace rest :=
  List.filter_append first rest

theorem trace_snoc_report (events : List (Event κ)) (r : Report) :
    trace (events ++ [.reported r]) = trace events := by
  rw [trace_append]
  exact List.append_nil _

inductive Hooked (call : Call) : Option (Hook κ) → List (Event κ) → Prop where
  | absent : Hooked call none []
  | returned {hook : Hook κ} {before after : κ} (h : hook before = .ok () after) :
      Hooked call (some hook) [.called call before after .returned]

/-- The verdict of a guard: what it answers, reversed if asked for, or no if it fails. -/
def verdictOf (reverse : Bool) : Except CallbackError Bool → Bool
  | .ok holds => holds != reverse
  | .error _ => false

/-- The scorers of branches are called once each, in order; the best score so far makes way for a better
one. -/
inductive Scored (id : NodeId) : Nat → Option (Nat × Float32) → List (Branch κ) → List (Event κ) →
    Option (Nat × Float32) → Prop where
  | done {index : Nat} {best : Option (Nat × Float32)} : Scored id index best [] [] best
  | scored {index : Nat} {best final : Option (Nat × Float32)} {branch : Branch κ}
      {branches : List (Branch κ)} {before after : κ} {raw score : Float32} {rest : List (Event κ)}
      (hscorer : branch.scorer.invoke before = .ok (.ok raw) after)
      (hcurve : branch.curve.evaluate raw = some score)
      (hrest : Scored id (index + 1) (Walk.better best index score) branches rest final) :
      Scored id index best (branch :: branches)
        (.called (.scorer id index) before after .returned :: rest) final
  | failed {index : Nat} {best final : Option (Nat × Float32)} {branch : Branch κ}
      {branches : List (Branch κ)} {before after : κ} {error : CallbackError} {rest : List (Event κ)}
      (hscorer : branch.scorer.invoke before = .ok (.error error) after)
      (hrest : Scored id (index + 1) best branches rest final) :
      Scored id index best (branch :: branches)
        (.called (.scorer id index) before after (.failed error) :: rest) final

inductive Decides (id : NodeId) : Behaviour κ → List (Event κ) → Option Port → Prop where
  | entry : Decides id .entry [] (some .out)
  | action {callback : Callback κ Unit} {before after : κ} {result : Except CallbackError Unit}
      (h : callback.invoke before = .ok result after) :
      Decides id (.action callback) [.called (.body id) before after (.ofResult result)] (some .out)
  | condition {guard : Callback κ Bool} {reverse : Bool} {before after : κ}
      {result : Except CallbackError Bool} (h : guard.invoke before = .ok result after) :
      Decides id (.condition guard reverse) [.called (.body id) before after (.ofResult result)]
        (some (if verdictOf reverse result then .whenTrue else .whenFalse))
  | loop {guard : Callback κ Bool} {reverse : Bool} {before after : κ}
      {result : Except CallbackError Bool} (h : guard.invoke before = .ok result after) :
      Decides id (.loop guard reverse) [.called (.body id) before after (.ofResult result)]
        (some (if verdictOf reverse result then .body else .finish))
  | utility {branches : List (Branch κ)} {calls : List (Event κ)} {best : Option (Nat × Float32)}
      (h : Scored id 0 none branches calls best) :
      Decides id (.utility branches) calls (best.map fun (index, _) => .branch index)

inductive Chances (id : TransitionId) (t : Transition κ) : List (Event κ) → Bool → Prop where
  | certain (h : t.probability.isAlways = true) : Chances id t [] true
  | drawn {threshold value : Float32} (h : t.probability.isAlways = false) :
      Chances id t
        [.drew id t.probability.min t.probability.max threshold, .drew id 0.0 percentMax value]
        (value ≤ threshold)

/-- What the gates of a transition record, and whether both let it through. -/
inductive Gates (id : TransitionId) (t : Transition κ) : List (Event κ) → Bool → Prop where
  | cooling {firing : Firing} {now : Float} (h : t.cooldownReady firing now = false) : Gates id t [] false
  | unlucky {draws : List (Event κ)} (h : Chances id t draws false) : Gates id t draws false
  | free {draws : List (Event κ)} {now : Float} (h : Chances id t draws true)
      (hzero : t.cooldown.isZero = true) : Gates id t (draws ++ [.fired id now none]) true
  | timed {draws : List (Event κ)} {now : Float} {cooldown : Float32} (h : Chances id t draws true)
      (hzero : t.cooldown.isZero = false) :
      Gates id t
        (draws ++ [.drew id t.cooldown.min t.cooldown.max cooldown, .fired id now (some cooldown)]) true

inductive Guards (id : TransitionId) (t : Transition κ) : List (Event κ) → Bool → Prop where
  | absent (h : t.guard = none) : Guards id t [] true
  | asked {guard : Callback κ Bool} {before after : κ} {result : Except CallbackError Bool}
      (h : t.guard = some guard) (hinvoke : guard.invoke before = .ok result after) :
      Guards id t [.called (.guard id) before after (.ofResult result)] (verdictOf t.reverse result)

/-- What is ticked: a node, or the transitions of a port from some of them on. -/
inductive Part where
  | node (id : NodeId)
  | port (ts : List TransitionId)

inductive Trace (g : Graph κ) : Part → List (Event κ) → Prop where
  | refused {id : NodeId} : Trace g (.node id) []
  | entered {id : NodeId} {n : Node κ} {pre calls fan post : List (Event κ)} {port : Option Port}
      (hn : g.node? id = some n) (hpre : Hooked (.preTick id) n.preTick pre)
      (hcalls : Decides id n.behaviour calls port)
      (hfan : Trace g (.port (port.elim [] (g.exits id))) fan)
      (hpost : Hooked (.postTick id) n.postTick post) :
      Trace g (.node id)
        (.entered id :: pre ++ (calls ++ (.chose id port :: fan ++ (post ++ [.left id]))))
  | finished : Trace g (.port []) []
  | held {t : TransitionId} {tr : Transition κ} {ts : List TransitionId} {gates rest : List (Event κ)}
      (htr : g.transition? t = some tr) (hgates : Gates t tr gates false)
      (hrest : Trace g (.port ts) rest) : Trace g (.port (t :: ts)) (.ticked t :: gates ++ rest)
  | shut {t : TransitionId} {tr : Transition κ} {ts : List TransitionId}
      {gates guard rest : List (Event κ)} (htr : g.transition? t = some tr)
      (hgates : Gates t tr gates true) (hguard : Guards t tr guard false)
      (hrest : Trace g (.port ts) rest) : Trace g (.port (t :: ts)) (.ticked t :: gates ++ guard ++ rest)
  | opened {t : TransitionId} {tr : Transition κ} {ts : List TransitionId}
      {gates guard below rest : List (Event κ)} (htr : g.transition? t = some tr)
      (hgates : Gates t tr gates true) (hguard : Guards t tr guard true)
      (hbelow : Trace g (.node tr.finish) below) (hgoes : tr.terminatesGroup = false)
      (hrest : Trace g (.port ts) rest) :
      Trace g (.port (t :: ts)) (.ticked t :: gates ++ guard ++ (.opened t :: below) ++ rest)
  /-- A transition that ends its group is the last one to be ticked. -/
  | ended {t : TransitionId} {tr : Transition κ} {ts : List TransitionId}
      {gates guard below : List (Event κ)} (htr : g.transition? t = some tr)
      (hgates : Gates t tr gates true) (hguard : Guards t tr guard true)
      (hbelow : Trace g (.node tr.finish) below) (hends : tr.terminatesGroup = true) :
      Trace g (.port (t :: ts)) (.ticked t :: gates ++ guard ++ (.opened t :: below))

/-! ## What parts of a walk write -/

namespace Walk

/-- A part of a walk that ends adds to the trace, and what it adds fits what it returns. -/
def Writes (w : Walk κ τ ρ α) (R : α → List (Event κ) → Prop) : Prop :=
  ∀ s, w.Leads s (fun a s' => s'.Adds s.journal.toList fun events => R a (trace events)) fun _ => True

section Rules

variable {R : α → List (Event κ) → Prop}

theorem Writes.imp {R' : α → List (Event κ) → Prop} {w : Walk κ τ ρ α} (h : w.Writes R)
    (hR : ∀ a events, R a events → R' a events) : w.Writes R' := fun s =>
  (h s).imp (fun a _ hs => hs.imp fun _ hevents => hR a _ hevents) fun _ hb => hb

theorem Writes.pure {a : α} (h : R a []) : (pure a : Walk κ τ ρ α).Writes R := fun _ => .nil h

/-- What the parts of a walk write stands in their order. -/
theorem Writes.bind {S : β → List (Event κ) → Prop} {w : Walk κ τ ρ β} {f : β → Walk κ τ ρ α}
    (hw : w.Writes S) (hf : ∀ b first, S b first → (f b).Writes fun a rest => R a (first ++ rest)) :
    (w >>= f).Writes R := by
  intro s
  rw [leads_bind]
  refine (hw s).imp (fun b s' hs => ?_) fun _ hb => hb
  obtain ⟨first, hfirst, hS⟩ := hs
  refine (hf b _ hS s').imp (fun a s'' hs => ?_) fun _ hb => hb
  obtain ⟨rest, hrest, hR⟩ := hs
  refine ⟨first ++ rest, by rw [hrest, hfirst, List.append_assoc], ?_⟩
  show R a (trace (first ++ rest))
  rw [trace_append]
  exact hR

/-- What writes nothing leaves the trace to what follows. -/
theorem Writes.after {w : Walk κ τ ρ β} {f : β → Walk κ τ ρ α} (hw : w.Writes fun _ events => events = [])
    (hf : ∀ b, (f b).Writes R) : (w >>= f).Writes R :=
  hw.bind fun b first hfirst => by
    rw [hfirst]
    exact hf b

theorem Writes.ite {c : Prop} [Decidable c] {w w' : Walk κ τ ρ α} (hw : c → w.Writes R)
    (hw' : ¬c → w'.Writes R) : (if c then w else w').Writes R := by
  split
  next h => exact hw h
  next h => exact hw' h

theorem writes_get : (get : Walk κ τ ρ (Session κ τ ρ)).Writes fun _ events => events = [] :=
  fun _ => .nil rfl

theorem writes_change (f : State → State) :
    (change f : Walk κ τ ρ Unit).Writes fun _ events => events = [] := fun s => .nil (s := s) rfl

theorem writes_modify {f : Session κ τ ρ → Session κ τ ρ} {events : List (Event κ)}
    (hf : ∀ s, (f s).Adds s.journal.toList fun added => trace added = events) :
    (modify f : Walk κ τ ρ Unit).Writes fun _ written => written = events := hf

theorem writes_record {e : Event κ} (he : e.isReport = false) :
    (record e : Walk κ τ ρ Unit).Writes fun _ events => events = [e] := fun s =>
  Session.Adds.record (.nil (P := fun events => events = []) rfl) e fun _ hnil => by
    rw [hnil, List.nil_append, trace, List.filter_singleton, he]
    rfl

theorem writes_report (r : Report) :
    (report r : Walk κ τ ρ Unit).Writes fun _ events => events = [] := fun s =>
  Session.Adds.record (.nil (P := fun events => events = []) rfl) (.reported r) fun _ hnil => by
    rw [hnil]
    rfl

end Rules

theorem writes_readClock [Clock κ τ] :
    (readClock : Walk κ τ ρ Float).Writes fun _ events => events = [] :=
  fun s => by
    rw [leads_readClock]
    exact .nil (s := s) rfl

theorem writes_draw [RandomSource ρ] (t : TransitionId) (lo hi : Float32) :
    (draw t lo hi : Walk κ τ ρ Float32).Writes fun value events => events = [.drew t lo hi value] := by
  intro s
  unfold Leads draw
  cases RandomSource.range lo hi s.random with
  | none => trivial
  | some drawn => exact ⟨[_], Session.toList_record _ _, rfl⟩

theorem writes_runHook (call : Call) (hook : Option (Hook κ)) :
    (runHook call hook : Walk κ τ ρ Unit).Writes fun _ events => Hooked call hook events := by
  cases hook with
  | none => exact .pure .absent
  | some hook =>
      intro s
      unfold Leads runHook
      dsimp only
      cases hreturn : hook s.context with
      | ok _ context => exact ⟨[_], Session.toList_record _ _, .returned hreturn⟩
      | error message context => trivial

theorem writes_invoke [OfValue α] (call : Call) (callback : Callback κ α) :
    (invoke call callback : Walk κ τ ρ (Except CallbackError α)).Writes fun result events =>
      ∃ before after, callback.invoke before = .ok result after ∧
        events = [.called call before after (.ofResult result)] := fun s =>
  leads_invoke_answer call callback
    (fun _ context hinvoke => ⟨[_], Session.toList_record _ _, s.context, context, hinvoke, rfl⟩)
    fun _ _ _ => trivial

theorem writes_settle (e : Element) (label : String) (result : Except CallbackError α) :
    (settle e label result : Walk κ τ ρ (Option α)).Writes fun value events =>
      value = result.toOption ∧ events = [] := by
  cases result with
  | ok a => exact .pure ⟨rfl, rfl⟩
  | error error =>
      refine .after (.after (writes_change _) fun _ => writes_report _) fun _ => .pure ⟨rfl, rfl⟩

theorem writes_verdict (e : Element) (label : String) (reverse : Bool)
    (result : Except CallbackError Bool) :
    (verdict e label reverse result : Walk κ τ ρ Bool).Writes fun holds events =>
      holds = verdictOf reverse result ∧ events = [] := by
  refine .bind (writes_settle e label result) fun value first h => ?_
  obtain ⟨rfl, rfl⟩ := h
  cases result <;> exact .pure ⟨rfl, rfl⟩

theorem writes_evaluate (c : Curve) (raw : Float32) :
    (evaluate c raw : Walk κ τ ρ Float32).Writes fun score events =>
      c.evaluate raw = some score ∧ events = [] := by
  intro s
  unfold Leads evaluate
  cases hscore : c.evaluate raw with
  | none => trivial
  | some score => exact .nil ⟨rfl, rfl⟩

/-- Switches of control are told in reports only. -/
theorem writes_switchTo (g : Graph κ) (id : NodeId) (s : Session κ τ ρ) :
    (s.switchTo g id).Adds s.journal.toList fun events => trace events = [] :=
  Session.Adds.switchTo (P := fun events => trace events = []) (.nil rfl)
    (fun r events h => (trace_snoc_report events r).trans h) g id

theorem writes_commit (g : Graph κ) (id : NodeId) (n : Node κ) (port : Option Port) (s : Session κ τ ρ) :
    (s.commit g id n port).Adds s.journal.toList fun events => trace events = [.chose id port] := by
  refine Session.commit_induction
    (P := fun s' => s'.Adds s.journal.toList fun events => trace events = [.chose id port]) n port
    (fun s' node hs => ?_) (fun _ hs => hs) (fun _ _ _ _ _ hs => hs) ?_
  · exact hs.switchTo (fun r events h => (trace_snoc_report events r).trans h) g node
  · exact ⟨[_], Session.toList_record _ _, rfl⟩

/-! ## Transitions -/

section Transitions

variable [Clock κ τ] [RandomSource ρ] {id : TransitionId} {t : Transition κ}

omit [Clock κ τ] in
theorem writes_passesChance :
    (rollGates.passesChance id t : Walk κ τ ρ Bool).Writes fun passes events =>
      Chances id t events passes := by
  unfold rollGates.passesChance
  refine .ite (fun h => .pure (.certain h)) fun h => ?_
  refine .bind (writes_draw id _ _) fun threshold first hfirst => ?_
  refine .bind (writes_draw id _ _) fun value second hsecond => ?_
  rw [hfirst, hsecond]
  exact .pure (.drawn (Bool.eq_false_iff.mpr h))

/-- A transition has fired just if both of its gates have let it through. -/
theorem writes_rollGates :
    (rollGates id t : Walk κ τ ρ Bool).Writes fun passes events => Gates id t events passes := by
  unfold rollGates
  refine .after writes_readClock fun now => .after writes_get fun s => ?_
  refine .ite (fun hcooling => .pure (.cooling (by simpa using hcooling))) fun _ => ?_
  refine .bind writes_passesChance fun passes draws hdraws => ?_
  cases passes with
  | false => exact .pure (.unlucky (by simpa using hdraws))
  | true =>
      refine .ite nofun fun _ => .ite (fun hzero => ?_) fun hzero => ?_
      · refine .bind (writes_record rfl) fun _ fired hfired => .pure ?_
        rw [hfired, List.append_nil]
        exact .free hdraws hzero
      · refine .bind (writes_draw id _ _) fun cooldown drawn hdrawn => ?_
        refine .after (writes_change _) fun _ => .bind (writes_record rfl) fun _ fired hfired => .pure ?_
        rw [hdrawn, hfired, List.append_nil]
        exact .timed hdraws (Bool.eq_false_iff.mpr hzero)

omit [Clock κ τ] [RandomSource ρ] in
theorem writes_passesGuard :
    (passesGuard id t : Walk κ τ ρ Bool).Writes fun passes events => Guards id t events passes := by
  unfold passesGuard
  cases hguard : t.guard with
  | none => exact .pure (.absent hguard)
  | some guard =>
      refine .bind (writes_invoke _ guard) fun result first hfirst => ?_
      obtain ⟨before, after, hinvoke, rfl⟩ := hfirst
      refine .after (writes_change _) fun _ => (writes_verdict _ _ _ result).imp fun holds rest h => ?_
      obtain ⟨rfl, rfl⟩ := h
      exact .asked hguard hinvoke

variable {g : Graph κ} {visit : NodeId → Walk κ τ ρ Unit}
  (hvisit : ∀ id, (visit id).Writes fun _ events => Trace g (.node id) events)
include hvisit

/-- What a transition that is ticked writes goes before the traces of the transitions after it, if these
are ticked. -/
theorem writes_follow (htr : g.transition? id = some t) (ts : List TransitionId) :
    (follow visit id t).Writes fun goes events =>
      if goes then
        ∀ rest, Trace g (.port ts) rest → Trace g (.port (id :: ts)) (.ticked id :: events ++ rest)
      else Trace g (.port (id :: ts)) (.ticked id :: events) := by
  unfold follow
  refine .bind writes_rollGates fun passes gates hgates => ?_
  cases passes with
  | false =>
      refine .pure fun rest hrest => ?_
      simpa using .held htr hgates hrest
  | true =>
      refine .ite nofun fun _ => .after (writes_change _) fun _ => ?_
      refine .bind writes_passesGuard fun passes guard hguard => ?_
      cases passes with
      | false =>
          refine .pure fun rest hrest => ?_
          simpa using Trace.shut htr hgates hguard hrest
      | true =>
          refine .ite nofun fun _ => .bind (writes_record rfl) fun _ opened hopened => ?_
          refine .bind (hvisit t.finish) fun _ below hbelow => .pure ?_
          cases hends : t.terminatesGroup with
          | false =>
              intro rest hrest
              simpa [hopened] using Trace.opened htr hgates hguard hbelow hends hrest
          | true => simpa [hopened] using Trace.ended htr hgates hguard hbelow hends

theorem writes_tickTransition (htr : g.transition? id = some t) (ts : List TransitionId) :
    (tickTransition g visit id).Writes fun goes events =>
      if goes then ∀ rest, Trace g (.port ts) rest → Trace g (.port (id :: ts)) (events ++ rest)
      else Trace g (.port (id :: ts)) events := by
  have hfollow {ticked : List (Event κ)} (hticked : ticked = [.ticked id]) :
      (follow visit id t).Writes fun goes events =>
        if goes then
          ∀ rest, Trace g (.port ts) rest → Trace g (.port (id :: ts)) (ticked ++ events ++ rest)
        else Trace g (.port (id :: ts)) (ticked ++ events) := by
    rw [hticked]
    exact writes_follow hvisit htr ts
  unfold tickTransition
  rw [htr]
  refine .bind (writes_record rfl) fun _ ticked hticked => ?_
  refine .ite (fun _ => ?_) fun _ => hfollow hticked
  exact .after (writes_modify (writes_switchTo g t.start)) fun _ => hfollow hticked

/-- The transitions of a port write its trace. -/
theorem writes_fanOut (ts : List TransitionId) (hts : ∀ t ∈ ts, g.hasTransition t = true) :
    (fanOut (tickTransition g visit) ts).Writes fun _ events => Trace g (.port ts) events := by
  induction ts with
  | nil => exact .pure .finished
  | cons t ts ih =>
      obtain ⟨tr, htr⟩ := Graph.hasTransition_iff.mp (hts t List.mem_cons_self)
      unfold fanOut
      refine .bind (writes_tickTransition hvisit htr ts) fun goes events hevents => ?_
      cases goes with
      | true => exact (ih fun u hu => hts u (List.mem_cons_of_mem t hu)).imp fun _ rest => hevents rest
      | false =>
          refine .pure ?_
          rw [List.append_nil]
          exact hevents

end Transitions

/-! ## Nodes -/

section Nodes

variable {g : Graph κ} {id : NodeId} {n : Node κ}

theorem writes_enter :
    (enter g id n : Walk κ τ ρ Bool).Writes fun goes events =>
      if goes then ∃ pre, Hooked (.preTick id) n.preTick pre ∧ events = .entered id :: pre
      else events = [] := by
  unfold enter
  refine .ite (fun _ => ?_) fun _ => .after writes_get fun s => .ite (fun _ => .pure rfl) fun _ => ?_
  · refine .bind (writes_record rfl) fun _ first hfirst => ?_
    refine .bind (writes_runHook _ _) fun _ pre hpre => .after (writes_change _) fun _ => .pure ?_
    exact ⟨pre, hpre, by rw [hfirst, List.append_nil, List.singleton_append]⟩
  · refine .bind (writes_record rfl) fun _ first hfirst => .after (writes_change _) fun _ => ?_
    refine .bind (writes_runHook _ _) fun _ pre hpre => ?_
    have hended : ∃ all, Hooked (.preTick id) n.preTick all ∧ first ++ (pre ++ []) = .entered id :: all :=
      ⟨pre, hpre, by rw [hfirst, List.append_nil, List.singleton_append]⟩
    refine .ite (fun _ => ?_) fun _ => .after (writes_change _) fun _ => .pure hended
    exact .after (writes_modify (writes_switchTo g id)) fun _ =>
      .after (writes_change _) fun _ => .pure hended

theorem writes_scoreBranches (label : String) (branches : List (Branch κ)) (index : Nat)
    (best : Option (Nat × Float32)) :
    (scoreBranches id label index best branches : Walk κ τ ρ (Option (Nat × Float32))).Writes
      fun final events => Scored id index best branches events final := by
  induction branches generalizing index best with
  | nil => exact .pure .done
  | cons branch branches ih =>
      unfold scoreBranches
      refine .bind (writes_invoke _ _) fun result first hfirst => ?_
      obtain ⟨before, after, hinvoke, rfl⟩ := hfirst
      cases result with
      | ok raw =>
          refine .bind (writes_evaluate branch.curve raw) fun score _ hscore => ?_
          obtain ⟨hscore, rfl⟩ := hscore
          exact (ih _ _).imp fun final rest hrest => .scored hinvoke hscore hrest
      | error error =>
          refine .after (.after (writes_change _) fun _ => writes_report _) fun _ => ?_
          exact (ih _ _).imp fun final rest hrest => .failed hinvoke hrest

theorem writes_choose :
    (choose id n : Walk κ τ ρ (Option Port)).Writes fun port events =>
      Decides id n.behaviour events port := by
  unfold choose
  cases n.behaviour with
  | entry => exact .pure .entry
  | action callback =>
      refine .bind (writes_invoke _ callback) fun result first hfirst => ?_
      obtain ⟨before, after, hinvoke, rfl⟩ := hfirst
      refine .bind (writes_settle _ _ result) fun _ rest hrest => .pure ?_
      rw [hrest.2]
      exact .action hinvoke
  | condition guard reverse =>
      refine .bind (writes_invoke _ guard) fun result first hfirst => ?_
      obtain ⟨before, after, hinvoke, rfl⟩ := hfirst
      refine .bind (writes_verdict _ _ reverse result) fun holds rest hrest => .pure ?_
      rw [hrest.1, hrest.2]
      exact .condition hinvoke
  | loop guard reverse =>
      refine .bind (writes_invoke _ guard) fun result first hfirst => ?_
      obtain ⟨before, after, hinvoke, rfl⟩ := hfirst
      refine .bind (writes_verdict _ _ reverse result) fun holds rest hrest => .pure ?_
      rw [hrest.1, hrest.2]
      exact .loop hinvoke
  | utility branches =>
      refine .bind (writes_scoreBranches n.label branches 0 none) fun best calls hcalls => .pure ?_
      rw [List.append_nil]
      exact .utility hcalls

theorem writes_leave :
    (leave g id n : Walk κ τ ρ Unit).Writes fun _ events =>
      ∃ post, Hooked (.postTick id) n.postTick post ∧ events = post ++ [.left id] := by
  have hrest : (do runHook (.postTick id) n.postTick; record (.left id) : Walk κ τ ρ Unit).Writes
      fun _ events => ∃ post, Hooked (.postTick id) n.postTick post ∧ events = post ++ [.left id] :=
    .bind (writes_runHook _ _) fun _ post hpost => (writes_record rfl).imp fun _ last hlast =>
      ⟨post, hpost, by rw [hlast]⟩
  unfold leave
  exact .after writes_get fun s => .ite (fun _ => .after (writes_change _) fun _ => hrest) fun _ => hrest

/-- A node that is not refused calls what it decides by between its hooks, and then the transitions of the
port are ticked. -/
theorem writes_runNode [Clock κ τ] [RandomSource ρ] (hg : g.Consistent) (hn : g.node? id = some n)
    {visit : NodeId → Walk κ τ ρ Unit}
    (hvisit : ∀ id, (visit id).Writes fun _ events => Trace g (.node id) events) :
    (runNode g id n (tickTransition g visit)).Writes fun _ events => Trace g (.node id) events := by
  unfold runNode
  refine .bind writes_enter fun goes first hfirst => .ite (fun hgoes => ?_) fun hrefused => ?_
  · obtain ⟨pre, hpre, hfirst⟩ :
        ∃ pre, Hooked (.preTick id) n.preTick pre ∧ first = .entered id :: pre := by
      simpa [hgoes] using hfirst
    refine .bind writes_choose fun port calls hcalls => ?_
    refine .bind (writes_modify (writes_commit g id n port)) fun _ chose hchose => ?_
    have hleft {fan post last : List (Event κ)} (hfan : Trace g (.port (port.elim [] (g.exits id))) fan)
        (hpost : Hooked (.postTick id) n.postTick post) (hlast : last = post ++ [.left id]) :
        Trace g (.node id) (first ++ (calls ++ (chose ++ (fan ++ last)))) := by
      simpa [hfirst, hchose, hlast] using Trace.entered hn hpre hcalls hfan hpost
    cases port with
    | none =>
        refine writes_leave.imp fun _ last h => ?_
        obtain ⟨post, hpost, hlast⟩ := h
        exact hleft .finished hpost hlast
    | some port =>
        have hexits : ∀ t ∈ g.exits id port, g.hasTransition t = true := by
          intro t ht
          obtain ⟨tr, htr, _⟩ := hg.mem_exits.mp ht
          exact Graph.hasTransition_iff.mpr ⟨tr, htr⟩
        refine .bind (writes_fanOut hvisit (g.exits id port) hexits) fun _ fan hfan => ?_
        refine writes_leave.imp fun _ last h => ?_
        obtain ⟨post, hpost, hlast⟩ := h
        exact hleft hfan hpost hlast
  · have hnil : first = [] := by simpa [hrefused] using hfirst
    rw [hnil]
    exact .pure .refused

/-- A node tick writes the trace of its node. -/
theorem writes_visit [Clock κ τ] [RandomSource ρ] (hg : g.Consistent) (budget : Nat) (id : NodeId) :
    (visit g budget id : Walk κ τ ρ Unit).Writes fun _ events => Trace g (.node id) events := by
  induction budget generalizing id with
  | zero => exact (writes_report _).imp fun _ events hnil => hnil ▸ .refused
  | succ budget ih =>
      unfold visit
      refine .after (writes_change _) fun _ => ?_
      cases hn : g.node? id with
      | none => exact (writes_change _).imp fun _ events hnil => hnil ▸ .refused
      | some n =>
          refine .bind (writes_runNode hg hn ih) fun _ events hevents => ?_
          refine (writes_change _).imp fun _ rest hrest => ?_
          rw [hrest, List.append_nil]
          exact hevents

end Nodes

end Walk

/-! ## Hooks in stack order -/

def Event.isHook : Event κ → Bool
  | .called (.preTick _) _ _ _ | .called (.postTick _) _ _ _ => true
  | _ => false

def Graph.isHooked (g : Graph κ) (id : NodeId) : Bool :=
  (g.node? id).any fun n => n.preTick.isSome && n.postTick.isSome

/-- The nodes with both hooks that are between these after an event, latest first; none if a hook was
called that does not close the latest. -/
def hooksAfter (g : Graph κ) (stack : Option (List NodeId)) : Event κ → Option (List NodeId)
  | .called (.preTick id) _ _ _ => if g.isHooked id then stack.map (id :: ·) else stack
  | .called (.postTick id) _ _ _ =>
    if g.isHooked id then stack.bind fun ids => if ids.head? = some id then some ids.tail else none
    else stack
  | _ => stack

section Hooks

variable {g : Graph κ} {stack : List NodeId} {events : List (Event κ)}

theorem hooksAfter_of_hookless {e : Event κ} (h : e.isHook = false) (stack : Option (List NodeId)) :
    hooksAfter g stack e = stack := by
  unfold hooksAfter
  split <;> first | rfl | cases h

theorem foldl_hooksAfter (h : ∀ e ∈ events, e.isHook = false) (stack : Option (List NodeId)) :
    events.foldl (hooksAfter g) stack = stack := by
  induction events with
  | nil => rfl
  | cons e events ih =>
      rw [List.foldl_cons, hooksAfter_of_hookless (h e List.mem_cons_self)]
      exact ih fun f hf => h f (List.mem_cons_of_mem e hf)

theorem Scored.hookless {id : NodeId} {index : Nat} {best final : Option (Nat × Float32)}
    {branches : List (Branch κ)} (h : Scored id index best branches events final) :
    ∀ e ∈ events, e.isHook = false := by
  induction h with
  | done => exact nofun
  | scored _ _ _ ih => exact List.forall_mem_cons.mpr ⟨rfl, ih⟩
  | failed _ _ ih => exact List.forall_mem_cons.mpr ⟨rfl, ih⟩

theorem Decides.hookless {id : NodeId} {behaviour : Behaviour κ} {port : Option Port}
    (h : Decides id behaviour events port) : ∀ e ∈ events, e.isHook = false := by
  cases h with
  | entry => exact nofun
  | action => exact List.forall_mem_singleton.mpr rfl
  | condition => exact List.forall_mem_singleton.mpr rfl
  | loop => exact List.forall_mem_singleton.mpr rfl
  | utility h => exact h.hookless

theorem Chances.hookless {id : TransitionId} {t : Transition κ} {passes : Bool}
    (h : Chances id t events passes) : ∀ e ∈ events, e.isHook = false := by
  cases h <;> simp [Event.isHook]

theorem Gates.hookless {id : TransitionId} {t : Transition κ} {passes : Bool}
    (h : Gates id t events passes) : ∀ e ∈ events, e.isHook = false := by
  cases h with
  | cooling => exact nofun
  | unlucky h => exact h.hookless
  | free h => exact List.forall_mem_append.mpr ⟨h.hookless, by simp [Event.isHook]⟩
  | timed h => exact List.forall_mem_append.mpr ⟨h.hookless, by simp [Event.isHook]⟩

theorem Guards.hookless {id : TransitionId} {t : Transition κ} {passes : Bool}
    (h : Guards id t events passes) : ∀ e ∈ events, e.isHook = false := by
  cases h with
  | absent => exact nofun
  | asked => exact List.forall_mem_singleton.mpr rfl

/-- The hook before a node tick opens a pair, if there is another after it. -/
theorem Hooked.foldl_preTick {id : NodeId} {n : Node κ} (hn : g.node? id = some n)
    (h : Hooked (.preTick id) n.preTick events) :
    events.foldl (hooksAfter g) (some stack) = some (if g.isHooked id then id :: stack else stack) := by
  cases hhook : n.preTick with
  | none =>
      rw [hhook] at h
      cases h
      simp [Graph.isHooked, hn, hhook]
  | some hook =>
      rw [hhook] at h
      cases h
      rw [List.foldl_cons, List.foldl_nil, hooksAfter]
      split <;> rfl

/-- The hook after a node tick closes the pair. -/
theorem Hooked.foldl_postTick {id : NodeId} {n : Node κ} (hn : g.node? id = some n)
    (h : Hooked (.postTick id) n.postTick events) :
    events.foldl (hooksAfter g) (some (if g.isHooked id then id :: stack else stack)) = some stack := by
  cases hhook : n.postTick with
  | none =>
      rw [hhook] at h
      cases h
      simp [Graph.isHooked, hn, hhook]
  | some hook =>
      rw [hhook] at h
      cases h
      rw [List.foldl_cons, List.foldl_nil, hooksAfter]
      split <;> simp

/-- Within a trace every hook before the tick of a node that has both is closed by the one after it. -/
theorem Trace.closes_hooks {part : Part} (h : Trace g part events) (stack : List NodeId) :
    events.foldl (hooksAfter g) (some stack) = some stack := by
  induction h generalizing stack with
  | refused => rfl
  | @entered id _ _ _ _ _ _ hn hpre hcalls _ hpost ih =>
      simp [hooksAfter, hpre.foldl_preTick hn, foldl_hooksAfter hcalls.hookless, ih,
        hpost.foldl_postTick hn]
  | finished => rfl
  | held _ hgates _ ih =>
      simp [hooksAfter, foldl_hooksAfter hgates.hookless, ih]
  | shut _ hgates hguard _ ih =>
      simp [hooksAfter, foldl_hooksAfter hgates.hookless, foldl_hooksAfter hguard.hookless, ih]
  | opened _ hgates hguard _ _ _ ihbelow ihrest =>
      simp [hooksAfter, foldl_hooksAfter hgates.hookless, foldl_hooksAfter hguard.hookless, ihbelow,
        ihrest]
  | ended _ hgates hguard _ _ ih =>
      simp [hooksAfter, foldl_hooksAfter hgates.hookless, foldl_hooksAfter hguard.hookless, ih]

end Hooks

/-! ## The trace of a tick -/

def Event.call? : Event κ → Option Call
  | .called call _ _ _ => some call
  | _ => none

def countingHook : Hook Nat := fun n => .ok () (n + 1)

/-- A condition that leads on through a guard to an action, which leads back and ends its group, so that the
last action is left out; a pair of hooks around the condition and the actions. -/
def ritualSteps : List (BuildStep Nat) :=
  [.add "ready" (.condition (.noArgs fun n => .ok (.ok (n < 5)) (n + 1)) false)
      [.preTick countingHook, .postTick countingHook],
    .add "act" (.action (.noArgs (pure (.error (.unexpected "spilled")))))
      [.preTick countingHook, .postTick countingHook],
    .add "rest" (.action (.noArgs (pure (.ok ())))) [.preTick countingHook, .postTick countingHook],
    .link entryNode ⟨1⟩,
    .connect ⟨1⟩ .whenTrue ⟨2⟩
      { guard := some (.noArgs fun n => .ok (.ok (n = 0)) (n + 1)), reverse := true,
        terminatesGroup := true },
    .connect ⟨1⟩ .whenTrue ⟨3⟩ {}, .link ⟨2⟩ ⟨1⟩]

def ritualGraph : Graph Nat := .ofSteps ritualSteps

theorem ritual_built : ritualGraph.Built := ⟨{}, none, ritualSteps, by decide, rfl⟩

def ritualStart : Session Nat ManualClock Xoshiro :=
  .start ritualGraph 0 (ManualClock.mk 0.0) (Xoshiro.ofSeed 0)

def ritualTicked : Session Nat ManualClock Xoshiro := (ritualStart.perform ritualGraph .tick).2

end BehaviourGraph
