import BehaviourGraph.Proofs.History
import BehaviourGraph.Proofs.Walk.Lockstep

/-!
# Soft failures

A callback that fails lowers a status and is reported, and its element goes on with a default: an
action is done, and a guard does not hold, whether or not its verdicts are reversed.  Nothing that a
walk does depends on a status.  So a host whose callbacks answer with the default where those of
another host fail sees the same run, apart from statuses and reports of failures.
-/

namespace BehaviourGraph

variable {κ τ ρ α β : Type}

/-! ## Softened graphs -/

/-- A callback does the same as another, except that it may answer with a default where the other
fails. -/
def Callback.SoftensTo [OfValue α] (c : Callback κ α) (default : α) (c' : Callback κ α) : Prop :=
  ∀ context, c'.invoke context = c.invoke context ∨
    ∃ error after, c.invoke context = .ok (.error error) after ∧
      c'.invoke context = .ok (.ok default) after

/-- The default of a guard is the verdict that does not hold once it is reversed. -/
inductive Behaviour.SoftensTo : Behaviour κ → Behaviour κ → Prop where
  | entry : SoftensTo .entry .entry
  | action {c c' : Callback κ Unit} (h : c.SoftensTo () c') : SoftensTo (.action c) (.action c')
  | condition {c c' : Callback κ Bool} {reverse : Bool} (h : c.SoftensTo reverse c') :
      SoftensTo (.condition c reverse) (.condition c' reverse)
  | loop {c c' : Callback κ Bool} {reverse : Bool} (h : c.SoftensTo reverse c') :
      SoftensTo (.loop c reverse) (.loop c' reverse)
  | utility {branches branches' : List (Branch κ)}
      (h : List.Forall₂ (fun b b' => b'.curve = b.curve ∧ b'.scorer.invoke = b.scorer.invoke) branches
        branches') : SoftensTo (.utility branches) (.utility branches')

structure Node.SoftensTo (n n' : Node κ) : Prop where
  label : n'.label = n.label
  behaviour : n.behaviour.SoftensTo n'.behaviour
  capturesControl : n'.capturesControl = n.capturesControl
  preTick : n'.preTick = n.preTick
  postTick : n'.postTick = n.postTick
  outgoing : n'.outgoing = n.outgoing
  exits : n'.exits = n.exits

structure Transition.SoftensTo (t t' : Transition κ) : Prop where
  same : t' = { t with guard := t'.guard }
  guard : Option.Rel (fun c c' => c.SoftensTo t.reverse c') t.guard t'.guard

structure Graph.SoftensTo (g g' : Graph κ) : Prop where
  config : g'.config = g.config
  onReset : g'.onReset = g.onReset
  node : ∀ id, Option.Rel Node.SoftensTo (g.node? id) (g'.node? id)
  transition : ∀ t, Option.Rel Transition.SoftensTo (g.transition? t) (g'.transition? t)

theorem Node.SoftensTo.twin {n n' : Node κ} (h : n.SoftensTo n') : n.Twin n' := by
  have hbehaviour : n'.behaviour.kind = n.behaviour.kind ∧ n'.behaviour.ports = n.behaviour.ports := by
    have hb := h.behaviour
    generalize n.behaviour = b at hb ⊢
    generalize n'.behaviour = b' at hb ⊢
    cases hb with
    | utility hbranches => exact ⟨rfl, by simp only [Behaviour.ports, hbranches.length_eq]⟩
    | _ => exact ⟨rfl, rfl⟩
  exact ⟨hbehaviour.1, hbehaviour.2, h.capturesControl, h.preTick, h.postTick⟩

theorem Graph.SoftensTo.sameWiring {g g' : Graph κ} (h : g.SoftensTo g') : g.SameWiring g' := by
  refine Graph.sameWiring_of_rel
    (fun id => rel_imp (h.node id) fun n n' hn => ⟨hn.outgoing, hn.exits⟩)
    fun t => rel_imp (h.transition t) fun tr tr' ht => ?_
  rw [ht.same]

/-! ## Sessions that differ in statuses -/

def State.bare (s : State) : State := { s with status := ⟨#[], #[]⟩ }

/-- What is left of an event without the failure of its callback; the failures of scorers stay, they are
scored differently from every answer. -/
def Event.softened? : Event κ → Option (Event κ)
  | .reported (.failed _ _ _) => none
  | .called (.scorer id branch) before after outcome =>
    some (.called (.scorer id branch) before after outcome)
  | .called call before after (.failed _) => some (.called call before after .returned)
  | e => some e

def softened (events : List (Event κ)) : List (Event κ) := events.filterMap Event.softened?

/-- Two sessions differ at most in their statuses and in the failures that they have seen. -/
structure Alike (origin origin' : List (Event κ)) (s s' : Session κ τ ρ) : Prop where
  state : s.state.bare = s'.state.bare
  context : s.context = s'.context
  clock : s.clock = s'.clock
  random : s.random = s'.random
  journal : s.Adds origin fun events => s'.Adds origin' fun events' => softened events = softened events'

section Alike

variable {origin origin' : List (Event κ)} {s s' : Session κ τ ρ} {g g' : Graph κ}

theorem softened_snoc (events : List (Event κ)) (e : Event κ) :
    softened (events ++ [e]) = softened events ++ e.softened?.toList := by
  unfold softened
  rw [List.filterMap_append]
  cases he : e.softened? <;> simp [he]

theorem Alike.change (h : Alike origin origin' s s') {f f' : State → State}
    (hf : (f s.state).bare = (f' s'.state).bare) : Alike origin origin' (s.change f) (s'.change f') :=
  ⟨hf, h.context, h.clock, h.random, h.journal⟩

theorem Alike.surround (h : Alike origin origin' s s') (context : κ) (clock : τ) (random : ρ) :
    Alike origin origin' { s with context, clock, random } { s' with context, clock, random } :=
  ⟨h.state, rfl, rfl, rfl, h.journal⟩

theorem Alike.record (h : Alike origin origin' s s') {e e' : Event κ}
    (he : e.softened? = e'.softened?) : Alike origin origin' (s.record e) (s'.record e') := by
  refine ⟨h.state, h.context, h.clock, h.random, ?_⟩
  refine Session.Adds.record h.journal e fun events hevents => ?_
  refine Session.Adds.record hevents e' fun events' hsame => ?_
  rw [softened_snoc, softened_snoc, hsame, he]

/-- A failure on one side only. -/
theorem Alike.failed (h : Alike origin origin' s s') (e : Element) (label : String)
    (error : CallbackError) :
    Alike origin origin'
      ((s.change (State.demote e error.status)).report (.failed e label error)) s' := by
  refine ⟨h.state, h.context, h.clock, h.random, ?_⟩
  refine Session.Adds.record h.journal _ fun events hevents => hevents.imp fun events' hsame => ?_
  rw [softened_snoc, ← hsame]
  exact List.append_nil _

theorem mirrored_alike (origin origin' : List (Event κ)) :
    Walk.Mirrored (Alike (τ := τ) (ρ := ρ) origin origin') where
  context _ _ hs := hs.context
  control s s' hs := show s.state.bare.control = s'.state.bare.control by rw [hs.state]
  queue s s' hs := show s.state.bare.queue = s'.state.bare.queue by rw [hs.state]
  visited s s' e hs := show s.state.bare.has .visited e = s'.state.bare.has .visited e by rw [hs.state]
  setContext s s' context hs := ⟨hs.state, rfl, hs.clock, hs.random, hs.journal⟩
  record _ _ _ hs := hs.record rfl
  setNormal _ _ _ hs := hs.change hs.state
  demote _ _ _ _ hs := hs.change hs.state
  setDepth _ _ depth hs :=
    hs.change (congrArg (fun a : State => { a with depth := depth a.depth }) hs.state)
  mark _ _ e hs := hs.change (congrArg (State.mark e) hs.state)
  relax g _ _ flag e hs := by
    refine hs.change ?_
    cases flag with
    | active => exact congrArg (State.relax g .active e) hs.state
    | visited => exact congrArg (State.relax g .visited e) hs.state
  setControl _ _ id hs := hs.change (congrArg (fun a : State => { a with control := id }) hs.state)
  sweep _ _ hs := hs.change (congrArg State.sweep hs.state)
  setQueue _ _ queue hs :=
    hs.change (congrArg (fun a : State => { a with queue := queue a.queue }) hs.state)

/-! ## Answers -/

def Softer (default : α) (result result' : Except CallbackError α) : Prop :=
  result = result' ∨ ∃ error, result = .error error ∧ result' = .ok default

theorem Callback.SoftensTo.matches_invoke [OfValue α] {default : α} {c c' : Callback κ α}
    (h : c.SoftensTo default c') (call : Call) (hcall : ∀ id branch, call ≠ .scorer id branch) :
    Walk.Matches (Alike origin origin') (Softer default) (Walk.invoke call c : Walk κ τ ρ _)
      (Walk.invoke call c') := by
  intro s s' hs
  rcases h s.context with hsame | ⟨error, after, hfails, hreturns⟩
  · exact ((mirrored_alike origin origin').match_invoke call hs hsame).imp
      fun _ _ => .inl
  · have hcontext := hs.context
    unfold Walk.invoke
    rw [hfails, ← hcontext, hreturns]
    refine .ends (.inr ⟨error, rfl, rfl⟩) ?_
    have hafter : Alike origin origin' { s with context := after } { s' with context := after } :=
      ⟨hs.state, rfl, hs.clock, hs.random, hs.journal⟩
    refine hafter.record ?_
    cases call with
    | scorer id branch => exact (hcall id branch rfl).elim
    | _ => rfl

theorem Softer.matches_settle {default : α} {result result' : Except CallbackError α}
    (h : Softer default result result') (e : Element) (label : String) :
    Walk.Matches (Alike origin origin') (fun _ _ => True)
      (Walk.settle e label result : Walk κ τ ρ _) (Walk.settle e label result') := by
  rcases h with rfl | ⟨error, rfl, rfl⟩
  · exact ((mirrored_alike origin origin').matches_settle e label result).imp
      fun _ _ _ => trivial
  · exact fun s s' hs => .ends trivial (hs.failed e label error)

theorem Softer.matches_verdict {reverse : Bool} {result result' : Except CallbackError Bool}
    (h : Softer reverse result result') (e : Element) (label : String) :
    Walk.Matches (Alike origin origin') Eq (Walk.verdict e label reverse result : Walk κ τ ρ _)
      (Walk.verdict e label reverse result') := by
  rcases h with rfl | ⟨error, rfl, rfl⟩
  · exact (mirrored_alike origin origin').matches_verdict e label reverse result
  · exact fun s s' hs => .ends (by simp) (hs.failed e label error)

/-! ## Walks that differ in failures -/

/-- A failed guard leads where a verdict that does not hold leads. -/
theorem Node.SoftensTo.matches_choose {n n' : Node κ} (h : n.SoftensTo n') (id : NodeId) :
    Walk.Matches (Alike origin origin') Eq (Walk.choose id n : Walk κ τ ρ _) (Walk.choose id n') := by
  have hguard {c c' : Callback κ Bool} {reverse : Bool} (hc : c.SoftensTo reverse c')
      (f : Bool → Option Port) :
      Walk.Matches (Alike (τ := τ) (ρ := ρ) origin origin') Eq
        (do return f (← Walk.verdict (.node id) n.label reverse (← Walk.invoke (.body id) c)))
        (do return f (← Walk.verdict (.node id) n.label reverse (← Walk.invoke (.body id) c'))) :=
    (hc.matches_invoke (.body id) fun _ _ => nofun).bind fun _ _ hresult =>
      (hresult.matches_verdict _ _).then fun _ => .pure rfl
  have hb := h.behaviour
  unfold Walk.choose
  rw [h.label]
  generalize n.behaviour = b at hb ⊢
  generalize n'.behaviour = b' at hb ⊢
  cases hb with
  | entry => exact .pure rfl
  | action hc =>
      exact (hc.matches_invoke (.body id) fun _ _ => nofun).bind fun _ _ hresult =>
        (hresult.matches_settle _ _).bind fun _ _ _ => .pure rfl
  | condition hc => exact hguard hc fun holds => some (if holds then .whenTrue else .whenFalse)
  | loop hc => exact hguard hc fun holds => some (if holds then .body else .finish)
  | utility hbranches =>
      exact ((mirrored_alike origin origin').matches_scoreBranches id n.label hbranches 0 none).then
        fun _ => .pure rfl

theorem Transition.SoftensTo.matches_passesGuard {t t' : Transition κ} (h : t.SoftensTo t')
    (id : TransitionId) :
    Walk.Matches (Alike origin origin') Eq (Walk.passesGuard id t : Walk κ τ ρ _)
      (Walk.passesGuard id t') := by
  have hlabel : t'.labelText = t.labelText := by rw [h.same]; rfl
  have hreverse : t'.reverse = t.reverse := by rw [h.same]
  have hguard := h.guard
  unfold Walk.passesGuard
  rw [hlabel, hreverse]
  generalize t.guard = guard at hguard ⊢
  generalize t'.guard = guard' at hguard ⊢
  cases hguard with
  | none => exact .pure rfl
  | some hc =>
      refine (hc.matches_invoke (.guard id) fun _ _ => nofun).bind fun _ _ hresult => ?_
      exact (Walk.matches_change fun s s' hs => (mirrored_alike origin origin').setNormal s s' _ hs).then
        fun _ => hresult.matches_verdict _ _

theorem matches_draw [RandomSource ρ] (t : TransitionId) (lo hi : Float32) :
    Walk.Matches (Alike origin origin') Eq (Walk.draw t lo hi : Walk κ τ ρ _) (Walk.draw t lo hi) := by
  intro s s' hs
  unfold Walk.draw
  rw [hs.random]
  cases RandomSource.range lo hi s'.random with
  | none => exact .breaks _ hs
  | some drawn =>
      have hdrawn : Alike origin origin' { s with random := drawn.2 } { s' with random := drawn.2 } :=
        ⟨hs.state, hs.context, hs.clock, rfl, hs.journal⟩
      exact .ends rfl (hdrawn.record rfl)

theorem matches_readClock [Clock κ τ] :
    Walk.Matches (Alike origin origin') Eq (Walk.readClock : Walk κ τ ρ _) Walk.readClock := by
  intro s s' hs
  have hread : Clock.read s.context s.clock = Clock.read s'.context s'.clock := by
    rw [hs.context, hs.clock]
  exact .ends (congrArg Prod.fst hread)
    ⟨hs.state, hs.context, congrArg Prod.snd hread, hs.random, hs.journal⟩

variable [Clock κ τ] [RandomSource ρ]

/-- Gates do not see statuses. -/
theorem matches_rollGates (id : TransitionId) (t : Transition κ) :
    Walk.Matches (Alike origin origin') Eq (Walk.rollGates id t : Walk κ τ ρ _)
      (Walk.rollGates id t) := by
  have hrecord (e : Event κ) : Walk.Matches (Alike (τ := τ) (ρ := ρ) origin origin') Eq
      (do Walk.record e; return true) (do Walk.record e; return true) :=
    ((mirrored_alike origin origin').matches_record e).then fun _ => .pure rfl
  have hchance : Walk.Matches (Alike (τ := τ) (ρ := ρ) origin origin') Eq
      (Walk.rollGates.passesChance id t) (Walk.rollGates.passesChance id t) :=
    .ite (.pure rfl) ((matches_draw id _ _).then fun _ => (matches_draw id _ _).then fun _ => .pure rfl)
  unfold Walk.rollGates
  refine matches_readClock.then fun now => Walk.matches_get.bind fun s s' hs => ?_
  have hfiring : s.state.firing id = s'.state.firing id := by
    show s.state.bare.firing id = s'.state.bare.firing id
    rw [hs.state]
  rw [hfiring]
  refine .ite (.pure rfl) (hchance.then fun passes => .ite (.pure rfl) (.ite (hrecord _) ?_))
  refine (matches_draw id _ _).then fun sample => ?_
  exact (Walk.matches_change fun _ _ hs =>
    hs.change (congrArg (State.setFiring id ⟨some now, sample⟩) hs.state)).then fun _ => hrecord _

theorem Graph.SoftensTo.parallel (h : g.SoftensTo g') :
    Walk.Parallel (Alike (τ := τ) (ρ := ρ) origin origin') g g' where
  toSameWiring := h.sameWiring
  maxTickDepth := by rw [h.config]
  onReset := h.onReset
  node id := rel_imp (h.node id) fun _ _ hn => ⟨hn.twin, hn.matches_choose id⟩
  transition id := rel_imp (h.transition id) fun t t' ht => by
    refine ⟨?_, ?_, ht.matches_passesGuard id⟩
    · rw [ht.same]
      exact ⟨rfl, rfl, rfl, rfl⟩
    · rw [ht.same]
      exact matches_rollGates id t

omit [RandomSource ρ] in
theorem Alike.walkStart (h : Alike origin origin' s s') (hw : g.SameWiring g') :
    Alike origin origin' (s.walkStart g) (s'.walkStart g') := by
  have hmirrored := mirrored_alike (κ := κ) (τ := τ) (ρ := ρ) origin origin'
  have hswept := hmirrored.sweep s s' h
  have hread : Clock.read s.context s.clock = Clock.read s'.context s'.clock := by
    rw [h.context, h.clock]
  unfold Session.walkStart
  rw [hw.handOver, hread]
  have hbegun : Alike origin origin'
      { s.change State.sweep with clock := (Clock.read s'.context s'.clock).2 }
      { s'.change State.sweep with clock := (Clock.read s'.context s'.clock).2 } :=
    ⟨hswept.state, hswept.context, rfl, hswept.random, hswept.journal⟩
  have hhanded := hmirrored.handOver (g := g) (Clock.read s'.context s'.clock).1 hbegun
  dsimp only
  rw [hmirrored.control _ _ hhanded]
  exact hmirrored.setDepth _ _ (fun _ => 0) (hmirrored.report _ hhanded)

theorem Alike.play (hg : g.SoftensTo g') (h : Alike origin origin' s s') (moves : List (Move κ τ ρ)) :
    (s.play g moves).1 = (s'.play g' moves).1 ∧
      Alike origin origin' (s.play g moves).2 (s'.play g' moves).2 := by
  refine Session.play_matches (List.forall₂_same.mpr fun move _ => ?_) h
  cases move with
  | request operation =>
      apply Move.Matches.request
      intro s s' hs
      exact (mirrored_alike origin origin').perform hg.parallel operation hs
        fun _ => hs.walkStart hg.sameWiring
  | surround context clock random =>
      apply Move.Matches.surround
      intro s s' hs
      exact hs.surround context clock random

end Alike

/-- Two hosts differ at most in that callbacks of actions and guards answer with the default at one
where they fail at the other.  From sessions that differ at most in statuses and journals the same moves
have the same responses and end in sessions that differ at most in these again, and what the journals
gain is the same apart from failures and their reports. -/
theorem play_softened [Clock κ τ] [RandomSource ρ] (g g' : Graph κ) (hg : g.SoftensTo g')
    (s s' : Session κ τ ρ) (hstate : s.state.bare = s'.state.bare) (hcontext : s.context = s'.context)
    (hclock : s.clock = s'.clock) (hrandom : s.random = s'.random) (moves : List (Move κ τ ρ)) :
    (s.play g moves).1 = (s'.play g' moves).1 ∧
      (s.play g moves).2.state.bare = (s'.play g' moves).2.state.bare ∧
      (s.play g moves).2.context = (s'.play g' moves).2.context ∧
      (s.play g moves).2.clock = (s'.play g' moves).2.clock ∧
      (s.play g moves).2.random = (s'.play g' moves).2.random ∧
      softened ((s.play g moves).2.since s) = softened ((s'.play g' moves).2.since s') := by
  have hstart : Alike s.journal.toList s'.journal.toList s s' :=
    ⟨hstate, hcontext, hclock, hrandom, .nil (.nil rfl)⟩
  obtain ⟨hresponses, hend⟩ := hstart.play hg moves
  have hjournal := hend.journal.since.since
  exact ⟨hresponses, hend.state, hend.context, hend.clock, hend.random, hjournal⟩

/-- An action and a condition with a reversed verdict.  A host either lets them fail, the action at every
other call, or answers with the defaults. -/
def jamGraph (fails : Bool) : Graph Nat where
  nodes := #[
    { Node.entry with outgoing := [⟨0⟩], exits := ⟨[(.out, [⟨0⟩])]⟩ },
    { label := "action"
      behaviour := .action (.noArgs fun n =>
        .ok (if fails && n % 2 = 1 then .error (.unexpected "jam") else .ok ()) (n + 1))
      outgoing := [⟨1⟩]
      exits := ⟨[(.out, [⟨1⟩])]⟩ },
    { label := "condition"
      behaviour := .condition (.noArgs fun n =>
        .ok (if fails then .error (.componentNotFound "sensor") else .ok true) (n + 3)) true
      outgoing := [⟨2⟩]
      exits := ⟨[(.whenFalse, [⟨2⟩])]⟩ }]
  transitions := #[{ start := entryNode, port := .out, finish := ⟨1⟩ },
    { start := ⟨1⟩, port := .out, finish := ⟨2⟩ },
    { start := ⟨2⟩, port := .whenFalse, finish := ⟨1⟩ }]
  config := {}
  onReset := none

theorem jam_softens : (jamGraph true).SoftensTo (jamGraph false) where
  config := rfl
  onReset := rfl
  node := by
    rintro ⟨i⟩
    rcases i with _ | _ | _ | i
    · exact .some ⟨rfl, .entry, rfl, rfl, rfl, rfl, rfl⟩
    · refine .some ⟨rfl, .action fun n => ?_, rfl, rfl, rfl, rfl, rfl⟩
      by_cases hodd : n % 2 = 1
      · exact .inr ⟨.unexpected "jam", n + 1, by simp [Callback.invoke, hodd], rfl⟩
      · exact .inl (by simp [Callback.invoke, hodd])
    · exact .some ⟨rfl, .condition fun n => .inr ⟨_, n + 3, rfl, rfl⟩, rfl, rfl, rfl, rfl, rfl⟩
    · exact .none
  transition := by
    rintro ⟨i⟩
    rcases i with _ | _ | _ | i
    · exact .some ⟨rfl, .none⟩
    · exact .some ⟨rfl, .none⟩
    · exact .some ⟨rfl, .none⟩
    · exact .none

def jamStart (fails : Bool) : Session Nat ManualClock Xoshiro :=
  .start (jamGraph fails) 1 (ManualClock.mk 0.0) (Xoshiro.ofSeed 0)

def jamTicked (fails : Bool) : Session Nat ManualClock Xoshiro :=
  ((jamStart fails).play (jamGraph fails) [.request .tick]).2

theorem jam_ticks_alike :
    (jamTicked true).context = (jamTicked false).context ∧
      (jamTicked true).state.bare = (jamTicked false).state.bare ∧
      softened ((jamTicked true).since (jamStart true)) =
        softened ((jamTicked false).since (jamStart false)) ∧
      (jamTicked true).state.status.get (.node ⟨1⟩) ≠
        (jamTicked false).state.status.get (.node ⟨1⟩) := by
  have hstatus : (jamTicked true).state.status.get (.node ⟨1⟩) ≠
      (jamTicked false).state.status.get (.node ⟨1⟩) := by decide +kernel
  obtain ⟨_, hstate, hcontext, _, _, hjournal⟩ := play_softened (jamGraph true) (jamGraph false)
    jam_softens (jamStart true) (jamStart false) rfl rfl rfl rfl [.request .tick]
  unfold jamTicked at hstatus ⊢
  exact ⟨hcontext, hstate, hjournal, hstatus⟩

end BehaviourGraph
