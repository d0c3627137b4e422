import Mathlib.Data.List.Chain
import BehaviourGraph.Proofs.Connections
import BehaviourGraph.Proofs.History
import BehaviourGraph.Proofs.Tables

/-!
# Cooldowns

What happens at the gates of a transition goes in rounds, each of which begins where the transition is
ticked.  A round draws the probability, if there is one to draw, and it ends there or draws the cooldown
and fires.  Nothing of a round can be interleaved with another: the host is not called until the
transition has fired.  So between two firings nothing has changed the last time and the last cooldown,
and the gates have checked them.
-/

namespace BehaviourGraph

variable {κ τ ρ : Type}

/-! ## Steps of gates -/

inductive GateStep where
  | ticked
  | drew (lo hi value : Float32)
  /-- The gates have opened at a time, with the cooldown drawn if there is one. -/
  | fired (time : Float) (cooldown : Option Float32)

def Event.gateStep? (id : TransitionId) : Event κ → Option GateStep
  | .ticked t => if t = id then some .ticked else none
  | .drew t lo hi value => if t = id then some (.drew lo hi value) else none
  | .fired t time cooldown => if t = id then some (.fired time cooldown) else none
  | _ => none

def gateSteps (id : TransitionId) (events : List (Event κ)) : List GateStep :=
  events.filterMap (Event.gateStep? id)

def GateStep.firing? : GateStep → Option (Float × Float32)
  | .fired time cooldown => cooldown.map fun sample => (time, sample)
  | _ => none

def firings (steps : List GateStep) : List (Float × Float32) := steps.filterMap GateStep.firing?

def latestFiring (steps : List GateStep) : Firing :=
  match (firings steps).getLast? with
  | none => {}
  | some (time, sample) => ⟨some time, sample⟩

/-- All draws for the probability of a transition: none if it always lets through, otherwise one sets the
percentage and another is compared with it. -/
inductive ChanceDraws (t : Transition κ) : List GateStep → Prop where
  | always (h : t.probability.isAlways = true) : ChanceDraws t []
  | rolled (h : t.probability.isAlways = false) (threshold drawn : Float32) :
    ChanceDraws t [.drew t.probability.min t.probability.max threshold, .drew 0.0 percentMax drawn]

/-- What follows where a transition with a cooldown is ticked: it gets no further than the draws for its
probability, or it draws its cooldown and fires. -/
inductive Round (t : Transition κ) : List GateStep → Prop where
  | held {draws all : List GateStep} (h : ChanceDraws t all) (hbegins : draws <+: all) : Round t draws
  | fired {draws : List GateStep} (h : ChanceDraws t draws) (time : Float) (sample : Float32) :
    Round t (draws ++ [.drew t.cooldown.min t.cooldown.max sample, .fired time (some sample)])

inductive Rounds (t : Transition κ) : List GateStep → Prop where
  | none : Rounds t []
  | round {steps draws : List GateStep} (h : Rounds t steps) (hround : Round t draws) :
    Rounds t (steps ++ .ticked :: draws)

/-- A value that a source can give for bounds. -/
def Drawable (ρ : Type) [RandomSource ρ] (lo hi value : Float32) : Prop :=
  ∃ r r' : ρ, RandomSource.range lo hi r = some (value, r')

section Steps

variable {id : TransitionId} {events : List (Event κ)} {e : Event κ} {t : Transition κ}
  {steps draws : List GateStep}

theorem gateSteps_snoc :
    gateSteps id (events ++ [e]) = gateSteps id events ++ (e.gateStep? id).toList := by
  simp only [gateSteps, List.filterMap_append, List.filterMap_cons, List.filterMap_nil]
  cases e.gateStep? id <;> rfl

theorem firings_append (later : List GateStep) :
    firings (steps ++ later) = firings steps ++ firings later :=
  List.filterMap_append

theorem ChanceDraws.firings_eq_nil (h : ChanceDraws t draws) : firings draws = [] := by
  cases h <;> rfl

theorem firings_ticked (steps draws : List GateStep) :
    firings (steps ++ .ticked :: draws) = firings steps ++ firings draws :=
  firings_append _

theorem ChanceDraws.firings_of_begins {all : List GateStep} (h : ChanceDraws t all)
    (hbegins : draws <+: all) : firings draws = [] := by
  obtain ⟨rest, rfl⟩ := hbegins
  have hnil := h.firings_eq_nil
  rw [firings_append, List.append_eq_nil_iff] at hnil
  exact hnil.1

theorem ChanceDraws.firings_fired (h : ChanceDraws t draws) (lo hi : Float32) (time : Float)
    (sample : Float32) :
    firings (draws ++ [.drew lo hi sample, .fired time (some sample)]) = [(time, sample)] := by
  rw [firings_append, h.firings_eq_nil]
  rfl

theorem latestFiring_append_of_nil {later : List GateStep} (h : firings later = []) :
    latestFiring (steps ++ later) = latestFiring steps := by
  rw [latestFiring, firings_append, h, List.append_nil]
  rfl

theorem latestFiring_fired (time : Float) (sample : Float32) :
    latestFiring (steps ++ [.fired time (some sample)]) = ⟨some time, sample⟩ := by
  have hfirings : firings (steps ++ [.fired time (some sample)]) = firings steps ++ [(time, sample)] :=
    firings_append _
  rw [latestFiring, hfirings, List.getLast?_concat]

end Steps

/-! ## The law of cooldowns -/

/-- The steps of a transition are rounds, consecutive firings are at least the cooldown of the first
apart, and the cooldowns come from the window. -/
structure CooldownLaw (ρ : Type) [RandomSource ρ] (t : Transition κ) (steps : List GateStep) : Prop where
  rounds : Rounds t steps
  spaced : (firings steps).IsChain fun f f' => widen f.2 ≤ f'.1 - f.1
  drawn : ∀ f ∈ firings steps, Drawable ρ t.cooldown.min t.cooldown.max f.2

namespace CooldownLaw

variable [RandomSource ρ] {t : Transition κ} {steps draws : List GateStep}

theorem nil : CooldownLaw ρ t [] := ⟨.none, .nil, nofun⟩

theorem held (h : CooldownLaw ρ t steps) {all : List GateStep} (hall : ChanceDraws t all)
    (hbegins : draws <+: all) : CooldownLaw ρ t (steps ++ .ticked :: draws) := by
  have hfirings : firings (steps ++ .ticked :: draws) = firings steps := by
    rw [firings_ticked, hall.firings_of_begins hbegins, List.append_nil]
  exact ⟨h.rounds.round (.held hall hbegins), hfirings ▸ h.spaced, hfirings ▸ h.drawn⟩

/-- The gates have checked that the cooldown of the latest firing is over. -/
theorem fired (h : CooldownLaw ρ t steps) (hcooldown : t.cooldown.isZero = false)
    (hdraws : ChanceDraws t draws) {time : Float} {sample : Float32}
    (hready : t.cooldownReady (latestFiring steps) time = true)
    (hdrawable : Drawable ρ t.cooldown.min t.cooldown.max sample) :
    CooldownLaw ρ t (steps ++ .ticked ::
      (draws ++ [.drew t.cooldown.min t.cooldown.max sample, .fired time (some sample)])) := by
  have hfirings := firings_ticked steps
    (draws ++ [.drew t.cooldown.min t.cooldown.max sample, .fired time (some sample)])
  rw [hdraws.firings_fired] at hfirings
  refine ⟨h.rounds.round (.fired hdraws time sample), ?_, ?_⟩
  · rw [hfirings, List.isChain_append]
    refine ⟨h.spaced, .singleton _, fun f hf f' hf' => ?_⟩
    obtain rfl : f' = (time, sample) := by simpa using hf'.symm
    have hlast : (firings steps).getLast? = some f := hf
    simpa [TransitionSpec.cooldownReady, hcooldown, latestFiring, hlast] using hready
  · rw [hfirings]
    exact forall_mem_snoc h.drawn hdrawable

end CooldownLaw

/-! ## What is kept of the firings -/

/-- What a session keeps of the firings of a transition is the latest one, and the steps of the
transition so far have a property. -/
structure Session.Gated (id : TransitionId) (P : List GateStep → Prop) (s : Session κ τ ρ) : Prop where
  place : id.index < s.state.firings.size
  firing : s.state.firing id = latestFiring (gateSteps id s.journal.toList)
  steps : P (gateSteps id s.journal.toList)

section Gated

variable {g : Graph κ} {id : TransitionId} {t : Transition κ} {P : List GateStep → Prop}
  {steps : List GateStep} {s : Session κ τ ρ}

theorem steady_gated (g : Graph κ) (id : TransitionId) (P : List GateStep → Prop) :
    Steady (τ := τ) (ρ := ρ) g (Session.Gated id P) fun e => e.gateStep? id = none where
  surroundings _ _ _ _ hs := ⟨hs.place, hs.firing, hs.steps⟩
  record s e he hs := by
    have hsame : gateSteps id (s.record e).journal.toList = gateSteps id s.journal.toList := by
      rw [Session.toList_record, gateSteps_snoc, he]
      exact List.append_nil _
    exact ⟨hs.place, hsame ▸ hs.firing, hsame ▸ hs.steps⟩
  setStatus _ _ _ hs := ⟨hs.place, hs.firing, hs.steps⟩
  noisy e he := by cases e <;> first | rfl | cases he
  setDepth _ _ hs := ⟨hs.place, hs.firing, hs.steps⟩
  mark _ _ hs := ⟨hs.place, hs.firing, hs.steps⟩
  relax _ flag _ hs := by cases flag <;> exact ⟨hs.place, hs.firing, hs.steps⟩
  setControl _ _ hs := ⟨hs.place, hs.firing, hs.steps⟩

namespace Session.Gated

theorem imp {Q : List GateStep → Prop} (h : s.Gated id P) (hPQ : ∀ all, P all → Q all) :
    s.Gated id Q :=
  ⟨h.place, h.firing, hPQ _ h.steps⟩

theorem setFiring (h : s.Gated id P) {u : TransitionId} (hu : u ≠ id) (firing : Firing) :
    (s.change (State.setFiring u firing)).Gated id P := by
  have hindex : u.index ≠ id.index := fun hindex => hu (by cases u; cases id; simp_all)
  refine ⟨?_, ?_, h.steps⟩
  · show id.index < (s.state.firings.setIfInBounds _ _).size
    rw [Array.size_setIfInBounds]
    exact h.place
  · show ((s.state.firings.setIfInBounds u.index firing)[id.index]?).getD default = _
    rw [Array.getElem?_setIfInBounds_ne hindex]
    exact h.firing

/-- A step that is no firing leaves the latest one. -/
theorem record (h : s.Gated id (· = steps)) {e : Event κ} {step : GateStep}
    (he : e.gateStep? id = some step) (hfiring : step.firing? = none) :
    (s.record e).Gated id (· = steps ++ [step]) := by
  have hsteps : gateSteps id (s.record e).journal.toList = steps ++ [step] := by
    rw [toList_record, gateSteps_snoc, he, h.steps]
    rfl
  refine ⟨h.place, ?_, hsteps⟩
  rw [hsteps, latestFiring_append_of_nil (by simp [firings, hfiring]), ← h.steps]
  exact h.firing

theorem fire (h : s.Gated id (· = steps)) (time : Float) (sample : Float32) :
    ((s.change (State.setFiring id ⟨some time, sample⟩)).record (.fired id time (some sample))).Gated id
      (· = steps ++ [.fired time (some sample)]) := by
  have hsteps : gateSteps id ((s.change (State.setFiring id ⟨some time, sample⟩)).record
      (.fired id time (some sample))).journal.toList = steps ++ [.fired time (some sample)] := by
    rw [toList_record, gateSteps_snoc]
    simp only [Event.gateStep?, if_true]
    exact congrArg (· ++ _) h.steps
  refine ⟨?_, ?_, hsteps⟩
  · show id.index < (s.state.firings.setIfInBounds _ _).size
    rw [Array.size_setIfInBounds]
    exact h.place
  · rw [hsteps, latestFiring_fired]
    show ((s.state.firings.setIfInBounds id.index ⟨some time, sample⟩)[id.index]?).getD default = _
    rw [Array.getElem?_setIfInBounds_self_of_lt h.place]
    rfl

end Session.Gated

/-! ## Rolling the gates -/

section Gates

variable [RandomSource ρ]

theorem Session.Gated.leads_draw (h : s.Gated id (· = steps)) (lo hi : Float32) :
    (Walk.draw id lo hi : Walk κ τ ρ Float32).Leads s
      (fun value s' => Drawable ρ lo hi value ∧ s'.Gated id (· = steps ++ [.drew lo hi value]))
      (Session.Gated id (· = steps)) := by
  unfold Walk.Leads Walk.draw
  cases hdraw : RandomSource.range lo hi s.random with
  | none => exact h
  | some drawn =>
      have hafter : Session.Gated id (· = steps) { s with random := drawn.2 } :=
        ⟨h.place, h.firing, h.steps⟩
      exact ⟨⟨s.random, drawn.2, hdraw⟩, hafter.record (by simp [Event.gateStep?]) rfl⟩

/-- Since some steps a transition has got no further than the draws for its probability. -/
def Session.HeldAt (id : TransitionId) (t : Transition κ) (steps : List GateStep) (s : Session κ τ ρ) :
    Prop :=
  ∃ draws all, ChanceDraws t all ∧ draws <+: all ∧ s.Gated id (· = steps ++ draws)

omit [RandomSource ρ] in
theorem Session.Gated.heldAt (h : s.Gated id (· = steps)) : s.HeldAt id t steps := by
  obtain ⟨all, hall⟩ : ∃ all, ChanceDraws t all := by
    cases hchance : t.probability.isAlways with
    | true => exact ⟨_, .always hchance⟩
    | false => exact ⟨_, .rolled hchance 0.0 0.0⟩
  refine ⟨[], all, hall, List.nil_prefix, ?_⟩
  rwa [List.append_nil]

theorem Session.Gated.leads_passesChance (h : s.Gated id (· = steps)) :
    (Walk.rollGates.passesChance id t : Walk κ τ ρ Bool).Leads s
      (fun _ s' => ∃ draws, ChanceDraws t draws ∧ s'.Gated id (· = steps ++ draws))
      (Session.HeldAt id t steps) := by
  unfold Walk.rollGates.passesChance
  cases hchance : t.probability.isAlways with
  | true => exact ⟨[], .always hchance, by rwa [List.append_nil]⟩
  | false =>
      simp only [Bool.false_eq_true, if_false]
      rw [Walk.leads_bind]
      refine (h.leads_draw _ _).imp (fun threshold s' hs => ?_) fun _ hs => hs.heldAt
      rw [Walk.leads_bind]
      refine (hs.2.leads_draw _ _).imp (fun drawn s'' hs' => ?_) fun s'' hs' => ?_
      · refine ⟨_, .rolled hchance threshold drawn, ?_⟩
        have hgated := hs'.2
        rwa [List.append_assoc] at hgated
      · exact ⟨_, _, .rolled hchance threshold 0.0, ⟨[_], rfl⟩, hs'⟩

/-- Gates that open have checked the cooldown that was drawn last, and they draw another. -/
theorem Session.Gated.leads_rollGates [Clock κ τ] (hcooldown : t.cooldown.isZero = false)
    (h : s.Gated id (· = steps)) :
    (Walk.rollGates id t : Walk κ τ ρ Bool).Leads s
      (fun opens s' => if opens then ∃ draws sample, ChanceDraws t draws ∧
          t.cooldownReady (latestFiring steps) s.reading = true ∧
          Drawable ρ t.cooldown.min t.cooldown.max sample ∧
          s'.Gated id (· = steps ++ (draws ++
            [.drew t.cooldown.min t.cooldown.max sample, .fired s.reading (some sample)]))
        else s'.HeldAt id t steps)
      (Session.HeldAt id t steps) := by
  unfold Walk.rollGates
  rw [Walk.leads_bind, Walk.leads_readClock, Walk.leads_bind, Walk.leads_get]
  have hread : Session.Gated id (· = steps) { s with clock := (Clock.read s.context s.clock).2 } :=
    ⟨h.place, h.firing, h.steps⟩
  split
  next => exact hread.heldAt
  next hready =>
    have hready : t.cooldownReady (latestFiring steps) s.reading = true := by
      rw [← h.steps, ← h.firing, Session.reading]
      simpa using hready
    rw [Walk.leads_bind]
    refine (hread.leads_passesChance).imp (fun passes s' hs => ?_) fun _ hs => hs
    obtain ⟨draws, hdraws, hs⟩ := hs
    cases passes with
    | false => exact ⟨draws, draws, hdraws, List.prefix_refl draws, hs⟩
    | true =>
        simp only [Bool.not_true, Bool.false_eq_true, if_false, hcooldown]
        rw [Walk.leads_bind]
        refine (hs.leads_draw _ _).imp (fun sample s'' hs' => ?_) fun s'' hs' => ?_
        · refine ⟨draws, sample, hdraws, hready, hs'.1, ?_⟩
          have hfired := hs'.2.fire s.reading sample
          rw [List.append_assoc, List.append_assoc] at hfired
          exact hfired
        · exact ⟨draws, draws, hdraws, List.prefix_refl draws, hs'⟩

end Gates

/-- A transition that has just been ticked obeys the law again when its gates have been rolled. -/
theorem Session.Gated.leads_rollGates_ticked [Clock κ τ] [RandomSource ρ]
    (hcooldown : t.cooldown.isZero = false) (hlaw : CooldownLaw ρ t steps)
    (h : s.Gated id (· = steps ++ [.ticked])) :
    (Walk.rollGates id t : Walk κ τ ρ Bool).Leads s (fun _ => Session.Gated id (CooldownLaw ρ t))
      (Session.Gated id (CooldownLaw ρ t)) := by
  have hheld (s' : Session κ τ ρ) (hs : s'.HeldAt id t (steps ++ [.ticked])) :
      s'.Gated id (CooldownLaw ρ t) := by
    obtain ⟨draws, all, hall, hbegins, hs⟩ := hs
    refine ⟨hs.place, hs.firing, ?_⟩
    rw [hs.steps, List.append_assoc]
    exact hlaw.held hall hbegins
  refine (h.leads_rollGates hcooldown).imp (fun opens s' hs => ?_) hheld
  cases opens with
  | false => exact hheld s' hs
  | true =>
      obtain ⟨draws, sample, hdraws, hready, hdrawable, hs⟩ := hs
      have hlatest : latestFiring (steps ++ [.ticked]) = latestFiring steps :=
        latestFiring_append_of_nil rfl
      refine ⟨hs.place, hs.firing, ?_⟩
      rw [hs.steps, List.append_assoc]
      exact hlaw.fired hcooldown hdraws (hlatest ▸ hready) hdrawable

/-! ## Steps along a walk -/

section Walks

variable [Clock κ τ] [RandomSource ρ]
  (hgates : ∀ (t : Transition κ) (steps : List GateStep) (s : Session κ τ ρ),
    g.transition? id = some t → P steps → s.Gated id (· = steps ++ [.ticked]) →
      (Walk.rollGates id t).Leads s (fun _ => Session.Gated id P) (Session.Gated id P))
include hgates

variable {visit : NodeId → Walk κ τ ρ Unit} (hvisit : ∀ node, Walk.Keeps (Session.Gated id P) (visit node))
include hvisit

/-- A transition rolls its gates where it has just been ticked. -/
theorem Session.Gated.leads_tickTransition (hs : s.Gated id P) :
    (Walk.tickTransition g visit id).Leads s (fun _ => Session.Gated id P) (Session.Gated id P) := by
  refine Walk.leads_tickTransition_until (P := Session.Gated id P)
    (Q := Session.Gated id fun all => ∃ steps, P steps ∧ all = steps ++ [.ticked])
    (fun _ _ hs => hs) (fun s hs => ?_)
    (fun tr s _ _ hs => (steady_gated g id _).switchTo s tr.start hs) (fun tr s htr hs => ?_) hs
  · have hnow : s.Gated id (· = gateSteps id s.journal.toList) := ⟨hs.place, hs.firing, rfl⟩
    have hstep : (Event.ticked id : Event κ).gateStep? id = some .ticked := by simp [Event.gateStep?]
    exact (hnow.record hstep rfl).imp fun all hall => ⟨_, hs.steps, hall⟩
  · obtain ⟨steps, hlaw, hall⟩ := hs.steps
    exact (steady_gated g id _).robust.leads_follow rfl (hvisit _)
      (hgates tr steps s htr hlaw ⟨hs.place, hs.firing, hall⟩)

omit hgates in
/-- The gates of another transition neither add a step nor change what is kept of the firings. -/
theorem keeps_tickTransition_of_ne {u : TransitionId} (hu : u ≠ id) :
    Walk.Keeps (Session.Gated id P) (Walk.tickTransition g visit u) := by
  intro s hs
  have hsteady := steady_gated (κ := κ) (τ := τ) (ρ := ρ) g id P
  refine Walk.leads_tickTransition (fun _ hs => hs)
    (fun s hs => hsteady.record s _ (by simp [Event.gateStep?, hu]) hs)
    (fun tr s _ _ hs => hsteady.switchTo s tr.start hs) (fun tr s _ hs => ?_) hs
  have hgates : Walk.Keeps (Session.Gated id P) (Walk.rollGates u tr : Walk κ τ ρ Bool) :=
    hsteady.keeps_rollGates (fun _ _ _ => by simp [Event.gateStep?, hu])
      (fun _ _ => by simp [Event.gateStep?, hu]) (fun s firing hs => hs.setFiring hu firing) tr
  exact hsteady.robust.leads_follow rfl (hvisit _) (hgates s hs)

/-- Ticking any transition keeps a property of the steps of one if the nodes below it do. -/
theorem keeps_tickTransition_gated (u : TransitionId) :
    Walk.Keeps (Session.Gated id P) (Walk.tickTransition g visit u) := by
  by_cases hu : u = id
  · subst hu
    exact fun s hs => hs.leads_tickTransition hgates hvisit
  · exact keeps_tickTransition_of_ne hvisit hu

omit hvisit in
theorem keeps_visit_gated (budget : Nat) (node : NodeId) :
    Walk.Keeps (Session.Gated id P : Session κ τ ρ → Prop) (Walk.visit g budget node) :=
  (steady_gated g id P).robust.keeps_visit_of (fun _ hvisit => keeps_tickTransition_gated hgates hvisit)
    budget node

omit hvisit in
/-- A property of the steps of a transition that its gates keep holds in all reachable sessions if it
holds of no steps. -/
theorem Session.Reachable.gated (hplace : g.hasTransition id = true) (hnil : P []) (hs : s.Reachable g) :
    s.Gated id P := by
  refine (steady_gated g id P).reachable_of
    (fun _ hs => ⟨hs.place, hs.firing, hs.steps⟩) (fun _ _ hs => ⟨hs.place, hs.firing, hs.steps⟩)
    (keeps_visit_gated hgates) (fun context clock random => ?_) hs
  have hplace : id.index < g.transitions.size := by simpa [Graph.hasTransition] using hplace
  have hfresh : (State.start g).firing id = {} := by
    simp [State.firing, State.start, hplace]
  refine ⟨?_, hfresh, hnil⟩
  show id.index < (State.start g).firings.size
  rw [State.start, Array.size_replicate]
  exact hplace

end Walks

/-- Gates that open record what the clock reads when they are rolled. -/
theorem leads_rollGates_fired [Clock κ τ] [RandomSource ρ] (hcooldown : t.cooldown.isZero = false)
    (s : Session κ τ ρ) :
    (Walk.rollGates id t).Leads s
      (fun opens s' => opens = true →
        ∃ sample, s'.journal.back? = some (.fired id s.reading (some sample)))
      fun _ => True := by
  have hany : Walk.Inert (fun _ : Session κ τ ρ => True) fun _ => True := .const True
  unfold Walk.rollGates
  rw [Walk.leads_bind, Walk.leads_readClock, Walk.leads_bind, Walk.leads_get]
  split
  next => exact nofun
  next =>
    rw [Walk.leads_bind]
    refine (hany.passesChance (fun _ _ _ => trivial) t).leads trivial (fun passes s' _ => ?_)
      fun _ _ => trivial
    cases passes with
    | false => exact nofun
    | true =>
        simp only [Bool.not_true, Bool.false_eq_true, if_false, hcooldown]
        rw [Walk.leads_bind]
        refine (hany.draw fun _ => trivial).leads trivial (fun sample s'' _ _ => ?_) fun _ _ => trivial
        exact ⟨sample, Array.back?_push⟩

end Gated

/-! ## Runs of cooldowns -/

/-- In every reachable session the steps of a transition with a cooldown are rounds, so it draws a
cooldown just where it fires.  What is kept of its firings is the latest one, consecutive firings are at
least the cooldown drawn at the first apart, and in a built graph a source that keeps to its bounds draws
all cooldowns from the window.  The time of a firing is what the clock reads when the gates are
rolled. -/
theorem cooldown_law [Clock κ τ] [RandomSource ρ] (g : Graph κ) (s : Session κ τ ρ)
    (hs : s.Reachable g) (id : TransitionId) (t : Transition κ) (ht : g.transition? id = some t)
    (hcooldown : t.cooldown.isZero = false) :
    let steps := gateSteps id s.journal.toList
    s.state.firing id = latestFiring steps ∧ Rounds t steps ∧
      (firings steps).IsChain (fun f f' => widen f.2 ≤ f'.1 - f.1) ∧
      (g.Built →
        (∀ (lo hi value : Float32) (r r' : ρ), lo ≤ hi →
          RandomSource.range lo hi r = some (value, r') → lo ≤ value ∧ value ≤ hi) →
        ∀ f ∈ firings steps, t.cooldown.min ≤ f.2 ∧ f.2 ≤ t.cooldown.max) ∧
      ∀ before : Session κ τ ρ, (Walk.rollGates id t).Leads before
        (fun opens after => opens = true →
          ∃ sample, after.journal.back? = some (.fired id before.reading (some sample)))
        fun _ => True := by
  intro steps
  have hplace : g.hasTransition id = true := Graph.hasTransition_iff.mpr ⟨t, ht⟩
  have hgated : s.Gated id (CooldownLaw ρ t) := by
    refine hs.gated (fun tr steps s htr hlaw hs => ?_) hplace .nil
    obtain rfl := Option.some.inj (htr.symm.trans ht)
    exact hs.leads_rollGates_ticked hcooldown hlaw
  refine ⟨hgated.firing, hgated.steps.rounds, hgated.steps.spaced, fun hg hsource f hf => ?_,
    leads_rollGates_fired hcooldown⟩
  obtain ⟨r, r', hdrawn⟩ := hgated.steps.drawn f hf
  have hsuits := (hg.suitable ht).cooldown
  simp only [Window.suits, Bool.and_eq_true, decide_eq_true_eq] at hsuits
  exact hsource _ _ _ r r' hsuits.1.2 hdrawn

def dripGraph : Graph Unit :=
  .ofSteps [.add "drip" (.action (.noArgs (pure (.ok ())))) [],
    .connect entryNode .out ⟨1⟩ { cooldown := ⟨1.5, 2.5⟩ }]

def drip (s : Session Unit ManualClock Xoshiro) (time : Float) : Session Unit ManualClock Xoshiro :=
  (Session.perform dripGraph .tick { s with clock := ⟨time⟩ }).2

/-- Three ticks, of which the second comes too early. -/
def dripped : Session Unit ManualClock Xoshiro :=
  drip (drip (drip (.start dripGraph () (ManualClock.mk 0.0) (Xoshiro.ofSeed 7)) 0.0) 1.0) 5.0

theorem dripped_obeys_law :
    (firings (gateSteps ⟨0⟩ dripped.journal.toList)).length = 2 ∧
      (gateSteps ⟨0⟩ dripped.journal.toList).length = 7 ∧
      (dripped.state.firing ⟨0⟩).last == some 5.0 ∧
      (firings (gateSteps ⟨0⟩ dripped.journal.toList)).IsChain fun f f' => widen f.2 ≤ f'.1 - f.1 := by
  have hdrip (s : Session Unit ManualClock Xoshiro) (time : Float) (hs : s.Reachable dripGraph) :
      (drip s time).Reachable dripGraph :=
    .perform .tick (.surroundings s.context ⟨time⟩ s.random hs)
  have hreach : dripped.Reachable dripGraph :=
    hdrip _ _ (hdrip _ _ (hdrip _ _ (.start _ _ _)))
  have hlaw := cooldown_law dripGraph dripped hreach ⟨0⟩ _ rfl (by decide +kernel)
  exact ⟨by decide +kernel, by decide +kernel, by decide +kernel, hlaw.2.2.1⟩

end BehaviourGraph
