import Mathlib.Data.List.Chain
import Mathlib.Data.List.Induction
import BehaviourGraph.Proofs.Building
import BehaviourGraph.Proofs.HandOffs

/-!
# Reports of control

Observers are not shown the active component, they are told of it: how control changes, where ticks begin
and end and when the graph is reset.  In every run, also if requests are broken off, the changes form a
chain from the entry to the active component and every report fits the chain so far.  A tick reports once
where its walk begins, after the hand-offs, and once where it ends, unless it is broken off.
-/

namespace BehaviourGraph

variable {κ τ ρ : Type}

/-! ## What observers know of control -/

def Event.change? : Event κ → Option (NodeId × NodeId)
  | .reported (.activeChanged previous active) => some (previous, active)
  | _ => none

def changes (events : List (Event κ)) : List (NodeId × NodeId) := events.filterMap Event.change?

/-- The active component by the reports: where the last change has led, the entry before any. -/
def toldControl (events : List (Event κ)) : NodeId :=
  ((changes events).getLastD (entryNode, entryNode)).2

def Event.Fits (control : NodeId) : Event κ → Prop
  | .reported (.activeChanged previous active) => previous = control ∧ previous ≠ active
  | .reported (.tickStarted active) => active = control
  | .reported (.tickEnded active) => active = control
  | .reported (.reset entry) => entry = entryNode ∧ entry = control
  | _ => True

def Truthful (events : List (Event κ)) : Prop :=
  ∀ earlier e later, events = earlier ++ e :: later → e.Fits (toldControl earlier)

section Events

variable {events : List (Event κ)} {e : Event κ}

theorem changes_snoc : changes (events ++ [e]) = changes events ++ e.change?.toList := by
  simp only [changes, List.filterMap_append, List.filterMap_cons, List.filterMap_nil]
  cases e.change? <;> rfl

theorem toldControl_snoc_of_none (h : e.change? = none) :
    toldControl (events ++ [e]) = toldControl events := by
  rw [toldControl, changes_snoc, h, Option.toList_none, List.append_nil, toldControl]

theorem toldControl_snoc_of_some {change : NodeId × NodeId} (h : e.change? = some change) :
    toldControl (events ++ [e]) = change.2 := by
  rw [toldControl, changes_snoc, h, Option.toList_some, List.getLastD_concat]

theorem Event.eq_activeChanged_of_change? {change : NodeId × NodeId} (h : e.change? = some change) :
    e = .reported (.activeChanged change.1 change.2) := by
  unfold change? at h
  split at h
  next => cases h; rfl
  next => cases h

theorem Event.change?_of_not_ofControl (h : e.ofControl = false) : e.change? = none := by
  cases hchange : e.change? with
  | none => rfl
  | some change =>
      rw [eq_activeChanged_of_change? hchange] at h
      cases h

theorem Event.fits_of_not_ofControl (h : e.ofControl = false) (control : NodeId) : e.Fits control := by
  unfold Fits
  split <;> first | cases h | trivial

theorem truthful_nil : Truthful ([] : List (Event κ)) := fun _ _ _ h => by simp at h

theorem truthful_snoc :
    Truthful (events ++ [e]) ↔ Truthful events ∧ e.Fits (toldControl events) := by
  constructor
  · intro h
    refine ⟨fun earlier f later hsplit => ?_, h events e [] rfl⟩
    exact h earlier f (later ++ [e]) (by rw [hsplit, List.append_assoc, List.cons_append])
  · rintro ⟨h, he⟩ earlier f later hsplit
    rcases snoc_eq_append_cons hsplit with ⟨rfl, rfl, _⟩ | ⟨rest, _, hevents⟩
    · exact he
    · exact h earlier f rest hevents

/-- Truthful reports link each change to the one before it, the first to the entry. -/
theorem Truthful.isChain (h : Truthful events) :
    ((entryNode, entryNode) :: changes events).IsChain fun earlier later => earlier.2 = later.1 := by
  induction events using List.reverseRecOn with
  | nil => exact List.isChain_singleton _
  | append_singleton events e ih =>
      obtain ⟨hevents, he⟩ := truthful_snoc.mp h
      rw [changes_snoc]
      cases hchange : e.change? with
      | none => simpa using ih hevents
      | some change =>
          rw [Event.eq_activeChanged_of_change? hchange] at he
          rw [Option.toList_some, ← List.cons_append, List.isChain_append]
          refine ⟨ih hevents, List.isChain_singleton _, fun last hlast next hnext => ?_⟩
          obtain rfl : change = next := by simpa using hnext
          rw [he.1, toldControl, List.getLastD_eq_getLast?]
          rw [List.getLast?_cons, Option.mem_some_iff] at hlast
          rw [hlast]

theorem Truthful.changes_differ (h : Truthful events) : ∀ change ∈ changes events, change.1 ≠ change.2 := by
  intro change hmem
  obtain ⟨e, he, hchange⟩ := List.mem_filterMap.mp hmem
  obtain ⟨earlier, later, rfl⟩ := List.append_of_mem he
  have hfits := h earlier e later rfl
  rw [Event.eq_activeChanged_of_change? hchange] at hfits
  exact hfits.2

end Events

/-! ## Sessions that have told the truth -/

structure Session.Told (s : Session κ τ ρ) : Prop where
  control : toldControl s.journal.toList = s.state.control
  truthful : Truthful s.journal.toList

namespace Session.Told

variable {g : Graph κ} {s : Session κ τ ρ}

theorem record (h : s.Told) (e : Event κ) (hchange : e.change? = none) (he : e.Fits s.state.control) :
    (s.record e).Told where
  control := by rw [toList_record, toldControl_snoc_of_none hchange]; exact h.control
  truthful := by
    rw [toList_record, truthful_snoc, h.control]
    exact ⟨h.truthful, he⟩

theorem change (h : s.Told) {f : State → State} (hf : (f s.state).control = s.state.control) :
    (s.change f).Told where
  control := h.control.trans hf.symm
  truthful := h.truthful

/-- A switch is reported from the active component to another one, or it is none. -/
theorem switchTo (h : s.Told) (g : Graph κ) (id : NodeId) : (s.switchTo g id).Told := by
  unfold Session.switchTo
  dsimp only
  split
  next => exact h
  next hne =>
    refine ⟨?_, ?_⟩
    · rw [report, toList_record, toldControl_snoc_of_some rfl]
      rfl
    · rw [report, toList_record, truthful_snoc]
      exact ⟨h.truthful, h.control.symm, hne⟩

theorem relax (h : s.Told) (flag : Flag) (e : Element) : (s.change (State.relax g flag e)).Told :=
  h.change (by cases flag <;> rfl)

/-- A reset reports the entry only after control has gone there. -/
theorem keeps_reset : Walk.Keeps (Session.Told : Session κ τ ρ → Prop) (Walk.reset g) := by
  intro s hs
  have hentry : (s.switchTo g entryNode).Told := hs.switchTo g entryNode
  have hbeside (context : κ) : { s.switchTo g entryNode with context }.Told :=
    ⟨hentry.control, hentry.truthful⟩
  have hcalled (context : κ) (outcome : Outcome) :=
    (hbeside context).record (.called .reset (s.switchTo g entryNode).context context outcome) rfl trivial
  have hcontrol : entryNode = (s.switchTo g entryNode).state.control := (control_switchTo _ _ _).symm
  unfold Walk.reset
  rw [Walk.leads_bind, Walk.leads_modify, Walk.leads_bind]
  exact Walk.leads_runHook _ _ (hentry.record _ rfl ⟨rfl, hcontrol⟩)
    (fun context outcome => (hcalled context outcome).record _ rfl ⟨rfl, hcontrol⟩) hcalled

end Session.Told

/-- What is not told of control does not matter. -/
theorem robust_told (g : Graph κ) :
    Robust (τ := τ) (ρ := ρ) g Session.Told fun e => e.ofControl = false where
  surroundings _ _ _ _ hs := ⟨hs.control, hs.truthful⟩
  record _ e he hs := hs.record e (Event.change?_of_not_ofControl he) (Event.fits_of_not_ofControl he _)
  setStatus _ _ _ hs := hs.change rfl
  quiet _ _ he := he
  mark _ _ hs := hs.change rfl
  relax _ flag e hs := hs.relax flag e
  switchTo _ id hs := hs.switchTo g id
  setDepth _ _ hs := hs.change rfl

section Requests

variable [Clock κ τ] {g : Graph κ} {s : Session κ τ ρ}

theorem Session.Told.walkStart (h : s.Told) : (s.walkStart g).Told := by
  have hswept (clock : τ) : { s.change State.sweep with clock }.Told := ⟨h.control, h.truthful⟩
  have hhanded (now : Float) (clock : τ) :
      (Session.handOver g now { s.change State.sweep with clock }).Told :=
    List.foldlRecOn (motive := Session.Told) _ _ ((hswept clock).change rfl)
      fun _ hs id _ => hs.switchTo g id
  have hstarted := (hhanded s.reading (Clock.read s.context s.clock).2).record
    (.reported (.tickStarted _)) rfl rfl
  exact hstarted.change (f := fun a => { a with depth := 0 }) rfl

variable [RandomSource ρ]

theorem Session.Told.keeps_visit (budget : Nat) (id : NodeId) :
    Walk.Keeps (Session.Told : Session κ τ ρ → Prop) (Walk.visit g budget id) :=
  (robust_told g).keeps_visit (fun e he => by cases e <;> first | rfl | cases he)
    (fun _ _ _ hs => hs.change rfl) budget id

theorem Session.Told.keeps_tick : Walk.Keeps (Session.Told : Session κ τ ρ → Prop) (Walk.tick g) := by
  intro s hs
  rw [Walk.leads_tick]
  refine (keeps_visit _ _).leads hs.walkStart (fun _ s hs => ?_) fun _ hs => hs
  have hswept : (s.change State.sweep).Told := hs.change rfl
  exact hswept.record (.reported (.tickEnded _)) rfl rfl

/-- The reports of a reachable session are right. -/
theorem Session.Reachable.told (hs : s.Reachable g) : s.Told := by
  induction hs with
  | start context clock random => exact ⟨rfl, truthful_nil⟩
  | surroundings context clock random _ ih => exact ⟨ih.control, ih.truthful⟩
  | @perform s operation _ ih =>
      have hqueue (queue : ResumeQueue) : (s.change fun a => { a with queue }).Told := ih.change rfl
      exact perform_cases (P := fun outcome => outcome.2.Told) operation (Told.keeps_tick.run ih)
        (Told.keeps_reset.run ih) (fun id _ => ih.switchTo g id) (fun _ _ _ => hqueue _)
        (fun _ => hqueue _) (fun flag e _ => ih.relax flag e) fun _ => ih

end Requests

/-! ## Reports of a tick -/

def Event.isBoundary : Event κ → Bool
  | .reported (.tickStarted _) | .reported (.tickEnded _) => true
  | _ => false

def endReports (response : Response) (control : NodeId) : List (Event κ) :=
  if response.isDone then [.reported (.tickEnded control)] else []

section Tick

variable [Clock κ τ] [RandomSource ρ]

/-- No part of the walk of a tick reports the beginning or the end of one. -/
theorem keeps_visit_within (g : Graph κ) (origin : List (Event κ)) (budget : Nat) (id : NodeId) :
    Walk.Keeps (fun s : Session κ τ ρ => s.Adds origin fun events => ∀ e ∈ events, e.isBoundary = false)
      (Walk.visit g budget id) := by
  have hloose : Loose (τ := τ) (ρ := ρ) g
      (fun s => s.Adds origin fun events => ∀ e ∈ events, e.isBoundary = false)
      fun e => e.isBoundary = false :=
    Session.Adds.loose g _ (fun _ _ => rfl) fun e events he hevents => forall_mem_snoc hevents he
  have hrobust := hloose.robust (fun e _ he => by
    unfold Event.isBoundary
    split <;> first | cases he | rfl) fun _ _ hs => hs
  exact hrobust.keeps_visit (fun e he => by cases e <;> first | rfl | cases he) (fun _ _ _ hs => hs)
    budget id

/-- A tick reports its hand-offs, its beginning, what happens in its walk and, unless that is broken off,
its end. -/
theorem Session.since_perform_tick (g : Graph κ) (s : Session κ τ ρ) :
    ∃ walk : List (Event κ), (∀ e ∈ walk, e.isBoundary = false) ∧
      (s.perform g .tick).2.since s =
        switchReports s.state.control s.due ++ .reported (.tickStarted s.firstNode) :: walk ++
          endReports (s.perform g .tick).1 (s.perform g .tick).2.state.control := by
  let Quiet (events : List (Event κ)) : Prop := ∀ e ∈ events, e.isBoundary = false
  have htick : (Walk.tick g).Leads s
      (fun _ s' => s'.Adds (s.walkStart g).journal.toList fun events =>
        ∃ walk, Quiet walk ∧ events = walk ++ [.reported (.tickEnded s'.state.control)])
      (fun s' => s'.Adds (s.walkStart g).journal.toList Quiet) := by
    rw [Walk.leads_tick]
    refine (keeps_visit_within g _ _ _).leads (.nil nofun) (fun _ s' hs => ?_) fun _ hs => hs
    exact hs.record _ fun walk hwalk => ⟨walk, hwalk, rfl⟩
  unfold Walk.Leads at htick
  unfold perform run
  cases hrun : Walk.tick g s with
  | ok _ s' =>
      rw [hrun] at htick
      obtain ⟨_, hjournal, walk, hwalk, rfl⟩ := htick
      refine ⟨walk, hwalk, since_eq ?_⟩
      rw [hjournal, journal_walkStart]
      simp [endReports, Response.isDone]
  | error cause s' =>
      rw [hrun] at htick
      obtain ⟨walk, hjournal, hwalk⟩ := htick
      refine ⟨walk, hwalk, since_eq ?_⟩
      rw [hjournal, journal_walkStart]
      simp [endReports, Response.isDone]

/-- In every run the reported changes of control form a chain of true changes from the entry to the active
component, and every report of a tick or a reset names the component that the chain so far has led to.  A
tick reports its beginning once, after its hand-offs, and its end once, unless it is broken off. -/
theorem control_reports_faithful (g : Graph κ) (s : Session κ τ ρ) (hs : s.Reachable g) :
    let events := s.journal.toList
    let ticked := s.perform g .tick
    ((entryNode, entryNode) :: changes events).IsChain (fun earlier later => earlier.2 = later.1) ∧
      (∀ change ∈ changes events, change.1 ≠ change.2) ∧ toldControl events = s.state.control ∧
      Truthful events ∧
      ∃ walk : List (Event κ), (∀ e ∈ walk, e.isBoundary = false) ∧
        ticked.2.since s =
          switchReports s.state.control s.due ++ .reported (.tickStarted s.firstNode) :: walk ++
            endReports ticked.1 ticked.2.state.control :=
  ⟨hs.told.truthful.isChain, hs.told.truthful.changes_differ, hs.told.control, hs.told.truthful,
    s.since_perform_tick g⟩

end Tick

/-- The entry leads to a loop that goes on once.  Its body takes control; where it ends, a transition gives
control back to it and leads to an action that breaks off. -/
def dutyGraph : Graph Nat :=
  .ofSteps [.add "patrol" (.loop (.noArgs fun n => .ok (.ok (n < 1)) (n + 1)) false) [],
    .add "shout" (.action (.noArgs (pure (.ok ())))) [.captureControl true],
    .add "trip" (.action (.noArgs fun n => .error "broken" n)) [],
    .link entryNode ⟨1⟩, .connect ⟨1⟩ .body ⟨2⟩ {},
    .connect ⟨1⟩ .finish ⟨3⟩ { capturesControl := true }]

def dutyStart : Session Nat ManualClock Xoshiro :=
  .start dutyGraph 0 (ManualClock.mk 0.0) (Xoshiro.ofSeed 0)

/-- The second of the two ticks is broken off. -/
def dutyMoves : List (Move Nat ManualClock Xoshiro) :=
  [.request .tick, .request .reset, .request .tick, .request (.resumeAt ⟨2⟩ 0.0)]

def dutyDone : Session Nat ManualClock Xoshiro := (dutyStart.play dutyGraph dutyMoves).2

theorem duty_reported :
    (dutyStart.play dutyGraph dutyMoves).1.map Response.isDone = [true, true, false, true] ∧
      changes dutyDone.journal.toList = [(⟨0⟩, ⟨1⟩), (⟨1⟩, ⟨2⟩), (⟨2⟩, ⟨0⟩), (⟨0⟩, ⟨1⟩)] ∧
      dutyDone.state.control = ⟨1⟩ ∧
      ∃ walk, (∀ e ∈ walk, e.isBoundary = false) ∧
        (dutyDone.perform dutyGraph .tick).2.since dutyDone =
          [.reported (.activeChanged ⟨1⟩ ⟨2⟩), .reported (.tickStarted ⟨2⟩)] ++ walk ++
            [.reported (.tickEnded ⟨2⟩)] := by
  have hreach : dutyDone.Reachable dutyGraph := (Session.Reachable.start _ _ _).play dutyMoves
  obtain ⟨_, _, hcontrol, _, walk, hwalk, hsince⟩ := control_reports_faithful dutyGraph dutyDone hreach
  have hchanges : changes dutyDone.journal.toList = [(⟨0⟩, ⟨1⟩), (⟨1⟩, ⟨2⟩), (⟨2⟩, ⟨0⟩), (⟨0⟩, ⟨1⟩)] := by
    decide +kernel
  have hactive : dutyDone.state.control = ⟨1⟩ := by
    rw [← hcontrol, toldControl, hchanges]
    rfl
  have hdue : dutyDone.due = [⟨2⟩] := by decide +kernel
  have hdone : (dutyDone.perform dutyGraph .tick).1.isDone = true := by decide +kernel
  have hended : (dutyDone.perform dutyGraph .tick).2.state.control = ⟨2⟩ := by decide +kernel
  refine ⟨by decide +kernel, hchanges, hactive, walk, hwalk, hsince.trans ?_⟩
  rw [Session.firstNode, hdue, hactive, hended, endReports, hdone]
  rfl

end BehaviourGraph
