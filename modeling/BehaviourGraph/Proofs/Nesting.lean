import Mathlib.Algebra.Ring.Int.Defs
import BehaviourGraph.Proofs.History

/-!
# Nested node ticks

A node tick is in progress from where its node is entered to where it is left.  The depth counter runs
ahead of that by the node tick that has begun without having entered its node.  A transition that opens
while as many node ticks are in progress as may be nested has its end refused, and nothing else is.
-/

namespace BehaviourGraph

variable {κ τ ρ : Type}

/-! ## Disciplined histories -/

def Event.nesting : Event κ → Int
  | .entered _ => 1
  | .left _ => -1
  | _ => 0

def nesting (events : List (Event κ)) : Int := (events.map Event.nesting).sum

structure Graph.Disciplined (g : Graph κ) (events : List (Event κ)) : Prop where
  bounded : ∀ before, before <+: events → 0 ≤ nesting before ∧ nesting before ≤ g.config.maxTickDepth
  /-- Where a transition opens at the limit, the next event is that its end is refused. -/
  refuses : ∀ before t after, events = before ++ .opened t :: after →
    nesting before = g.config.maxTickDepth → ∃ tr rest, g.transition? t = some tr ∧
      after = .reported (.depthExceeded tr.finish g.config.maxTickDepth) :: rest
  /-- A node is refused only there. -/
  refused : ∀ before id limit after, events = before ++ .reported (.depthExceeded id limit) :: after →
    limit = g.config.maxTickDepth ∧ nesting before = limit ∧ ∃ front t tr,
      before = front ++ [.opened t] ∧ g.transition? t = some tr ∧ tr.finish = id

/-- Whether an event neither changes the number of node ticks in progress nor depends on it. -/
def Event.Level : Event κ → Prop
  | .entered _ | .left _ | .opened _ | .reported (.depthExceeded _ _) => False
  | _ => True

theorem Event.Level.nesting {e : Event κ} (h : e.Level) : e.nesting = 0 := by
  cases e <;> first | rfl | exact h.elim

@[simp] theorem nesting_nil : nesting ([] : List (Event κ)) = 0 := rfl

@[simp] theorem nesting_snoc (events : List (Event κ)) (e : Event κ) :
    nesting (events ++ [e]) = nesting events + e.nesting := by
  simp [nesting]

namespace Graph.Disciplined

variable {g : Graph κ} {events : List (Event κ)} {e : Event κ} {t : TransitionId}

theorem nil : g.Disciplined [] where
  bounded before hbefore := by
    rw [List.prefix_nil.mp hbefore, nesting_nil]
    omega
  refuses before t after hsplit := by simp at hsplit
  refused before id limit after hsplit := by simp at hsplit

theorem nesting_nonneg (h : g.Disciplined events) : 0 ≤ nesting events :=
  (h.bounded events (List.prefix_refl events)).1

theorem nesting_le (h : g.Disciplined events) : nesting events ≤ g.config.maxTickDepth :=
  (h.bounded events (List.prefix_refl events)).2

/-- An event that is no refusal follows as long as there is room for it. -/
theorem snoc (h : g.Disciplined events) (hrefused : ∀ id limit, e ≠ .reported (.depthExceeded id limit))
    (hopened : ∀ t, e = .opened t → nesting events < g.config.maxTickDepth)
    (hlow : 0 ≤ nesting events + e.nesting)
    (hhigh : nesting events + e.nesting ≤ g.config.maxTickDepth) : g.Disciplined (events ++ [e]) where
  bounded before hbefore := by
    rcases List.prefix_concat_iff.mp hbefore with rfl | hearlier
    · rw [nesting_snoc]
      exact ⟨hlow, hhigh⟩
    · exact h.bounded before hearlier
  refuses before t after hsplit hfull := by
    rcases snoc_eq_append_cons hsplit with ⟨rfl, he, -⟩ | ⟨rest, rfl, hevents⟩
    · have hroom := hopened t he
      omega
    · obtain ⟨tr, rest, ht, rfl⟩ := h.refuses before t rest hevents hfull
      exact ⟨tr, rest ++ [e], ht, rfl⟩
  refused before id limit after hsplit := by
    rcases snoc_eq_append_cons hsplit with ⟨-, he, -⟩ | ⟨rest, -, hevents⟩
    · exact (hrefused id limit he).elim
    · exact h.refused before id limit rest hevents

theorem snoc_level (h : g.Disciplined events) (he : e.Level) : g.Disciplined (events ++ [e]) := by
  refine h.snoc ?_ ?_ ?_ ?_
  · rintro id limit rfl
    exact he
  · rintro t rfl
    exact he.elim
  · rw [he.nesting, Int.add_zero]
    exact h.nesting_nonneg
  · rw [he.nesting, Int.add_zero]
    exact h.nesting_le

/-- At the limit a transition opens together with the refusal of its end. -/
theorem snoc_refusal (h : g.Disciplined events) (hfull : nesting events = g.config.maxTickDepth)
    {tr : Transition κ} (ht : g.transition? t = some tr) :
    g.Disciplined
      (events ++ [.opened t] ++ [.reported (.depthExceeded tr.finish g.config.maxTickDepth)]) where
  bounded before hbefore := by
    rcases List.prefix_concat_iff.mp hbefore with rfl | hshorter
    · simp only [nesting_snoc, hfull, Event.nesting]
      omega
    · rcases List.prefix_concat_iff.mp hshorter with rfl | hearlier
      · simp only [nesting_snoc, hfull, Event.nesting]
        omega
      · exact h.bounded before hearlier
  refuses before u after hsplit hbefore := by
    rcases snoc_eq_append_cons hsplit with ⟨-, he, -⟩ | ⟨rest, rfl, hshorter⟩
    · cases he
    · rcases snoc_eq_append_cons hshorter with ⟨rfl, he, rfl⟩ | ⟨rest, rfl, hevents⟩
      · cases he
        exact ⟨tr, [], ht, rfl⟩
      · obtain ⟨tr', rest, ht', rfl⟩ := h.refuses before u rest hevents hbefore
        exact ⟨tr', rest ++ [.opened t] ++ [_], ht', rfl⟩
  refused before id limit after hsplit := by
    rcases snoc_eq_append_cons hsplit with ⟨rfl, he, -⟩ | ⟨rest, -, hshorter⟩
    · cases he
      exact ⟨rfl, by simp [Event.nesting, hfull], events, t, tr, rfl, ht, rfl⟩
    · rcases snoc_eq_append_cons hshorter with ⟨-, he, -⟩ | ⟨rest, -, hevents⟩
      · cases he
      · exact h.refused before id limit rest hevents

end Graph.Disciplined

/-! ## Sessions within a tick -/

/-- Since an origin node ticks have kept to the limit; by the counter `depth` of them have begun, and
`entered` are in progress. -/
structure Nested (g : Graph κ) (origin : List (Event κ)) (depth entered : Nat) (s : Session κ τ ρ) :
    Prop where
  depth : s.state.depth = depth
  journal : s.Adds origin fun events => g.Disciplined events ∧ nesting events = entered

namespace Nested

variable {g : Graph κ} {origin : List (Event κ)} {s : Session κ τ ρ} {id : NodeId} {n : Node κ}
  {d k : Nat}

theorem loose (g : Graph κ) (origin : List (Event κ)) (d k : Nat) :
    Loose (τ := τ) (ρ := ρ) g (Nested g origin d k) Event.Level where
  surroundings _ _ _ _ hs := ⟨hs.depth, hs.journal⟩
  record _ e he hs := by
    refine ⟨hs.depth, hs.journal.record e fun events hevents => ⟨hevents.1.snoc_level he, ?_⟩⟩
    rw [nesting_snoc, he.nesting, hevents.2, Int.add_zero]
  setStatus _ _ _ hs := ⟨hs.depth, hs.journal⟩
  changed _ _ := trivial
  mark _ _ hs := ⟨hs.depth, hs.journal⟩
  relax _ flag _ hs := by cases flag <;> exact ⟨hs.depth, hs.journal⟩
  setControl _ _ hs := ⟨hs.depth, hs.journal⟩

theorem setFiring (h : Nested g origin d k s) (t : TransitionId) (firing : Firing) :
    Nested g origin d k (s.change (State.setFiring t firing)) :=
  ⟨h.depth, h.journal⟩

theorem le_limit (h : Nested g origin d k s) : k ≤ g.config.maxTickDepth := by
  obtain ⟨events, _, hevents, hnesting⟩ := h.journal
  have hle := hevents.nesting_le
  omega

theorem enter (h : Nested g origin d k s) (hk : k < g.config.maxTickDepth) (id : NodeId) :
    Nested g origin d (k + 1) (s.record (.entered id)) := by
  refine ⟨h.depth, h.journal.record _ fun events ⟨hevents, hnesting⟩ => ?_⟩
  have hnext : nesting events + (Event.entered id : Event κ).nesting = (k : Int) + 1 := by
    rw [hnesting, Event.nesting]
  exact ⟨hevents.snoc nofun nofun (by omega) (by omega), by rw [nesting_snoc, hnext]; rfl⟩

theorem left (h : Nested g origin d (k + 1) s) (id : NodeId) :
    Nested g origin d k (s.record (.left id)) := by
  have hle := h.le_limit
  refine ⟨h.depth, h.journal.record _ fun events ⟨hevents, hnesting⟩ => ?_⟩
  have hnext : nesting events + (Event.left id : Event κ).nesting = (k : Int) := by
    rw [hnesting, Event.nesting]
    omega
  exact ⟨hevents.snoc nofun nofun (by omega) (by omega), by rw [nesting_snoc, hnext]⟩

/-- Below the limit a transition opens freely. -/
theorem opened (h : Nested g origin d k s) (hk : k < g.config.maxTickDepth) (t : TransitionId) :
    Nested g origin d k (s.record (.opened t)) := by
  refine ⟨h.depth, h.journal.record _ fun events ⟨hevents, hnesting⟩ => ?_⟩
  have hnext : nesting events + (Event.opened t : Event κ).nesting = (k : Int) := by
    rw [hnesting]
    exact Int.add_zero _
  exact ⟨hevents.snoc nofun (fun _ _ => by omega) (by omega) (by omega), by rw [nesting_snoc, hnext]⟩

theorem refuse (h : Nested g origin d g.config.maxTickDepth s) {t : TransitionId} {tr : Transition κ}
    (ht : g.transition? t = some tr) :
    Nested g origin d g.config.maxTickDepth
      ((s.record (.opened t)).report (.depthExceeded tr.finish g.config.maxTickDepth)) := by
  obtain ⟨events, hjournal, hevents, hnesting⟩ := h.journal
  refine ⟨h.depth, _, ?_, hevents.snoc_refusal hnesting ht, ?_⟩
  · simp [Session.report, Session.toList_record, hjournal]
  · rw [nesting_snoc, nesting_snoc, hnesting]
    rfl

/-! ## Node ticks -/

/-- A node that is not entered stays outside. -/
theorem leads_enter (h : Nested g origin (k + 1) k s) (hk : k < g.config.maxTickDepth) :
    (Walk.enter g id n).Leads s
      (fun goes s => if goes then Nested g origin (k + 1) (k + 1) s else Nested g origin (k + 1) k s)
      fun _ => True :=
  have hloose := loose (τ := τ) (ρ := ρ) g origin (k + 1) (k + 1)
  Walk.leads_enter hloose.toDetached hloose.toDetached (fun _ _ _ => trivial)
    (fun _ hs _ => hs.enter hk id) (fun s hs => hloose.mark s _ hs) (fun _ s hs => hloose.claim s id hs)
    (fun _ _ => trivial) h

theorem keeps_choose (g : Graph κ) (origin : List (Event κ)) (id : NodeId) (n : Node κ) (d k : Nat) :
    Walk.Keeps (Nested g origin d k) (Walk.choose id n : Walk κ τ ρ (Option Port)) :=
  (loose g origin d k).choose (fun _ _ _ => trivial) (fun _ _ _ => trivial) fun _ _ _ _ => trivial

theorem leads_leave (h : Nested g origin d (k + 1) s) :
    (Walk.leave g id n).Leads s (fun _ => Nested g origin d k) fun _ => True :=
  have hloose := loose (τ := τ) (ρ := ρ) g origin d (k + 1)
  Walk.leads_leave hloose.toAmbient (fun _ _ _ => trivial)
    (fun _ s hs _ => hloose.relax s .visited _ hs) (fun _ hs => hs.left id) (fun _ _ => trivial) h

theorem leads_runNode {tick : TransitionId → Walk κ τ ρ Bool}
    (htick : ∀ t s, Nested g origin (k + 1) (k + 1) s →
      (tick t).Leads s (fun _ => Nested g origin (k + 1) (k + 1)) fun _ => True)
    (hk : k < g.config.maxTickDepth) (h : Nested g origin (k + 1) k s) :
    (Walk.runNode g id n tick).Leads s (fun _ => Nested g origin (k + 1) k) fun _ => True := by
  refine Walk.leads_runNode (F := fun _ _ => Nested g origin (k + 1) (k + 1)) (h.leads_enter hk)
    (fun s hs => ?_) (fun _ t _ s _ hs => htick t s hs) fun _ _ _ hs => hs.leads_leave
  exact (keeps_choose g origin id n (k + 1) (k + 1)).leads hs
    (fun port s hs => (loose g origin (k + 1) (k + 1)).commit s id n port trivial hs) fun _ _ => trivial

variable [Clock κ τ] [RandomSource ρ]

/-- What holds where a node tick begins that a transition has led to: if no node tick may be nested any
more, the transition has just opened and is what the refusal refers to. -/
def Arrives (g : Graph κ) (origin : List (Event κ)) : Nat → Nat → NodeId → Session κ τ ρ → Prop
  | 0, k, id, s => ∃ t tr before, g.transition? t = some tr ∧ tr.finish = id ∧
      Nested g origin k k before ∧ s = before.record (.opened t)
  | _ + 1, k, _, s => Nested g origin k k s

theorem leads_tickTransition {visit : NodeId → Walk κ τ ρ Unit} {budget : Nat}
    (hbudget : k + budget = g.config.maxTickDepth)
    (hvisit : ∀ id s, Arrives g origin budget k id s →
      (visit id).Leads s (fun _ => Nested g origin k k) fun _ => True)
    (t : TransitionId) (h : Nested g origin k k s) :
    (Walk.tickTransition g visit t).Leads s (fun _ => Nested g origin k k) fun _ => True := by
  have hloose := loose (τ := τ) (ρ := ρ) g origin k k
  refine Walk.leads_tickTransition (fun _ hs => hs) (fun s hs => hloose.record s _ trivial hs)
    (fun tr s _ _ hs => hloose.switchTo s tr.start hs) (fun tr s htr hs => ?_) h
  refine Walk.leads_follow_opened hloose.toDetached (fun s firing hs => hs.setFiring t firing)
    (fun _ _ _ => trivial) (fun _ _ _ => trivial) (fun _ _ _ => trivial)
    (fun s _ _ hs => hloose.mark _ _ (hloose.record s _ trivial hs)) (fun s hs => ?_)
    (fun _ _ => trivial) hs
  apply hvisit
  cases budget with
  | zero => exact ⟨t, tr, s, htr, rfl, hs, rfl⟩
  | succ budget => exact hs.opened (by omega) t

theorem leads_visit {budget : Nat} (hbudget : k + budget = g.config.maxTickDepth)
    (h : Arrives g origin budget k id s) :
    (Walk.visit g budget id).Leads s (fun _ => Nested g origin k k) fun _ => True := by
  refine Walk.leads_visit_counted
    (I := fun budget k id s => k + budget = g.config.maxTickDepth ∧ Arrives g origin budget k id s)
    (D := fun budget k _ s => k + 1 + budget = g.config.maxTickDepth ∧ Nested g origin (k + 1) k s)
    (U := fun k => Nested g origin (k + 1) k) (O := fun k => Nested g origin k k)
    (fun budget k id s hs => ?_) (fun k s hs => ?_) (fun k id s hs => ?_) (fun _ _ _ _ _ hs => hs.2)
    (fun budget visit hvisit k id n s _ hs => ?_) budget k id ⟨hbudget, h⟩
  · exact ⟨by omega, congrArg (· + 1) hs.2.depth, hs.2.journal⟩
  · exact ⟨congrArg (· - 1) hs.depth, hs.journal⟩
  · obtain ⟨hfull, t, tr, before, ht, rfl, hbefore, rfl⟩ := hs
    obtain rfl : k = g.config.maxTickDepth := hfull
    exact hbefore.refuse ht
  · obtain ⟨hbudget, hs⟩ := hs
    exact hs.leads_runNode
      (fun t s hs => leads_tickTransition hbudget (fun id s hs => hvisit _ id s ⟨hbudget, hs⟩) t hs)
      (by omega)

end Nested

/-! ## Ticks -/

section Ticks

variable [Clock κ τ] [RandomSource ρ] {g : Graph κ} {s : Session κ τ ρ}

omit [RandomSource ρ] in
theorem Session.nested_walkStart (g : Graph κ) (s : Session κ τ ρ) :
    Nested g s.journal.toList 0 0 (s.walkStart g) := by
  have hloose : Loose (τ := τ) (ρ := ρ) g
      (fun s' => s'.Adds s.journal.toList fun events => g.Disciplined events ∧ nesting events = 0)
      Event.Level :=
    Session.Adds.loose g _ (fun _ _ => trivial) fun e events he hevents =>
      ⟨hevents.1.snoc_level he, by rw [nesting_snoc, he.nesting, hevents.2, Int.add_zero]⟩
  exact ⟨rfl, hloose.walkStart (fun _ _ hs => hs) (fun _ => trivial) (fun _ hs => hs) (fun _ hs => hs)
    (.nil ⟨.nil, nesting_nil⟩)⟩

/-- A tick that is not broken off has left every node that it has entered. -/
theorem Walk.leads_tick_nested (hlimit : 0 < g.config.maxTickDepth) (s : Session κ τ ρ) :
    (Walk.tick g).Leads s (fun _ => Nested g s.journal.toList 0 0) fun _ => True := by
  have hstart : Nested.Arrives g s.journal.toList g.config.maxTickDepth 0
      (s.walkStart g).state.control (s.walkStart g) := by
    obtain ⟨budget, hbudget⟩ := Nat.exists_eq_succ_of_ne_zero (Nat.ne_of_gt hlimit)
    rw [hbudget]
    exact s.nested_walkStart g
  rw [Walk.leads_tick]
  refine (Nested.leads_visit (Nat.zero_add _) hstart).imp (fun _ s' hs => ?_) fun _ hb => hb
  exact (Nested.loose g s.journal.toList 0 0).record (s'.change State.sweep) _ trivial
    ⟨hs.depth, hs.journal⟩

end Ticks

end BehaviourGraph
