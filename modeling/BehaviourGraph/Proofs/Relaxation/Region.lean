import Mathlib.Logic.Relation
import BehaviourGraph.Proofs.Relaxation
import BehaviourGraph.Proofs.Wiring
import BehaviourGraph.Run.Operation

/-!
# Relaxed regions

Relaxing an element takes down its flag and every flag that a path of raised flags leads to, and no
other.  The descent destroys the flags that it follows, while the path is one of the marking before
it began.  That no part of a path is missed rests on what a descent leaves behind it: where it has
taken down a flag, it has relaxed everything that comes next.
-/

namespace BehaviourGraph

/-- Where a fold ends a property, one of its steps does. -/
theorem exists_step_of_foldl {α β : Type} {step : β → α → β} {Q : β → Prop} {as : List α} {b : β}
    (hb : Q b) (hend : ¬Q (as.foldl step b)) :
    ∃ front a back, as = front ++ a :: back ∧ Q (front.foldl step b) ∧
      ¬Q (step (front.foldl step b) a) := by
  induction as generalizing b with
  | nil => exact (hend hb).elim
  | cons a as ih =>
      by_cases hstep : Q (step b a)
      · obtain ⟨front, c, back, rfl, hfront, hc⟩ := ih hstep hend
        exact ⟨a :: front, c, back, rfl, hfront, hc⟩
      · exact ⟨[], a, as, rfl, hb, hstep⟩

namespace Marking

variable {next : Element → List Element} {m m' : Marking} {e f f' : Element} {es : List Element}

/-! ## The region of an element -/

/-- A descent goes on from an element to what comes next, where flags are up. -/
def Follows (next : Element → List Element) (m : Marking) (e f : Element) : Prop :=
  f ∈ next e ∧ m.has f = true

/-- An element is in the region of another if a path of raised flags leads to it. -/
def Region (next : Element → List Element) (m : Marking) (e f : Element) : Prop :=
  m.has e = true ∧ Relation.ReflTransGen (m.Follows next) e f

theorem Region.self (he : m.has e = true) : m.Region next e e := ⟨he, .refl⟩

theorem Region.has (h : m.Region next e f) : m.has f = true := by
  obtain ⟨he, hpath⟩ := h
  cases hpath with
  | refl => exact he
  | tail _ hlast => exact hlast.2

theorem Region.extend (h : m.Region next e f) (hf' : f' ∈ next f) (hup : m.has f' = true) :
    m.Region next e f' :=
  ⟨h.1, h.2.tail ⟨hf', hup⟩⟩

theorem Region.of_next (he : m.has e = true) (hf : f ∈ next e) (h : m.Region next f f') :
    m.Region next e f' :=
  ⟨he, h.2.head ⟨hf, h.1⟩⟩

theorem Region.mono (h : m.Region next e f) (hle : m.Below m') : m'.Region next e f :=
  ⟨hle.has e h.1, h.2.lift id fun _ f hf => ⟨hf.1, hle.has f hf.2⟩⟩

/-- A descent that has taken down a flag came to its element while it was up. -/
theorem exists_descent_of_relax (hup : m.has f = true) (hdown : (m.relax next e).has f = false) :
    m.Region next e f ∧
      ∃ m' : Marking, m'.has f = true ∧ (m.relax next e).Below (m'.relax next f) := by
  induction hcount : m.count using Nat.strongRecOn generalizing m e with
  | ind n ih =>
      by_cases hef : e = f
      · subst hef
        exact ⟨.self hup, m, hup, .refl _⟩
      · have he : m.has e = true := by
          rw [← Bool.not_eq_false]
          intro he
          rw [relax_of_not_has next he, hup] at hdown
          cases hdown
        rw [relax_eq, if_pos he] at hdown ⊢
        have hclear : (m.clear e).has f = true := by rw [has_clear_of_ne m hef, hup]
        obtain ⟨front, a, back, hnext, hbefore, hafter⟩ :=
          exists_step_of_foldl (Q := fun m : Marking => m.has f = true) hclear
            (Bool.eq_false_iff.mp hdown)
        -- the flag falls while one of the next elements is relaxed, with fewer flags up
        have hle : (front.foldl (fun m f => m.relax next f) (m.clear e)).count < n := by
          have hfront := count_foldl_le (fun m f => count_cascade_le next m.size f m) front (m.clear e)
          have hfewer := count_clear he
          unfold relax
          omega
        obtain ⟨hregion, m', hm', hbelow⟩ := ih _ hle hbefore (by simpa using hafter) rfl
        have hfront := foldl_below (fun m f => relax_below next f m) front (m.clear e)
        refine ⟨.of_next he ?_ (hregion.mono (hfront.trans (clear_below m e))), m', hm', ?_⟩
        · rw [hnext]
          exact List.mem_append_right _ List.mem_cons_self
        · rw [hnext, List.foldl_append, List.foldl_cons]
          exact (foldl_below (fun m f => relax_below next f m) back _).trans hbelow

theorem has_relax_of_region (h : m.Region next e f) : (m.relax next e).has f = false := by
  obtain ⟨he, hpath⟩ := h
  induction hpath with
  | refl => exact has_relax_self next e m
  | tail hpath hlast ih =>
      have hup := Region.has ⟨he, hpath⟩
      obtain ⟨_, m', hm', hbelow⟩ := exists_descent_of_relax hup ih
      exact hbelow.not_has (has_relax_next hm' hlast.1)

/-- Relaxing an element takes down the flags of its region. -/
theorem has_relax_iff :
    (m.relax next e).has f = true ↔ m.has f = true ∧ ¬m.Region next e f := by
  constructor
  · intro h
    refine ⟨(relax_below next e m).has f h, fun hregion => ?_⟩
    rw [has_relax_of_region hregion] at h
    cases h
  · rintro ⟨hup, hregion⟩
    rw [← Bool.not_eq_false]
    exact fun hdown => hregion (exists_descent_of_relax hup hdown).1

/-! ## The descent without a bound -/

/-- The descent along some elements as it is carried out, with no bound on its depth. -/
inductive Descends (next : Element → List Element) : List Element → Marking → Marking → Prop where
  | done (m : Marking) : Descends next [] m m
  | skip {e : Element} {es : List Element} {m m' : Marking} (he : m.has e = false)
      (hrest : Descends next es m m') : Descends next (e :: es) m m'
  | take {e : Element} {es : List Element} {m m₁ m' : Marking} (he : m.has e = true)
      (hnext : Descends next (next e) (m.clear e) m₁) (hrest : Descends next es m₁ m') :
      Descends next (e :: es) m m'

theorem Descends.eq (h : Descends next es m m') : m' = es.foldl (fun m e => m.relax next e) m := by
  induction h with
  | done m => rfl
  | skip he _ ih => rw [List.foldl_cons, relax_of_not_has next he, ih]
  | take he _ _ ihnext ihrest => rw [List.foldl_cons, relax_eq, if_pos he, ← ihnext, ihrest]

/-- The descent comes to an end, since each step down takes a flag. -/
theorem descends_foldl (es : List Element) (m : Marking) :
    Descends next es m (es.foldl (fun m e => m.relax next e) m) := by
  induction hcount : m.count using Nat.strongRecOn generalizing es m with
  | ind n ih =>
      induction es generalizing m with
      | nil => exact .done m
      | cons e es ihes =>
          rw [List.foldl_cons]
          by_cases he : m.has e = true
          · have hfewer := count_clear he
            have hdown := ih _ (by omega) (next e) (m.clear e) rfl
            have hnext : (next e).foldl (fun m f => m.relax next f) (m.clear e) = m.relax next e := by
              rw [relax_eq, if_pos he]
            rw [hnext] at hdown
            refine .take he hdown ?_
            have hle : (m.relax next e).count ≤ n := hcount ▸ count_cascade_le next m.size e m
            rcases Nat.lt_or_eq_of_le hle with hlt | heq
            · exact ih _ hlt es _ rfl
            · exact ihes _ heq
          · have hnot : m.has e = false := by simpa using he
            rw [relax_of_not_has next hnot]
            exact .skip hnot (ihes m hcount)

theorem descends_iff :
    Descends next es m m' ↔ m' = es.foldl (fun m e => m.relax next e) m :=
  ⟨Descends.eq, fun h => h ▸ descends_foldl es m⟩

end Marking

/-! ## Paths of a graph -/

variable {κ τ ρ : Type}

namespace Graph

variable {g : Graph κ} {m : Marking} {e f : Element}

def Passes (g : Graph κ) (m : Marking) (a b : NodeId) : Prop :=
  ∃ t tr, g.transition? t = some tr ∧ tr.start = a ∧ tr.finish = b ∧
    m.has (.transition t) = true ∧ m.has (.node b) = true

def RaisedPath (g : Graph κ) (m : Marking) (a b : NodeId) : Prop :=
  m.has (.node a) = true ∧ Relation.ReflTransGen (g.Passes m) a b

/-- Where the raised paths of an element lead.  Those of a transition begin at its end, if its own
flag is up. -/
def Reaches (g : Graph κ) (m : Marking) : Element → NodeId → Prop
  | .node a, b => g.RaisedPath m a b
  | .transition t, b =>
    m.has (.transition t) = true ∧ ∃ tr, g.transition? t = some tr ∧ g.RaisedPath m tr.finish b

/-- The nodes that an element reaches, the raised transitions that leave them and the element
itself. -/
def Covers (g : Graph κ) (m : Marking) (e : Element) : Element → Prop
  | .node id => g.Reaches m e id
  | .transition t =>
    m.has (.transition t) = true ∧
      (e = .transition t ∨ ∃ tr, g.transition? t = some tr ∧ g.Reaches m e tr.start)

theorem Reaches.follow {t : TransitionId} {tr : Transition κ} (h : g.Reaches m e tr.start)
    (htr : g.transition? t = some tr) (ht : m.has (.transition t) = true)
    (hfinish : m.has (.node tr.finish) = true) : g.Reaches m e tr.finish := by
  have hpasses : g.Passes m tr.start tr.finish := ⟨t, tr, htr, rfl, rfl, ht, hfinish⟩
  cases e with
  | node a => exact ⟨h.1, h.2.tail hpasses⟩
  | transition u =>
      obtain ⟨hu, first, hfirst, hup, hpath⟩ := h
      exact ⟨hu, first, hfirst, hup, hpath.tail hpasses⟩

theorem covers_of_region (hg : g.Consistent) (h : m.Region g.next e f) : g.Covers m e f := by
  obtain ⟨he, hpath⟩ := h
  induction hpath with
  | refl =>
      cases e with
      | node a => exact ⟨he, .refl⟩
      | transition t => exact ⟨he, .inl rfl⟩
  | @tail b c _ hlast ih =>
      obtain ⟨hnext, hup⟩ := hlast
      cases b with
      | node a =>
          obtain ⟨t, tr, rfl, htr, rfl⟩ := hg.mem_next_node.mp hnext
          exact ⟨hup, .inr ⟨tr, htr, ih⟩⟩
      | transition t =>
          obtain ⟨tr, htr, rfl⟩ := mem_next_transition.mp hnext
          obtain ⟨ht, rfl | ⟨tr', htr', hstart⟩⟩ := ih
          · exact ⟨ht, tr, htr, hup, .refl⟩
          · obtain rfl := Option.some.inj (htr.symm.trans htr')
            exact hstart.follow htr ht hup

theorem region_of_raisedPath (hg : g.Consistent) {a b : NodeId} (h : g.RaisedPath m a b) :
    m.Region g.next (.node a) (.node b) := by
  obtain ⟨ha, hpath⟩ := h
  induction hpath with
  | refl => exact .self ha
  | tail _ hlast ih =>
      obtain ⟨t, tr, htr, hstart, rfl, ht, hup⟩ := hlast
      have htransition := ih.extend (hg.mem_next_node.mpr ⟨t, tr, rfl, htr, hstart⟩) ht
      exact htransition.extend (mem_next_transition.mpr ⟨tr, htr, rfl⟩) hup

theorem region_of_reaches (hg : g.Consistent) {id : NodeId} (h : g.Reaches m e id) :
    m.Region g.next e (.node id) := by
  cases e with
  | node a => exact region_of_raisedPath hg h
  | transition t =>
      obtain ⟨ht, tr, htr, hpath⟩ := h
      exact .of_next ht (mem_next_transition.mpr ⟨tr, htr, rfl⟩) (region_of_raisedPath hg hpath)

/-- The region of an element, told by the paths of the graph. -/
theorem region_iff_covers (hg : g.Consistent) : m.Region g.next e f ↔ g.Covers m e f := by
  refine ⟨covers_of_region hg, fun h => ?_⟩
  cases f with
  | node id => exact region_of_reaches hg h
  | transition t =>
      obtain ⟨ht, rfl | ⟨tr, htr, hstart⟩⟩ := h
      · exact .self ht
      · exact (region_of_reaches hg hstart).extend (hg.mem_next_node.mpr ⟨t, tr, rfl, htr, rfl⟩) ht

end Graph

/-! ## Requests to relax -/

namespace State

def marking (s : State) : Flag → Marking
  | .active => s.active
  | .visited => s.visited

def setMarking (flag : Flag) (m : Marking) (s : State) : State :=
  match flag with
  | .active => { s with active := m }
  | .visited => { s with visited := m }

theorem has_marking (s : State) (flag : Flag) (e : Element) :
    (s.marking flag).has e = s.has flag e := by
  cases flag <;> rfl

theorem relax_eq_setMarking (s : State) (g : Graph κ) (flag : Flag) (e : Element) :
    s.relax g flag e = s.setMarking flag ((s.marking flag).relax g.next e) := by
  cases flag <;> rfl

end State

/-- Relaxing an element comes to an end in every state and on every wiring that the nodes list as the
transitions have it.  It takes down its flag on exactly the nodes that raised paths from the element lead
to, on the transitions that leave these nodes and on the element itself, and changes nothing else. -/
theorem relax_takes_down_reached [Clock κ τ] [RandomSource ρ] (g : Graph κ) (hg : g.Consistent)
    (s : Session κ τ ρ) (flag : Flag) (e : Element) :
    ∃ m : Marking,
      (∀ m', Marking.Descends g.next [e] (s.state.marking flag) m' ↔ m' = m) ∧
      s.perform g (.relax flag e) =
        (if g.hasElement e then (.done, s.change (State.setMarking flag m))
          else (.refused (Graph.unknown e), s)) ∧
      (∀ id, m.has (.node id) = true ↔
        s.state.has flag (.node id) = true ∧ ¬g.Reaches (s.state.marking flag) e id) ∧
      ∀ t, m.has (.transition t) = true ↔
        s.state.has flag (.transition t) = true ∧
          ¬(e = .transition t ∨
            ∃ tr, g.transition? t = some tr ∧ g.Reaches (s.state.marking flag) e tr.start) := by
  have hcovers (f : Element) :
      ((s.state.marking flag).relax g.next e).has f = true ↔
        s.state.has flag f = true ∧ ¬g.Covers (s.state.marking flag) e f := by
    rw [Marking.has_relax_iff, Graph.region_iff_covers hg, State.has_marking]
  refine ⟨(s.state.marking flag).relax g.next e, fun m' => Marking.descends_iff, ?_,
    fun id => hcovers (.node id), fun t => ?_⟩
  · simp only [Session.perform, Session.provided]
    congr 2
    exact congrArg (fun a => { s with state := a }) (State.relax_eq_setMarking _ g flag e)
  · rw [hcovers (.transition t)]
    refine and_congr_right fun hup => ?_
    rw [← State.has_marking] at hup
    simp only [Graph.Covers, hup, true_and]

/-- The entry and two actions that lead to each other. -/
def ringSteps : List (BuildStep Unit) :=
  [.add "there" (.action (.noArgs (pure (.ok ())))) [], .add "back" (.action (.noArgs (pure (.ok ())))) [],
    .link entryNode ⟨1⟩, .link ⟨1⟩ ⟨2⟩, .link ⟨2⟩ ⟨1⟩]

def ringGraph : Graph Unit := .ofSteps ringSteps

theorem ring_built : ringGraph.Built := ⟨{}, none, ringSteps, by decide, rfl⟩

def ringed : Session Unit ManualClock Xoshiro :=
  ((Session.start ringGraph () (ManualClock.mk 0.0) (Xoshiro.ofSeed 0)).perform ringGraph .tick).2

theorem ring_taken_down :
    ringGraph.Consistent ∧ ringed.state.has .active (.node ⟨2⟩) = true ∧
      ringGraph.Reaches ringed.state.active (.transition ⟨0⟩) ⟨2⟩ ∧
      (ringed.perform ringGraph (.relax .active (.transition ⟨0⟩))).2.state.has .active
        (.node ⟨2⟩) = false := by
  have hg := ring_built.consistent
  have hpath : ringGraph.Reaches ringed.state.active (.transition ⟨0⟩) ⟨2⟩ := by
    refine ⟨by decide +kernel, _, rfl, by decide +kernel, .single ⟨⟨1⟩, _, rfl, rfl, rfl, ?_, ?_⟩⟩
    · decide +kernel
    · decide +kernel
  obtain ⟨m, _, hperform, hnodes, _⟩ :=
    relax_takes_down_reached ringGraph hg ringed .active (.transition ⟨0⟩)
  refine ⟨hg, by decide +kernel, hpath, ?_⟩
  rw [hperform]
  exact Bool.eq_false_iff.mpr fun hup => ((hnodes ⟨2⟩).mp hup).2 hpath

end BehaviourGraph
