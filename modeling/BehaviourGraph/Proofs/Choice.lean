import BehaviourGraph.Proofs.Curves
import BehaviourGraph.Proofs.Relaxation.Order
import BehaviourGraph.Proofs.Traces

/-!
# The choice of a utility

A utility calls the scorers of its branches in order and keeps the first of the greatest scores; failures
and scores that are no numbers take no part.  Then it relaxes every branch but the winner, and only that is
ticked.  The walk breaks off at the first scorer that raises or score that its curve has no value at.
-/

namespace BehaviourGraph

variable {κ τ ρ : Type}

/-! ## The first of the greatest scores -/

structure Eligible (scores : List (Option Float32)) (k : Nat) (score : Float32) : Prop where
  scored : scores[k]? = some (some score)
  number : score.isNaN = false

/-- A branch has a score that no other exceeds and no earlier one reaches. -/
structure Tops (scores : List (Option Float32)) (k : Nat) (top : Float32) : Prop where
  eligible : Eligible scores k top
  most : ∀ j score, Eligible scores j score → score ≤ top
  first : ∀ j score, j < k → Eligible scores j score → score < top

def Wins (scores : List (Option Float32)) (k : Nat) : Prop := ∃ top, Tops scores k top

def Best (scores : List (Option Float32)) : Option (Nat × Float32) → Prop
  | none => ∀ k score, ¬Eligible scores k score
  | some (k, top) => Tops scores k top

def bestAfter : Nat → Option (Nat × Float32) → List (Option Float32) → Option (Nat × Float32)
  | _, best, [] => best
  | index, best, score :: scores =>
    bestAfter (index + 1) (score.elim best (Walk.better best index)) scores

section Scores

variable {front rest : List (Option Float32)} {best : Option (Nat × Float32)} {answer : Option Float32}
  {score top : Float32} {j k : Nat}

theorem eligible_snoc :
    Eligible (front ++ [answer]) k score ↔
      Eligible front k score ∨ k = front.length ∧ answer = some score ∧ score.isNaN = false := by
  constructor
  · rintro ⟨hscored, hnumber⟩
    rcases Nat.lt_trichotomy k front.length with hlt | rfl | hgt
    · rw [List.getElem?_append_left hlt] at hscored
      exact .inl ⟨hscored, hnumber⟩
    · rw [List.getElem?_concat_length, Option.some.injEq] at hscored
      exact .inr ⟨rfl, hscored, hnumber⟩
    · rw [List.getElem?_eq_none (by simp; omega)] at hscored
      cases hscored
  · rintro (⟨hscored, hnumber⟩ | ⟨rfl, rfl, hnumber⟩)
    · obtain ⟨hlt, _⟩ := List.getElem?_eq_some_iff.mp hscored
      exact ⟨by rw [List.getElem?_append_left hlt, hscored], hnumber⟩
    · exact ⟨List.getElem?_concat_length, hnumber⟩

theorem Eligible.lt (h : Eligible front k score) : k < front.length :=
  (List.getElem?_eq_some_iff.mp h.scored).1

/-- An answer that is no eligible score changes nothing. -/
theorem Best.skip (h : Best front best) (hskip : ∀ score, answer = some score → score.isNaN = true) :
    Best (front ++ [answer]) best := by
  have hsame (k : Nat) (score : Float32) : Eligible (front ++ [answer]) k score ↔ Eligible front k score := by
    rw [eligible_snoc, or_iff_left]
    rintro ⟨_, hanswer, hnumber⟩
    rw [hskip score hanswer] at hnumber
    cases hnumber
  cases best with
  | none => exact fun k score hk => h k score ((hsame k score).mp hk)
  | some best =>
      exact ⟨(hsame _ _).mpr h.eligible, fun j score hj => h.most j score ((hsame j score).mp hj),
        fun j score hlt hj => h.first j score hlt ((hsame j score).mp hj)⟩

/-- A score makes way for a greater one only. -/
theorem Best.better (h : Best front best) (hnumber : score.isNaN = false) :
    Best (front ++ [some score]) (Walk.better best front.length score) := by
  have hlast : Eligible (front ++ [some score]) front.length score :=
    eligible_snoc.mpr (.inr ⟨rfl, rfl, hnumber⟩)
  unfold Walk.better
  rw [if_neg (Bool.eq_false_iff.mp hnumber)]
  cases best with
  | none =>
      refine ⟨hlast, fun j other hj => ?_, fun j other hlt hj => ?_⟩
      · rcases eligible_snoc.mp hj with hj | ⟨_, hother, _⟩
        · exact (h j other hj).elim
        · obtain rfl := Option.some.inj hother
          exact single_le_refl hnumber
      · rcases eligible_snoc.mp hj with hj | ⟨rfl, _⟩
        · exact (h j other hj).elim
        · exact (Nat.lt_irrefl _ hlt).elim
  | some best =>
      obtain ⟨k, top⟩ := best
      have htop := h.eligible.number
      dsimp only
      split
      next hgreater =>
        refine ⟨hlast, fun j other hj => ?_, fun j other hlt hj => ?_⟩
        · rcases eligible_snoc.mp hj with hj | ⟨_, hother, _⟩
          · exact single_le_of_lt (single_lt_of_le_of_lt (h.most j other hj) hgreater)
          · obtain rfl := Option.some.inj hother
            exact single_le_refl hnumber
        · rcases eligible_snoc.mp hj with hj | ⟨rfl, _⟩
          · exact single_lt_of_le_of_lt (h.most j other hj) hgreater
          · exact (Nat.lt_irrefl _ hlt).elim
      next hnot =>
        refine ⟨eligible_snoc.mpr (.inl h.eligible), fun j other hj => ?_, fun j other hlt hj => ?_⟩
        · rcases eligible_snoc.mp hj with hj | ⟨_, hother, _⟩
          · exact h.most j other hj
          · obtain rfl := Option.some.inj hother
            exact (not_single_lt htop hnumber).mp hnot
        · rcases eligible_snoc.mp hj with hj | ⟨rfl, _⟩
          · exact h.first j other hlt hj
          · exact (Nat.lt_asymm hlt h.eligible.lt).elim

theorem Best.snoc (h : Best front best) (answer : Option Float32) :
    Best (front ++ [answer]) (answer.elim best (Walk.better best front.length)) := by
  cases answer with
  | none => exact h.skip nofun
  | some score =>
      cases hnan : score.isNaN with
      | true =>
          have hkept : Walk.better best front.length score = best := if_pos hnan
          show Best _ (Walk.better best front.length score)
          rw [hkept]
          exact h.skip fun other hother => Option.some.inj hother ▸ hnan
      | false => exact h.better hnan

/-- The running best is the best of all that came by. -/
theorem Best.after (h : Best front best) (scores : List (Option Float32)) :
    Best (front ++ scores) (bestAfter front.length best scores) := by
  induction scores generalizing front best with
  | nil => rwa [List.append_nil]
  | cons answer scores ih =>
      have hstep := ih (h.snoc answer)
      rwa [List.append_assoc, List.singleton_append, List.length_append, List.length_singleton] at hstep

theorem best_bestAfter (scores : List (Option Float32)) : Best scores (bestAfter 0 none scores) := by
  have hnone : Best [] none := fun _ _ h => nomatch h.scored
  exact hnone.after scores

/-- Of two winners neither comes first. -/
theorem Tops.unique (h : Tops front j score) (h' : Tops front k top) : j = k := by
  rcases Nat.lt_trichotomy j k with hlt | heq | hgt
  · have hless := h'.first j score hlt h.eligible
    exact ((not_single_le h'.eligible.number h.eligible.number).mpr hless (h.most k top h'.eligible)).elim
  · exact heq
  · have hless := h.first k top hgt h'.eligible
    exact ((not_single_le h.eligible.number h'.eligible.number).mpr hless (h'.most j score h.eligible)).elim

theorem Best.winner_iff (h : Best front best) (k : Nat) : best.map Prod.fst = some k ↔ Wins front k := by
  cases best with
  | none =>
      refine iff_of_false nofun ?_
      rintro ⟨top, htop⟩
      exact h k top htop.eligible
  | some best =>
      constructor
      · intro hk
        obtain rfl := Option.some.inj hk
        exact ⟨_, h⟩
      · rintro ⟨top, htop⟩
        exact congrArg some (h.unique htop)

theorem Best.none_iff (h : Best front best) :
    best.map Prod.fst = none ↔ ∀ k score, ¬Eligible front k score := by
  cases best with
  | none => exact iff_of_true rfl h
  | some best => exact iff_of_false nofun fun hnone => hnone _ _ h.eligible

end Scores

/-! ## Scoring -/

/-- What a branch answers and the context after it: a score, or that there is none because the scorer has
failed.  There is no answer if the scorer raises or the curve has no value. -/
def Branch.answer (b : Branch κ) (context : κ) : Option (Option Float32) × κ :=
  match b.scorer.invoke context with
  | .ok (.ok raw) context => ((b.curve.evaluate raw).map some, context)
  | .ok (.error _) context => (some none, context)
  | .error _ context => (none, context)

/-- The answers of branches that are scored one after the other, if all of them answer. -/
def answers : List (Branch κ) → κ → Option (List (Option Float32))
  | [], _ => some []
  | b :: branches, context =>
    match b.answer context with
    | (some answer, context) => (answers branches context).map (answer :: ·)
    | (none, _) => none

/-- The scorers of a node are called in order, from a given branch on, and nothing else is called. -/
def CallsScorers (id : NodeId) (index count : Nat) (events : List (Event κ)) : Prop :=
  events.filterMap Event.call? = (List.range' index count).map (Call.scorer id)

def Weighed (id : NodeId) (branches : List (Branch κ)) (index : Nat) (best : Option (Nat × Float32))
    (s : Session κ τ ρ) (final : Option (Nat × Float32)) (s' : Session κ τ ρ) : Prop :=
  ∃ scores, answers branches s.context = some scores ∧ final = bestAfter index best scores ∧
    s'.Adds s.journal.toList (CallsScorers id index branches.length)

/-- The first branch that does not answer was the last one whose scorer was called. -/
structure Unanswered (id : NodeId) (branches : List (Branch κ)) (context : κ) (index : Nat)
    (events : List (Event κ)) : Prop where
  noAnswers : answers branches context = none
  lastCalled : ∃ front b rest, branches = front ++ b :: rest ∧ answers front context ≠ none ∧
    answers (front ++ [b]) context = none ∧ CallsScorers id index (front.length + 1) events

section Scoring

variable {id : NodeId} {s s₁ s' : Session κ τ ρ} {index count : Nat}
  {added events origin : List (Event κ)} {b : Branch κ} {branches : List (Branch κ)} {context after : κ}
  {answer : Option Float32} {best final : Option (Nat × Float32)}

theorem CallsScorers.cons (hadded : added.filterMap Event.call? = [.scorer id index])
    (h : CallsScorers id (index + 1) count events) :
    CallsScorers id index (count + 1) (added ++ events) := by
  unfold CallsScorers at h ⊢
  rw [List.filterMap_append, hadded, h, List.range'_succ, List.map_cons, List.singleton_append]

theorem answers_cons (h : b.answer context = (some answer, after)) (branches : List (Branch κ)) :
    answers (b :: branches) context = (answers branches after).map (answer :: ·) := by
  simp only [answers, h]

theorem Unanswered.first (h : b.answer context = (none, after))
    (hadded : added.filterMap Event.call? = [.scorer id index]) :
    Unanswered id (b :: branches) context index added where
  noAnswers := by simp only [answers, h]
  lastCalled := ⟨[], b, branches, rfl, nofun, by simp only [List.nil_append, answers, h], hadded⟩

theorem Unanswered.cons (h : b.answer context = (some answer, after))
    (hadded : added.filterMap Event.call? = [.scorer id index])
    (hrest : Unanswered id branches after (index + 1) events) :
    Unanswered id (b :: branches) context index (added ++ events) := by
  obtain ⟨hnone, front, b', rest, rfl, hfront, hlast, hcalls⟩ := hrest
  refine ⟨by rw [answers_cons h, hnone, Option.map_none], b :: front, b', rest, rfl, ?_, ?_,
    .cons hadded hcalls⟩
  · rw [answers_cons h]
    exact fun hmap => hfront (Option.map_eq_none_iff.mp hmap)
  · rw [List.cons_append, answers_cons h, hlast, Option.map_none]

/-- What is added after some events is added together with them. -/
theorem Session.Adds.prepend {P Q : List (Event κ) → Prop} (h : s'.Adds (origin ++ added) P)
    (hadded : ∀ events, P events → Q (added ++ events)) : s'.Adds origin Q := by
  obtain ⟨events, hevents, hP⟩ := h
  exact ⟨added ++ events, by rw [hevents, List.append_assoc], hadded events hP⟩

theorem Weighed.cons
    (h : Weighed id branches (index + 1) (answer.elim best (Walk.better best index)) s₁ final s')
    (hanswer : b.answer s.context = (some answer, s₁.context))
    (hjournal : s₁.journal.toList = s.journal.toList ++ added)
    (hadded : added.filterMap Event.call? = [.scorer id index]) :
    Weighed id (b :: branches) index best s final s' := by
  obtain ⟨scores, hscores, hfinal, hcalls⟩ := h
  rw [hjournal] at hcalls
  exact ⟨answer :: scores, by rw [answers_cons hanswer, hscores, Option.map_some], hfinal,
    hcalls.prepend fun _ => .cons hadded⟩

/-- What a branch that answers adds goes before what the others add. -/
theorem Walk.leads_others {w : Walk κ τ ρ (Option (Nat × Float32))}
    (h : w.Leads s₁ (Weighed id branches (index + 1) (answer.elim best (better best index)) s₁)
      fun s' => s'.Adds s₁.journal.toList (Unanswered id branches s₁.context (index + 1)))
    (hanswer : b.answer s.context = (some answer, s₁.context))
    (hjournal : s₁.journal.toList = s.journal.toList ++ added)
    (hadded : added.filterMap Event.call? = [.scorer id index]) :
    w.Leads s₁ (Weighed id (b :: branches) index best s)
      fun s' => s'.Adds s.journal.toList (Unanswered id (b :: branches) s.context index) := by
  refine h.imp (fun final s' hs => hs.cons hanswer hjournal hadded) fun s' hs => ?_
  rw [hjournal] at hs
  exact hs.prepend fun _ => .cons hanswer hadded

theorem Walk.leads_evaluate {ends : Float32 → Session κ τ ρ → Prop} {breaks : Session κ τ ρ → Prop}
    (c : Curve) (raw : Float32) (hsome : ∀ score, c.evaluate raw = some score → ends score s)
    (hnone : c.evaluate raw = none → breaks s) : (evaluate c raw).Leads s ends breaks := by
  unfold Leads evaluate
  cases h : c.evaluate raw with
  | none => exact hnone h
  | some score => exact hsome score h

/-- Scoring calls every scorer once and keeps the best answer, or breaks off at the first branch without an
answer. -/
theorem Walk.leads_answers (label : String) (branches : List (Branch κ)) (index : Nat)
    (best : Option (Nat × Float32)) :
    (scoreBranches id label index best branches).Leads s (Weighed id branches index best s)
      fun s' => s'.Adds s.journal.toList (Unanswered id branches s.context index) := by
  induction branches generalizing s index best with
  | nil => exact ⟨[], rfl, rfl, .nil rfl⟩
  | cons b branches ih =>
      unfold scoreBranches
      rw [leads_bind]
      refine leads_invoke_answer _ _ (fun result context hinvoke => ?_) fun message context hinvoke => ?_
      · cases result with
        | ok raw =>
            dsimp only
            rw [leads_bind]
            refine leads_evaluate b.curve raw (fun score hscore => ?_) fun hnone => ?_
            · have hanswer : b.answer s.context = (some (some score), context) := by
                simp only [Branch.answer, hinvoke, hscore, Option.map_some]
              exact leads_others (ih _ _) hanswer (Session.toList_record _ _) rfl
            · have hanswer : b.answer s.context = (none, context) := by
                simp only [Branch.answer, hinvoke, hnone, Option.map_none]
              exact ⟨[_], Session.toList_record _ _, .first hanswer rfl⟩
        | error error =>
            dsimp only
            rw [leads_bind]
            unfold fail
            rw [leads_bind, leads_change, leads_report]
            have hanswer : b.answer s.context = (some none, context) := by
              simp only [Branch.answer, hinvoke]
            have hadded : [Event.called (.scorer id index) s.context context (.failed error),
                .reported (.failed (.node id) label error)].filterMap Event.call? = [.scorer id index] := rfl
            refine leads_others (ih _ _) hanswer ((Session.toList_record _ _).trans ?_) hadded
            exact (congrArg (· ++ [_]) (Session.toList_record _ _)).trans (List.append_assoc _ _ _)
      · have hanswer : b.answer s.context = (none, context) := by
          simp only [Branch.answer, hinvoke]
        exact ⟨[_], Session.toList_record _ _, .first hanswer rfl⟩

end Scoring

/-! ## Entered utilities -/

/-- A utility that was entered has called all its scorers and has chosen: the winner is the first of the
branches with the greatest score, and the transitions of all others are relaxed. -/
structure Chooses (g : Graph κ) (id : NodeId) (branches : List (Branch κ))
    (scores : List (Option Float32)) (winner : Option Nat) (entered chosen : Session κ τ ρ) : Prop where
  calls : CallsScorers id 0 branches.length (chosen.since entered)
  wins : ∀ k, winner = some k ↔ Wins scores k
  none : winner = none ↔ ∀ k score, ¬Eligible scores k score
  relaxed : ∀ k < branches.length, winner ≠ some k → ∀ t ∈ g.exits id (.branch k), ∀ flag,
    chosen.state.has flag (.transition t) = false

section Utility

variable {g : Graph κ} {id : NodeId} {n : Node κ} {branches : List (Branch κ)}
  {s entered : Session κ τ ρ} {tick : TransitionId → Walk κ τ ρ Bool}

/-- The transitions of the ports that were not chosen have neither flag. -/
theorem State.has_relaxOthers {state : State} {chosen : Option Port} {port : Port} {t : TransitionId}
    (hport : port ∈ n.behaviour.ports) (hchosen : chosen ≠ some port) (ht : t ∈ g.exits id port)
    (flag : Flag) : (state.relaxOthers g id n chosen).has flag (.transition t) = false := by
  have hexcluded : t ∈ g.excluded id n chosen := Graph.mem_excluded.mpr ⟨port, ht, hport, hchosen⟩
  have hdown : ((state.relaxOthers g id n chosen).marking flag).has (.transition t) = false := by
    rw [State.marking_relaxOthers]
    exact Marking.has_foldl_relax (List.mem_map_of_mem hexcluded) _
  cases flag <;> exact hdown

/-- A utility that has scored its branches commits itself to the best. -/
theorem chooses_commit (hn : n.behaviour = .utility branches) {scores : List (Option Float32)}
    {best : Option (Nat × Float32)} (hbest : Best scores best) {scored : Session κ τ ρ}
    (hcalls : scored.Adds entered.journal.toList (CallsScorers id 0 branches.length)) :
    Chooses g id branches scores (best.map Prod.fst) entered
      (scored.commit g id n ((best.map Prod.fst).map .branch)) := by
  have hloop : n.kind ≠ .loop := by simp [Node.kind, hn, Behaviour.kind]
  rw [Session.commit_of_not_loop hloop]
  refine ⟨?_, hbest.winner_iff, hbest.none_iff, fun k hk hne t ht flag => ?_⟩
  · have hchose : (scored.record (.chose id ((best.map Prod.fst).map .branch))).Adds
        entered.journal.toList (CallsScorers id 0 branches.length) :=
      hcalls.record _ fun events hevents => by
        unfold CallsScorers at hevents ⊢
        rw [List.filterMap_append, hevents]
        exact List.append_nil _
    exact hchose.since
  · have hport : Port.branch k ∈ n.behaviour.ports := by
      rw [hn]
      exact List.mem_map_of_mem (List.mem_range.mpr hk)
    refine State.has_relaxOthers hport ?_ ht flag
    cases best with
    | none => exact (Option.some_ne_none _).symm
    | some best => simpa using hne

theorem Walk.runNode_of_enter (hn : n.behaviour = .utility branches)
    (h : Walk.enter g id n s = .ok true entered) :
    Walk.runNode g id n tick s =
      (do
        let best ← Walk.scoreBranches id n.label 0 none branches
        modify (Session.commit g id n ((best.map Prod.fst).map .branch))
        (best.map Prod.fst).elim (pure ()) fun k => Walk.fanOut tick (g.exits id (.branch k))
        Walk.leave g id n) entered := by
  have hchoose : (Walk.choose id n : Walk κ τ ρ (Option Port)) = (do
      let best ← Walk.scoreBranches id n.label 0 none branches
      return best.map fun winner => .branch winner.1) := by
    unfold Walk.choose
    rw [hn]
  unfold Walk.runNode
  rw [hchoose]
  simp only [Bind.bind, EStateM.bind, h, if_true]
  cases Walk.scoreBranches id n.label 0 none branches entered with
  | error cause broken => rfl
  | ok best scored => cases best <;> rfl

/-- A utility that is entered calls its scorers in order.  If every branch answers, each scorer is called
once, the first branch with the greatest score wins, all others are relaxed, and then the transitions of the
winner are ticked and no other; otherwise the walk breaks off at the first branch that does not. -/
theorem utility_chooses (hn : n.behaviour = .utility branches) (tick : TransitionId → Walk κ τ ρ Bool)
    (h : Walk.enter g id n s = .ok true entered) :
    (∀ scores, answers branches entered.context = some scores →
      ∃ winner chosen, Chooses g id branches scores winner entered chosen ∧
        Walk.runNode g id n tick s =
          (do
            winner.elim (pure ()) fun k => Walk.fanOut tick (g.exits id (.branch k))
            Walk.leave g id n) chosen) ∧
    (answers branches entered.context = none →
      ∃ cause broken, Walk.runNode g id n tick s = .error cause broken ∧
        Unanswered id branches entered.context 0 (broken.since entered)) := by
  have hleads := @Walk.leads_answers κ τ ρ id entered n.label branches 0 none
  rw [Walk.runNode_of_enter hn h]
  unfold Walk.Leads at hleads
  simp only [Bind.bind, EStateM.bind]
  cases hrun : Walk.scoreBranches id n.label 0 none branches entered with
  | ok best scored =>
      rw [hrun] at hleads
      obtain ⟨scores, hscores, rfl, hcalls⟩ := hleads
      rw [hscores]
      refine ⟨fun scores' hsame => ?_, nofun⟩
      obtain rfl := Option.some.inj hsame
      exact ⟨_, _, chooses_commit hn (best_bestAfter scores) hcalls, rfl⟩
  | error cause broken =>
      rw [hrun] at hleads
      have hunanswered := hleads.since
      rw [hunanswered.noAnswers]
      exact ⟨nofun, fun _ => ⟨cause, broken, rfl, hunanswered⟩⟩

end Utility

def steadyBranch (score : Float32) (curve : Curve) : Branch Unit := ⟨.noArgs (pure (.ok score)), curve⟩

def weigher (branches : List (Branch Unit)) : Node Unit :=
  { label := "weigh", behaviour := .utility branches }

def choiceSteps (branches : List (Branch Unit)) (left right : Nat) : List (BuildStep Unit) :=
  [.add "weigh" (.utility branches) [], .add "left" (.action (.noArgs (pure (.ok ())))) [],
    .add "right" (.action (.noArgs (pure (.ok ())))) [], .link entryNode ⟨1⟩,
    .connect ⟨1⟩ (.branch left) ⟨2⟩ {}, .connect ⟨1⟩ (.branch right) ⟨3⟩ {}]

def choiceGraph (branches : List (Branch Unit)) (left right : Nat) : Graph Unit :=
  .ofSteps (choiceSteps branches left right)

def choiceStart (g : Graph Unit) : Session Unit ManualClock Xoshiro :=
  .start g () (ManualClock.mk 0.0) (Xoshiro.ofSeed 0)

/-- A branch that fails, one whose score is no number, and both zeros. -/
def mixedBranches : List (Branch Unit) :=
  [⟨.noArgs (pure (.error (.unexpected "blind"))), .identity⟩, steadyBranch (0.0 / 0.0) .identity,
    steadyBranch (-0.0) .identity, steadyBranch 0.0 .identity]

def mixedGraph : Graph Unit := choiceGraph mixedBranches 2 3

def mixedEntered : Session Unit ManualClock Xoshiro :=
  match Walk.enter mixedGraph ⟨1⟩ (weigher mixedBranches) (choiceStart mixedGraph) with
  | .ok _ s => s
  | .error _ s => s

/-- The first of the zeros wins. -/
theorem mixed_chooses :
    Walk.enter mixedGraph ⟨1⟩ (weigher mixedBranches) (choiceStart mixedGraph) = .ok true mixedEntered ∧
      ∃ chosen,
        Chooses mixedGraph ⟨1⟩ mixedBranches [none, some (0.0 / 0.0), some (-0.0), some 0.0] (some 2)
          mixedEntered chosen ∧
        Walk.runNode mixedGraph ⟨1⟩ (weigher mixedBranches) (fun _ => pure true) (choiceStart mixedGraph) =
          (do
            Walk.fanOut (fun _ => pure true) (mixedGraph.exits ⟨1⟩ (.branch 2))
            Walk.leave mixedGraph ⟨1⟩ (weigher mixedBranches)) chosen := by
  have hentered : Walk.enter mixedGraph ⟨1⟩ (weigher mixedBranches) (choiceStart mixedGraph) =
      .ok true mixedEntered := rfl
  have hbranches : (weigher mixedBranches).behaviour = .utility mixedBranches := rfl
  obtain ⟨hall, _⟩ := utility_chooses hbranches (fun _ => pure true) hentered
  obtain ⟨winner, chosen, hchooses, hrun⟩ :=
    hall [none, some (0.0 / 0.0), some (-0.0), some 0.0] (by decide +kernel)
  obtain rfl : winner = some 2 :=
    (hchooses.wins 2).mpr (((best_bestAfter _).winner_iff 2).mp (by decide +kernel))
  exact ⟨hentered, chosen, hchooses, hrun⟩

/-- The curve of the first branch has no value. -/
def lostBranches : List (Branch Unit) := [steadyBranch 1.0 lostCurve, steadyBranch 5.0 .identity]

def lostGraph : Graph Unit := choiceGraph lostBranches 0 1

/-- The walk breaks off before the second scorer is called and the better branch ticked. -/
theorem lost_choice_breaks :
    lostGraph.Built ∧
      ((choiceStart lostGraph).perform lostGraph .tick).1 = .aborted .noValue ∧
      (((choiceStart lostGraph).perform lostGraph .tick).2.since (choiceStart lostGraph)).filterMap
        Event.call? = [.scorer ⟨1⟩ 0] :=
  ⟨⟨{}, none, choiceSteps lostBranches 0 1, by decide, rfl⟩, Response.abort?_eq_some.mp (by decide +kernel),
    by decide +kernel⟩

end BehaviourGraph
