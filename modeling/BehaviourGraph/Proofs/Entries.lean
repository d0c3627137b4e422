import BehaviourGraph.Proofs.History

/-!
# Entries of nodes

Each time a node is entered it calls its callback or each of its scorers at most once, and ticks
each of its transitions at most once.  An entry gives a credit that an act of the node
spends.  Credits are kept apart for each entry in progress, so it does not matter what is ticked in
between, or whether a walk is broken off.
-/

namespace BehaviourGraph

variable {κ τ ρ : Type}

/-- What a node does once it has been entered. -/
inductive Act where
  | body (node : NodeId)
  | scorer (node : NodeId) (branch : Nat)
  | tick (transition : TransitionId)
  deriving DecidableEq

def Graph.doer? (g : Graph κ) : Act → Option NodeId
  | .body id => some id
  | .scorer id _ => some id
  | .tick t => (g.transition? t).map fun tr => tr.start

def Event.act? : Event κ → Option Act
  | .called (.body id) _ _ _ => some (.body id)
  | .called (.scorer id branch) _ _ _ => some (.scorer id branch)
  | .ticked t => some (.tick t)
  | _ => none

def Event.enters (id : NodeId) : Event κ → Bool
  | .entered node => node = id
  | _ => false

def acts (act : Act) (events : List (Event κ)) : Nat := events.countP fun e => e.act? = some act

def entries (id : NodeId) (events : List (Event κ)) : Nat := events.countP (Event.enters id)

/-! ## Credits -/

/-- How often an act is among the calls that a node makes from one of its branches on. -/
def callCredit (id : NodeId) (branch : Nat) : Act → Nat
  | .body node => if node = id then 1 else 0
  | .scorer node k => if node = id ∧ branch ≤ k then 1 else 0
  | .tick _ => 0

def tickCredit (ts : List TransitionId) (act : Act) : Nat := ts.countP fun t => act = .tick t

theorem acts_snoc (act : Act) (events : List (Event κ)) (e : Event κ) :
    acts act (events ++ [e]) = acts act events + if e.act? = some act then 1 else 0 := by
  simp [acts, List.countP_append, List.countP_cons]

theorem entries_snoc (id : NodeId) (events : List (Event κ)) (e : Event κ) :
    entries id (events ++ [e]) = entries id events + if e.enters id then 1 else 0 := by
  simp [entries, List.countP_append, List.countP_cons]

/-- The scorer of a branch is the first of the calls from that branch on. -/
theorem callCredit_succ (id : NodeId) (k : Nat) (act : Act) :
    callCredit id k act = callCredit id (k + 1) act + if .scorer id k = act then 1 else 0 := by
  cases act with
  | scorer node j =>
      simp only [callCredit, Act.scorer.injEq]
      by_cases hnode : node = id
      · subst hnode
        simp only [true_and]
        split <;> split <;> split <;> omega
      · simp [hnode, Ne.symm hnode]
  | _ => simp [callCredit]

theorem tickCredit_cons (t : TransitionId) (ts : List TransitionId) (act : Act) :
    tickCredit (t :: ts) act = (if act = .tick t then 1 else 0) + tickCredit ts act := by
  simp [tickCredit, List.countP_cons, Nat.add_comm]

/-- The transitions of a port are ticked once each. -/
theorem tickCredit_exits_le {g : Graph κ} (hg : g.Consistent) (id : NodeId) (port : Port)
    (t : TransitionId) :
    tickCredit (g.exits id port) (.tick t) ≤ 1 := by
  have hcount : tickCredit (g.exits id port) (.tick t) = (g.exits id port).count t := by
    refine List.countP_congr fun u _ => ?_
    simp only [beq_iff_eq, decide_eq_true_eq, Act.tick.injEq]
    exact eq_comm
  rw [hcount, hg.exits]
  exact List.nodup_iff_count.mp (nodup_transitionsWhere _ _) t

/-- The credit of an entry covers all that the node does. -/
theorem credit_le {g : Graph κ} (hg : g.Consistent) {act : Act} {doer : NodeId}
    (hdoer : g.doer? act = some doer) (id : NodeId) (port : Option Port) :
    callCredit id 0 act + tickCredit (port.elim [] (g.exits id)) act ≤ if id = doer then 1 else 0 := by
  have hnone (ts : List TransitionId) (h : ∀ t ∈ ts, act ≠ .tick t) : tickCredit ts act = 0 := by
    rw [tickCredit, List.countP_eq_zero]
    simpa using h
  cases act with
  | body node =>
      obtain rfl := Option.some.inj hdoer
      rw [hnone _ fun _ _ => nofun]
      simp [callCredit, eq_comm]
  | scorer node k =>
      obtain rfl := Option.some.inj hdoer
      rw [hnone _ fun _ _ => nofun]
      simp [callCredit, eq_comm]
  | tick t =>
      obtain ⟨tr, htr, rfl⟩ := Option.map_eq_some_iff.mp hdoer
      rw [show callCredit id 0 (.tick t) = 0 from rfl, Nat.zero_add]
      cases port with
      | none => exact Nat.zero_le _
      | some port =>
          by_cases hid : id = tr.start
          · rw [if_pos hid]
            exact tickCredit_exits_le hg id port t
          · -- the transition leaves another node
            rw [hnone _ fun u hu heq => ?_]
            · exact Nat.zero_le _
            · cases heq
              exact hid (hg.start_eq_of_mem_exits hu htr).symm

/-! ## Backed histories -/

/-- Every act of a node is covered by an entry, with some credit left. -/
def Backed (origin : List (Event κ)) (act : Act) (doer : NodeId) (credit : Nat) (s : Session κ τ ρ) :
    Prop :=
  s.Adds origin fun events => acts act events + credit ≤ entries doer events

section Backed

variable {origin : List (Event κ)} {act : Act} {doer : NodeId} {credit credit' : Nat}
  {s : Session κ τ ρ} {g : Graph κ}

theorem Backed.mono (h : Backed origin act doer credit s) (hle : credit' ≤ credit) :
    Backed origin act doer credit' s :=
  h.imp fun _ hevents => by omega

/-- An event that is an act spends a credit. -/
theorem Backed.record (h : Backed origin act doer credit s) (e : Event κ)
    (hcost : (if e.act? = some act then 1 else 0) + credit' ≤ credit) :
    Backed origin act doer credit' (s.record e) :=
  Session.Adds.record h e fun events hevents => by
    rw [acts_snoc, entries_snoc]
    omega

theorem Backed.record_of_ne (h : Backed origin act doer credit s) {e : Event κ}
    (he : e.act? ≠ some act) : Backed origin act doer credit (s.record e) :=
  h.record e (by simp [he])

theorem Backed.enter (h : Backed origin act doer credit s) (id : NodeId) :
    Backed origin act doer (credit + if id = doer then 1 else 0) (s.record (.entered id)) :=
  Session.Adds.record h _ fun events hevents => by
    simp only [acts_snoc, entries_snoc, Event.act?, Event.enters, decide_eq_true_eq, reduceCtorEq,
      if_false]
    omega

theorem backed_report (r : Report) (events : List (Event κ))
    (h : acts act events + credit ≤ entries doer events) :
    acts act (events ++ [.reported r]) + credit ≤ entries doer (events ++ [.reported r]) := by
  simpa [acts_snoc, entries_snoc, Event.act?, Event.enters] using h

theorem inert_backed :
    Walk.Inert (Backed (τ := τ) (ρ := ρ) origin act doer credit) fun e => e.act? ≠ some act where
  surroundings _ _ _ _ hs := hs
  record _ _ he hs := hs.record_of_ne he
  setStatus _ _ _ hs := hs
  setFiring _ _ _ hs := hs
  setDepth _ _ hs := hs

theorem Backed.switchTo (h : Backed origin act doer credit s) (g : Graph κ) (id : NodeId) :
    Backed origin act doer credit (s.switchTo g id) :=
  Session.Adds.switchTo h backed_report g id

theorem Backed.commit (h : Backed origin act doer credit s) (g : Graph κ) (id : NodeId) (n : Node κ)
    (chosen : Option Port) : Backed origin act doer credit (s.commit g id n chosen) :=
  Session.commit_induction n chosen (fun _ id hs => hs.switchTo g id) (fun _ hs => hs)
    (fun _ _ _ _ _ hs => hs) (h.record_of_ne nofun)

/-! ## Backed walks -/

theorem Backed.leads_choose {id : NodeId} {n : Node κ}
    (h : Backed origin act doer (credit + callCredit id 0 act) s) :
    (Walk.choose id n).Leads s (fun _ => Backed origin act doer credit)
      (Backed origin act doer credit) := by
  refine Walk.leads_choose (S := fun k => Backed origin act doer (credit + callCredit id k act))
    (fun _ => inert_backed.toDetached) (fun _ _ => nofun) (fun k s _ _ _ hs => hs.record _ ?_)
    (fun k s hs => hs.mono (Nat.le_add_right _ _)) inert_backed.toDetached
    (fun s _ _ _ hs => hs.record _ ?_) h
  · rw [callCredit_succ id k act]
    simp only [Event.act?, Option.some.injEq]
    omega
  · cases act with
    | body node =>
        simp only [Event.act?, callCredit, Option.some.injEq, Act.body.injEq, eq_comm]
        omega
    | _ => simp [Event.act?]

theorem Backed.leads_runNode {tick : TransitionId → Walk κ τ ρ Bool} (hg : g.Consistent)
    (hdoer : g.doer? act = some doer)
    (htick : ∀ t credit s, Backed origin act doer (credit + if act = .tick t then 1 else 0) s →
      (tick t).Leads s (fun _ => Backed origin act doer credit) (Backed origin act doer 0))
    (id : NodeId) (n : Node κ) (h : Backed origin act doer credit s) :
    (Walk.runNode g id n tick).Leads s (fun _ => Backed origin act doer credit)
      (Backed origin act doer 0) := by
  have henter : (Walk.enter g id n).Leads s
      (fun goes s => if goes then Backed origin act doer (credit + if id = doer then 1 else 0) s
        else Backed origin act doer credit s) (Backed origin act doer 0) :=
    Walk.leads_enter inert_backed.toDetached inert_backed.toDetached (fun _ _ _ => nofun)
      (fun s hs _ => hs.enter id)
      (fun _ hs => hs) (fun _ s hs => hs.switchTo g id)
      (fun s hs => (hs.elim (·) (·)).mono (Nat.zero_le _)) h
  refine Walk.leads_runNode (F := fun _ ts => Backed origin act doer (credit + tickCredit ts act)) henter
    (fun s hs => ?_) (fun port t ts s _ hs => htick t _ s (hs.mono ?_)) fun port ts s hs => ?_
  · -- the credit that the calls leave is enough for any port
    have hcalls := credit_le hg hdoer id none
    have hrest : callCredit id 0 act +
        ((if id = doer then 1 else 0) - callCredit id 0 act) = if id = doer then 1 else 0 := by omega
    have hs' : Backed origin act doer
        (credit + ((if id = doer then 1 else 0) - callCredit id 0 act) + callCredit id 0 act) s :=
      hs.mono (by omega)
    refine hs'.leads_choose.imp (fun port s hs => ?_) fun s hs => hs.mono (Nat.zero_le _)
    have hport := credit_le hg hdoer id port
    exact (hs.commit g id n port).mono (by omega)
  · rw [tickCredit_cons]
    omega
  · have hleave := hs.mono (Nat.le_add_right credit _)
    exact Walk.leads_leave inert_backed.toAmbient (fun _ _ _ => nofun) (fun _ _ hs _ => hs)
      (fun _ hs => hs.record_of_ne nofun) (fun _ hs => hs.mono (Nat.zero_le _)) hleave

variable [Clock κ τ] [RandomSource ρ]

theorem Backed.leads_tickTransition {visit : NodeId → Walk κ τ ρ Unit}
    (hvisit : ∀ id credit s, Backed origin act doer credit s →
      (visit id).Leads s (fun _ => Backed origin act doer credit) (Backed origin act doer 0))
    (t : TransitionId) (h : Backed origin act doer (credit + if act = .tick t then 1 else 0) s) :
    (Walk.tickTransition g visit t).Leads s (fun _ => Backed origin act doer credit)
      (Backed origin act doer 0) := by
  have hcost : (if (Event.ticked t : Event κ).act? = some act then 1 else 0) + credit ≤
      credit + if act = .tick t then 1 else 0 := by
    simp only [Event.act?, Option.some.injEq, eq_comm]
    omega
  exact Walk.leads_tickTransition (Q := Backed origin act doer credit)
    (fun _ hs => hs.mono (Nat.le_add_right _ _)) (fun _ hs => hs.record _ hcost)
    (fun tr _ _ _ hs => hs.switchTo g tr.start)
    (fun tr _ _ hs => Walk.leads_follow inert_backed (fun _ => nofun) (fun _ _ _ => nofun)
      (fun _ _ _ => nofun) nofun (fun _ _ _ hs => hs.record_of_ne nofun)
      (fun s hs => hvisit tr.finish credit s hs) (fun _ hs => hs.mono (Nat.zero_le _)) hs) h

theorem Backed.leads_visit (hg : g.Consistent) (hdoer : g.doer? act = some doer) (budget : Nat)
    (id : NodeId) (h : Backed origin act doer credit s) :
    (Walk.visit g budget id).Leads s (fun _ => Backed origin act doer credit)
      (Backed origin act doer 0) := by
  -- the credit is the index: ticks below a node spend none of what it has left
  refine Walk.leads_visit (I := fun credit => Backed origin act doer credit) (fun _ => inert_backed)
    (fun _ => nofun) (fun visit hvisit credit id n s _ hs => ?_) budget credit id h
  refine hs.leads_runNode hg hdoer (fun t credit s hs => ?_) id n
  exact Backed.leads_tickTransition (fun id credit s hs => hvisit credit id s hs) t hs

end Backed

/-- In every tick a node does each of its acts at most as often as it is entered. -/
theorem acts_le_entries [Clock κ τ] [RandomSource ρ] {g : Graph κ} (hg : g.Consistent)
    (s : Session κ τ ρ) {act : Act} {doer : NodeId} (hdoer : g.doer? act = some doer) :
    acts act ((s.perform g .tick).2.since s) ≤ entries doer ((s.perform g .tick).2.since s) := by
  have hstart : Backed s.journal.toList act doer 0 s := .nil (Nat.le_refl 0)
  have hwalk : (Walk.tick g).Leads s (fun _ => Backed s.journal.toList act doer 0)
      (Backed s.journal.toList act doer 0) := by
    rw [Walk.leads_tick]
    have hbegun : Backed s.journal.toList act doer 0 (s.walkStart g) :=
      Session.Adds.walkStart hstart backed_report g
    exact (hbegun.leads_visit hg hdoer _ _).imp
      (fun _ _ hs => Backed.record_of_ne (e := .reported _) hs nofun) fun _ hs => hs
  exact Session.Adds.since hwalk.run

end BehaviourGraph
