import BehaviourGraph.Proofs.Entries

/-!
# Calls of nodes

A node that is entered makes its calls before anything else is ticked: its callback is called, or
all its scorers are.  So an entry is a debt that is paid within the same node, and in a walk that
ends regularly each call of a node is made exactly as often as the node is entered.
-/

namespace BehaviourGraph

variable {κ τ ρ : Type}

def Node.calls (id : NodeId) (n : Node κ) : List Act :=
  match n.behaviour with
  | .entry => []
  | .utility branches => (List.range branches.length).map (Act.scorer id)
  | _ => [.body id]

def EvaluatedTimes (id : NodeId) (n : Node κ) (times : Nat) (events : List (Event κ)) : Prop :=
  entries id events = times ∧ ∀ act ∈ n.calls id, acts act events = times

theorem Node.mem_calls {n : Node κ} {id : NodeId} {act : Act} :
    act ∈ n.calls id ↔
      (act = .body id ∧ n.kind ≠ .entry ∧ n.kind ≠ .utility) ∨
        ∃ k, k < n.behaviour.branchCount ∧ act = .scorer id k := by
  unfold calls kind
  cases n.behaviour <;> simp [Behaviour.kind, Behaviour.branchCount, eq_comm]

theorem doer?_of_mem_calls (g : Graph κ) {n : Node κ} {id : NodeId} {act : Act}
    (hact : act ∈ n.calls id) : g.doer? act = some id := by
  rcases Node.mem_calls.mp hact with ⟨rfl, _⟩ | ⟨k, _, rfl⟩
  · rfl
  · rfl

theorem callCredit_of_ne {n : Node κ} {id doer : NodeId} {act : Act} (hact : act ∈ n.calls doer)
    (hid : id ≠ doer) (branch : Nat) : callCredit id branch act = 0 := by
  rcases Node.mem_calls.mp hact with ⟨rfl, _⟩ | ⟨k, _, rfl⟩
  · simp [callCredit, hid.symm]
  · simp [callCredit, hid.symm]

theorem callCredit_of_mem_calls {n : Node κ} {id : NodeId} {act : Act} (hact : act ∈ n.calls id) :
    callCredit id 0 act = 1 := by
  rcases Node.mem_calls.mp hact with ⟨rfl, _⟩ | ⟨k, _, rfl⟩
  · simp [callCredit]
  · simp [callCredit]

/-- A node without a callback owes nothing once its branches are scored. -/
theorem callCredit_of_scored {n : Node κ} {id : NodeId} {act : Act} (hact : act ∈ n.calls id)
    (hkind : n.kind = .entry ∨ n.kind = .utility) :
    callCredit id n.behaviour.branchCount act = 0 := by
  rcases Node.mem_calls.mp hact with ⟨rfl, hentry, hutility⟩ | ⟨k, hk, rfl⟩
  · exact (hkind.elim hentry hutility).elim
  · simp [callCredit, Nat.not_le.mpr hk]

theorem eq_body_of_mem_calls {n : Node κ} {id : NodeId} {act : Act} (hact : act ∈ n.calls id)
    (hutility : n.kind ≠ .utility) : act = .body id := by
  rcases Node.mem_calls.mp hact with ⟨rfl, _⟩ | ⟨k, hk, _⟩
  · rfl
  · unfold Node.kind at hutility
    cases hbehaviour : n.behaviour <;> simp_all [Behaviour.kind, Behaviour.branchCount]

/-! ## Owed calls -/

/-- No more than a debt is missing from the calls that the entries of a node call for. -/
def Owed (origin : List (Event κ)) (act : Act) (doer : NodeId) (debt : Nat) (s : Session κ τ ρ) :
    Prop :=
  s.Adds origin fun events => entries doer events ≤ acts act events + debt

section Owed

variable {origin : List (Event κ)} {act : Act} {doer : NodeId} {debt debt' : Nat}
  {s : Session κ τ ρ} {g : Graph κ} {m : Node κ}

theorem Owed.mono (h : Owed origin act doer debt s) (hle : debt ≤ debt') :
    Owed origin act doer debt' s :=
  h.imp fun _ hevents => by omega

/-- An entry adds to the debt, and a call pays. -/
theorem Owed.record (h : Owed origin act doer debt s) (e : Event κ)
    (hcost : debt + (if e.enters doer then 1 else 0) ≤
      debt' + if e.act? = some act then 1 else 0) :
    Owed origin act doer debt' (s.record e) :=
  Session.Adds.record h e fun events hevents => by
    rw [acts_snoc, entries_snoc]
    omega

theorem Owed.record_of_not_enters (h : Owed origin act doer debt s) {e : Event κ}
    (he : e.enters doer = false) : Owed origin act doer debt (s.record e) :=
  h.record e (by simp [he])

theorem owed_report (r : Report) (events : List (Event κ))
    (h : entries doer events ≤ acts act events + debt) :
    entries doer (events ++ [.reported r]) ≤ acts act (events ++ [.reported r]) + debt := by
  simpa [acts_snoc, entries_snoc, Event.act?, Event.enters] using h

theorem inert_owed :
    Walk.Inert (Owed (τ := τ) (ρ := ρ) origin act doer debt) fun e => e.enters doer = false where
  surroundings _ _ _ _ hs := hs
  record _ _ he hs := hs.record_of_not_enters he
  setStatus _ _ _ hs := hs
  setFiring _ _ _ hs := hs
  setDepth _ _ hs := hs

theorem Owed.commit (h : Owed origin act doer debt s) (g : Graph κ) (id : NodeId) (n : Node κ)
    (chosen : Option Port) : Owed origin act doer debt (s.commit g id n chosen) :=
  Session.commit_induction n chosen (fun _ id hs => Session.Adds.switchTo hs owed_report g id)
    (fun _ hs => hs) (fun _ _ _ _ _ hs => hs) (h.record_of_not_enters rfl)

/-! ## Walks that pay -/

theorem Owed.leads_enter (hact : act ∈ m.calls doer) (id : NodeId) (n : Node κ)
    (h : Owed origin act doer debt s) :
    (Walk.enter g id n).Leads s
      (fun goes s => if goes then Owed origin act doer (debt + callCredit id 0 act) s
        else Owed origin act doer debt s) fun _ => True := by
  refine Walk.leads_enter inert_owed.toDetached inert_owed.toDetached (fun _ _ _ => rfl)
    (fun s hs _ => hs.record _ ?_)
    (fun _ hs => hs) (fun _ s hs => Session.Adds.switchTo hs owed_report g id) (fun _ _ => trivial) h
  by_cases hid : id = doer
  · rw [hid, callCredit_of_mem_calls hact]
    simp [Event.enters]
  · rw [callCredit_of_ne hact hid]
    simp [Event.enters, hid]

theorem Owed.leads_choose (hact : act ∈ m.calls doer) {id : NodeId} {n : Node κ}
    (hn : id = doer → n = m) (h : Owed origin act doer (debt + callCredit id 0 act) s) :
    (Walk.choose id n).Leads s (fun _ => Owed origin act doer debt) fun _ => True := by
  refine Walk.leads_choose_each (S := fun k => Owed origin act doer (debt + callCredit id k act))
    (fun _ => inert_owed.toDetached) (fun _ _ _ => rfl) (fun k s _ _ _ hs => hs.record _ ?_)
    (fun _ _ _ => trivial) inert_owed.toDetached (fun _ hutility s _ _ _ hs => hs.record _ ?_)
    (fun hkind s hs => hs.mono ?_)
    (fun _ _ => trivial) h
  · rw [callCredit_succ id k act]
    simp only [Event.enters, Event.act?, Option.some.injEq, Bool.false_eq_true, if_false]
    omega
  · by_cases hid : id = doer
    · obtain rfl := hn hid
      obtain rfl := eq_body_of_mem_calls hact hutility
      simp [Event.enters, Event.act?, callCredit, hid]
    · rw [callCredit_of_ne hact hid]
      simp [Event.enters]
  · by_cases hid : id = doer
    · obtain rfl := hn hid
      rw [hid, callCredit_of_scored hact hkind]
      exact Nat.le_refl debt
    · rw [callCredit_of_ne hact hid]
      exact Nat.le_refl debt

theorem Owed.leads_runNode {tick : TransitionId → Walk κ τ ρ Bool}
    (hact : act ∈ m.calls doer)
    (htick : ∀ t s, Owed origin act doer debt s →
      (tick t).Leads s (fun _ => Owed origin act doer debt) fun _ => True)
    {id : NodeId} {n : Node κ} (hn : id = doer → n = m) (h : Owed origin act doer debt s) :
    (Walk.runNode g id n tick).Leads s (fun _ => Owed origin act doer debt) fun _ => True := by
  refine Walk.leads_runNode (F := fun _ _ => Owed origin act doer debt) (h.leads_enter hact id n)
    (fun s hs => ?_) (fun _ t _ s _ hs => htick t s hs) fun _ _ s hs => ?_
  · exact (hs.leads_choose hact hn).imp (fun port s hs => hs.commit g id n port) fun _ hb => hb
  · exact Walk.leads_leave inert_owed.toAmbient (fun _ _ _ => rfl) (fun _ _ hs _ => hs)
      (fun _ hs => hs.record_of_not_enters rfl) (fun _ _ => trivial) hs

variable [Clock κ τ] [RandomSource ρ]

theorem Owed.leads_visit (hm : g.node? doer = some m) (hact : act ∈ m.calls doer) (budget : Nat)
    (id : NodeId) (h : Owed origin act doer debt s) :
    (Walk.visit g budget id).Leads s (fun _ => Owed origin act doer debt) fun _ => True := by
  refine Walk.leads_visit (I := fun _ : Unit => Owed origin act doer debt) (fun _ => inert_owed)
    (fun _ => rfl) (fun visit hvisit _ id n s hn hs => ?_) budget () id h
  have hsame (hid : id = doer) : n = m := by
    rw [hid, hm] at hn
    exact (Option.some.inj hn).symm
  refine hs.leads_runNode hact (fun t s hs => ?_) hsame
  exact Walk.leads_tickTransition (fun _ hs => hs) (fun _ hs => hs.record_of_not_enters rfl)
    (fun tr _ _ _ hs => Session.Adds.switchTo hs owed_report g tr.start)
    (fun tr _ _ hs => Walk.leads_follow inert_owed (fun _ _ _ => rfl) (fun _ _ _ => rfl)
      (fun _ _ _ => rfl) rfl (fun _ _ _ hs => hs.record_of_not_enters rfl)
      (fun s hs => hvisit () tr.finish s hs) (fun _ _ => trivial) hs) hs

end Owed

/-- In a tick that ends regularly a node makes each of its calls exactly as often as it is
entered. -/
theorem acts_eq_entries [Clock κ τ] [RandomSource ρ] {g : Graph κ} (hg : g.Consistent)
    {s s' : Session κ τ ρ} (htick : s.perform g .tick = (.done, s')) {id : NodeId} {n : Node κ}
    (hn : g.node? id = some n) {act : Act} (hact : act ∈ n.calls id) :
    acts act (s'.since s) = entries id (s'.since s) := by
  have hbacked : acts act (s'.since s) ≤ entries id (s'.since s) := by
    have hle := acts_le_entries hg s (doer?_of_mem_calls g hact)
    rwa [htick] at hle
  have hstart : Owed s.journal.toList act id 0 s := .nil (Nat.le_refl 0)
  have hbegun : Owed s.journal.toList act id 0 (s.walkStart g) :=
    Session.Adds.walkStart hstart owed_report g
  have howed : entries id (s'.since s) ≤ acts act (s'.since s) + 0 :=
    Session.Adds.since_tick owed_report (hbegun.leads_visit hn hact _ _) htick
  omega

end BehaviourGraph
