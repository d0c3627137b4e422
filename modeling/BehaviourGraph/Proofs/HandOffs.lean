import BehaviourGraph.Proofs.Boundary
import BehaviourGraph.Proofs.History
import BehaviourGraph.Proofs.Queue
import BehaviourGraph.Proofs.Switching
import BehaviourGraph.Proofs.Walk.Checked

/-!
# Delivery of hand-offs

A hand-off that has been accepted is outstanding until its node is cancelled or a tick begins at its time
or later; nothing else a host does settles it.  The queue holds just what is outstanding, in order of
time and at equal times in the order of the requests.  Every tick takes out what is due, switches to
each node in turn and begins its walk at the last, whether or not the walk is broken off later.
-/

namespace BehaviourGraph

variable {κ τ ρ : Type}

/-! ## Runs -/

section Runs

variable [Clock κ τ] [RandomSource ρ] {g : Graph κ} {s : Session κ τ ρ} {moves : List (Move κ τ ρ)}

def Session.moved (g : Graph κ) (s : Session κ τ ρ) : Move κ τ ρ → Session κ τ ρ
  | .request operation => (s.perform g operation).2
  | .surround context clock random => { s with context, clock, random }

def Session.after (g : Graph κ) (s : Session κ τ ρ) (moves : List (Move κ τ ρ)) (k : Nat) :
    Session κ τ ρ :=
  (s.play g (moves.take k)).2

theorem Session.play_cons (move : Move κ τ ρ) :
    (s.play g (move :: moves)).2 = ((s.moved g move).play g moves).2 := by
  cases move <;> rfl

theorem Session.after_succ {k : Nat} {move : Move κ τ ρ} (h : moves[k]? = some move) :
    s.after g moves (k + 1) = (s.after g moves k).moved g move := by
  unfold after
  induction moves generalizing k s with
  | nil => cases h
  | cons first moves ih =>
      cases k with
      | zero =>
          cases h
          rw [List.take_succ_cons, play_cons]
          rfl
      | succ k =>
          rw [List.take_succ_cons, List.take_succ_cons, play_cons, play_cons]
          exact ih h

theorem Session.after_of_none {k : Nat} (h : moves[k]? = none) :
    s.after g moves (k + 1) = s.after g moves k := by
  rw [List.getElem?_eq_none_iff] at h
  unfold after
  rw [List.take_of_length_le h, List.take_of_length_le (Nat.le_succ_of_le h)]

theorem Session.Reachable.play (hs : s.Reachable g) (moves : List (Move κ τ ρ)) :
    (s.play g moves).2.Reachable g := by
  induction moves generalizing s with
  | nil => exact hs
  | cons move moves ih =>
      cases move with
      | request operation => exact ih (hs.perform operation)
      | surround context clock random => exact ih (hs.surroundings context clock random)

theorem Session.Reachable.after (hs : s.Reachable g) (k : Nat) : (s.after g moves k).Reachable g :=
  hs.play (moves.take k)

end Runs

/-! ## What is outstanding -/

section Outstanding

variable [Clock κ τ] [RandomSource ρ]

def Session.promised? (g : Graph κ) (s : Session κ τ ρ) : Move κ τ ρ → Option HandOff
  | .request (.resumeAt node due) =>
    if (s.perform g (.resumeAt node due)).1.isDone then some ⟨due, node⟩ else none
  | _ => none

/-- Whether a move settles a hand-off: its node is cancelled, or a tick begins when it is due. -/
def Session.settles (s : Session κ τ ρ) (p : HandOff) : Move κ τ ρ → Bool
  | .request (.cancel node) => p.node = node
  | .request .tick => p.due ≤ s.reading
  | _ => false

structure Session.Outstanding (g : Graph κ) (s : Session κ τ ρ) (moves : List (Move κ τ ρ)) (k : Nat)
    (i : Nat) (p : HandOff) : Prop where
  earlier : i < k
  promised : ∃ move, moves[i]? = some move ∧ (s.after g moves i).promised? g move = some p
  unsettled : ∀ j move, i < j → j < k → moves[j]? = some move →
    (s.after g moves j).settles p move = false

variable {g : Graph κ} {s : Session κ τ ρ} {moves : List (Move κ τ ρ)} {k i : Nat} {p : HandOff}

/-- What is accepted is a hand-off to a node of the graph at a finite time. -/
theorem Session.promised?_eq_some {move : Move κ τ ρ} :
    s.promised? g move = some p ↔
      move = .request (.resumeAt p.node p.due) ∧ g.hasNode p.node = true ∧ p.due.isFinite = true := by
  constructor
  · intro h
    unfold promised? at h
    split at h
    next node due =>
      simp only [perform, provided] at h
      by_cases hnode : g.hasElement (.node node) = true
      · by_cases hfinite : due.isFinite = true
        · simp only [hnode, hfinite, if_true, Response.isDone] at h
          obtain rfl := Option.some.inj h
          exact ⟨rfl, hnode, hfinite⟩
        · simp [hnode, hfinite, Response.isDone] at h
      · simp [hnode, Response.isDone] at h
    next => cases h
  · rintro ⟨rfl, hnode, hfinite⟩
    have helement : g.hasElement (.node p.node) = true := hnode
    simp [promised?, perform, provided, helement, hfinite, Response.isDone]

theorem Session.Outstanding.isNumber (h : s.Outstanding g moves k i p) : p.due.isNaN = false := by
  obtain ⟨move, _, hp⟩ := h.promised
  exact not_isNaN_of_isFinite (promised?_eq_some.mp hp).2.2

theorem Session.outstanding_succ {move : Move κ τ ρ} (hmove : moves[k]? = some move) :
    s.Outstanding g moves (k + 1) i p ↔
      (i = k ∧ (s.after g moves k).promised? g move = some p) ∨
        (s.Outstanding g moves k i p ∧ (s.after g moves k).settles p move = false) := by
  constructor
  · intro h
    obtain ⟨promising, hpromising, hp⟩ := h.promised
    rcases Nat.lt_or_eq_of_le (Nat.le_of_lt_succ h.earlier) with hlt | rfl
    · refine .inr ⟨⟨hlt, ⟨promising, hpromising, hp⟩, fun j later hij hjk => ?_⟩, ?_⟩
      · exact h.unsettled j later hij (Nat.lt_succ_of_lt hjk)
      · exact h.unsettled k move hlt (Nat.lt_succ_self k) hmove
    · rw [hmove] at hpromising
      cases hpromising
      exact .inl ⟨rfl, hp⟩
  · intro h
    rcases h with ⟨rfl, hp⟩ | ⟨h, hsettles⟩
    · exact ⟨Nat.lt_succ_self i, ⟨move, hmove, hp⟩, fun j _ hij hjk => by omega⟩
    · refine ⟨Nat.lt_succ_of_lt h.earlier, h.promised, fun j later hij hjk hlater => ?_⟩
      rcases Nat.lt_or_eq_of_le (Nat.le_of_lt_succ hjk) with hlt | rfl
      · exact h.unsettled j later hij hlt hlater
      · rw [hmove] at hlater
        cases hlater
        exact hsettles

theorem Session.outstanding_of_none (hmove : moves[k]? = none) :
    s.Outstanding g moves (k + 1) i p ↔ s.Outstanding g moves k i p := by
  have hlength := List.getElem?_eq_none_iff.mp hmove
  constructor
  · intro h
    obtain ⟨move, hi, _⟩ := h.promised
    obtain ⟨hlt, _⟩ := List.getElem?_eq_some_iff.mp hi
    exact ⟨by omega, h.promised, fun j later hij hjk => h.unsettled j later hij (by omega)⟩
  · intro h
    refine ⟨Nat.lt_succ_of_lt h.earlier, h.promised, fun j later hij hjk hlater => ?_⟩
    obtain ⟨hlt, _⟩ := List.getElem?_eq_some_iff.mp hlater
    exact h.unsettled j later hij (by omega) hlater

end Outstanding

/-! ## What a move does to the queue -/

section Queue

theorem lasting_queue (g : Graph κ) (q : ResumeQueue) :
    Lasting (τ := τ) (ρ := ρ) g fun s => s.state.queue = q where
  surroundings _ _ _ _ hs := hs
  record _ _ _ hs := hs
  setStatus _ _ _ hs := hs
  setFiring _ _ _ hs := hs
  setDepth _ _ hs := hs
  mark _ _ hs := hs
  relax _ flag _ hs := by cases flag <;> exact hs
  setControl _ _ hs := hs

variable [Clock κ τ] {g : Graph κ} {s : Session κ τ ρ}

theorem Session.queue_walkStart : (s.walkStart g).state.queue = (s.state.queue.drainDue s.reading).2 :=
  List.foldlRecOn
    (motive := fun s' : Session κ τ ρ => s'.state.queue = (s.state.queue.drainDue s.reading).2)
    _ _ rfl fun s' hs id _ => (lasting_queue g _).switchTo s' id hs

variable [RandomSource ρ]

/-- A tick takes the due hand-offs out of the queue, and its walk does not touch the others. -/
theorem Session.queue_tick :
    (s.perform g .tick).2.state.queue = (s.state.queue.drainDue s.reading).2 := by
  have hwalk : (Walk.tick g).Leads s
      (fun _ s' => s'.state.queue = (s.state.queue.drainDue s.reading).2)
      (fun s' => s'.state.queue = (s.state.queue.drainDue s.reading).2) := by
    rw [Walk.leads_tick]
    exact ((lasting_queue g _).keeps_visit _ _).leads queue_walkStart (fun _ _ hs => hs) fun _ hs => hs
  exact hwalk.run

/-- A request that is accepted puts its hand-off into the queue. -/
theorem Session.queue_of_promised {move : Move κ τ ρ} {p : HandOff} (h : s.promised? g move = some p) :
    (s.moved g move).state.queue = s.state.queue.push p.due p.node := by
  obtain ⟨rfl, hnode, hfinite⟩ := promised?_eq_some.mp h
  have helement : g.hasElement (.node p.node) = true := hnode
  simp only [moved, perform, provided, helement, hfinite, if_true]
  rfl

theorem Session.settles_of_promised {move : Move κ τ ρ} {p q : HandOff}
    (h : s.promised? g move = some p) : s.settles q move = false := by
  obtain ⟨rfl, _⟩ := promised?_eq_some.mp h
  rfl

/-- A request for a hand-off that is refused leaves the queue as it is. -/
theorem Session.queue_of_refused {id : NodeId} {due : Float}
    (h : s.promised? g (.request (.resumeAt id due)) = none) :
    (s.moved g (.request (.resumeAt id due))).state.queue = s.state.queue := by
  simp only [moved, perform, provided]
  split
  next hnode =>
    split
    next hfinite =>
      have haccepted : s.promised? g (.request (.resumeAt id due)) = some ⟨due, id⟩ :=
        promised?_eq_some.mpr ⟨rfl, hnode, hfinite⟩
      rw [h] at haccepted
      cases haccepted
    next => rfl
  next => rfl

theorem Session.entries_of_kept {move : Move κ τ ρ}
    (hqueue : (s.moved g move).state.queue = s.state.queue)
    (hsettles : ∀ p, s.settles p move = false) :
    (s.moved g move).state.queue.entries =
      s.state.queue.entries.filter fun p => !s.settles p move := by
  rw [hqueue]
  simp [hsettles]

/-- Every other move takes out what it settles. -/
theorem Session.entries_of_not_promised (hq : s.state.queue.Orderly) {move : Move κ τ ρ}
    (h : s.promised? g move = none) :
    (s.moved g move).state.queue.entries =
      s.state.queue.entries.filter fun p => !s.settles p move := by
  have hswitch (id : NodeId) : (s.switchTo g id).state.queue = s.state.queue :=
    (lasting_queue g _).switchTo s id rfl
  cases move with
  | surround context clock random => exact entries_of_kept rfl fun _ => rfl
  | request operation =>
      cases operation with
      | tick =>
          rw [moved, queue_tick, hq.drainDue_eq]
          rfl
      | reset =>
          have hqueue := (congrArg State.queue (s.state_perform_reset g)).trans (hswitch entryNode)
          exact entries_of_kept hqueue fun _ => rfl
      | setActive id =>
          refine entries_of_kept ?_ fun _ => rfl
          simp only [moved, perform, provided]
          split
          · exact hswitch id
          · rfl
      | resumeAt id due => exact entries_of_kept (queue_of_refused h) fun _ => rfl
      | cancel id => simp [moved, perform, settles, change, ResumeQueue.cancel]
      | relax flag e =>
          refine entries_of_kept ?_ fun _ => rfl
          simp only [moved, perform, provided]
          split
          · cases flag <;> rfl
          · rfl

/-- The queue of a reachable session is in order. -/
theorem Session.Reachable.orderly (hs : s.Reachable g) : s.state.queue.Orderly := by
  induction hs with
  | start context clock random => exact ⟨nofun, .nil⟩
  | surroundings context clock random _ ih => exact ih
  | @perform s operation _ ih =>
      show (s.moved g (.request operation)).state.queue.Orderly
      cases hpromised : s.promised? g (.request operation) with
      | some p =>
          rw [queue_of_promised hpromised]
          exact ih.push (not_isNaN_of_isFinite (promised?_eq_some.mp hpromised).2.2) p.node
      | none =>
          have hkept := ih.filter fun p => !s.settles p (.request operation)
          rwa [← entries_of_not_promised ih hpromised] at hkept

end Queue

/-! ## The ledger of a run -/

def dueNodes (order : List (Nat × HandOff)) (now : Float) : List NodeId :=
  (order.filter fun e => e.2.due ≤ now).map fun e => e.2.node

theorem dueNodes_eq {order : List (Nat × HandOff)} {entries : List HandOff}
    (h : entries = order.map Prod.snd) (now : Float) :
    dueNodes order now = (entries.filter fun p => p.due ≤ now).map HandOff.node := by
  rw [h, List.filter_map, List.map_map]
  rfl

section Ledger

variable [Clock κ τ] [RandomSource ρ] {g : Graph κ} {s : Session κ τ ρ} {moves : List (Move κ τ ρ)}
  {k : Nat} {order : List (Nat × HandOff)}

/-- The outstanding hand-offs of a run with the positions of their requests, in order, are what is in
the queue. -/
structure Session.Ledger (g : Graph κ) (s : Session κ τ ρ) (moves : List (Move κ τ ρ)) (k : Nat)
    (order : List (Nat × HandOff)) : Prop where
  outstanding : ∀ i p, (i, p) ∈ order ↔ s.Outstanding g moves k i p
  sorted : order.Pairwise Precedes
  entries : (s.after g moves k).state.queue.entries = order.map Prod.snd

namespace Session.Ledger

theorem numbered (h : s.Ledger g moves k order) : (s.after g moves k).state.queue.Numbered order where
  entries := h.entries
  numbers e he := ((h.outstanding e.1 e.2).mp he).isNumber
  sorted := h.sorted

theorem orderly (h : s.Ledger g moves k order) : (s.after g moves k).state.queue.Orderly :=
  h.numbered.orderly

/-- An accepted request goes behind all that is due no later. -/
theorem promise (h : s.Ledger g moves k order) {move : Move κ τ ρ} (hmove : moves[k]? = some move)
    {p : HandOff} (hp : (s.after g moves k).promised? g move = some p) :
    s.Ledger g moves (k + 1)
      (order.filter (fun e => e.2.due ≤ p.due) ++
        (k, p) :: order.filter fun e => !decide (e.2.due ≤ p.due)) := by
  have hnumber := not_isNaN_of_isFinite (promised?_eq_some.mp hp).2.2
  have hpushed := h.numbered.push hnumber fun e he => ((h.outstanding e.1 e.2).mp he).earlier
  constructor
  · intro i q
    rw [outstanding_succ hmove, hp, settles_of_promised hp, ← h.outstanding]
    by_cases hdue : q.due ≤ p.due <;> simp [hdue, eq_comm, or_comm]
  · exact hpushed.sorted
  · rw [after_succ hmove, queue_of_promised hp]
    exact hpushed.entries

/-- Any other move strikes out what it settles. -/
theorem settle (h : s.Ledger g moves k order) {move : Move κ τ ρ} (hmove : moves[k]? = some move)
    (hnone : (s.after g moves k).promised? g move = none) :
    s.Ledger g moves (k + 1) (order.filter fun e => !(s.after g moves k).settles e.2 move) := by
  have hkept := h.numbered.filter fun p => !(s.after g moves k).settles p move
  constructor
  · intro i q
    rw [outstanding_succ hmove, hnone, ← h.outstanding, List.mem_filter]
    simp
  · exact hkept.sorted
  · rw [after_succ hmove, entries_of_not_promised h.orderly hnone]
    exact hkept.entries

end Session.Ledger

/-- At every point of a run the queue holds what is outstanding. -/
theorem Session.exists_ledger (context : κ) (clock : τ) (random : ρ) (k : Nat) :
    ∃ order, (Session.start g context clock random).Ledger g moves k order := by
  induction k with
  | zero => exact ⟨[], fun i p => ⟨nofun, fun h => nomatch h.earlier⟩, .nil, rfl⟩
  | succ k ih =>
      obtain ⟨order, h⟩ := ih
      cases hmove : moves[k]? with
      | none =>
          refine ⟨order, fun i p => ?_, h.sorted, ?_⟩
          · rw [outstanding_of_none hmove]
            exact h.outstanding i p
          · rw [after_of_none hmove]
            exact h.entries
      | some move =>
          cases hpromised : ((Session.start g context clock random).after g moves k).promised? g move with
          | none => exact ⟨_, h.settle hmove hpromised⟩
          | some p => exact ⟨_, h.promise hmove hpromised⟩

end Ledger

/-! ## The beginning of a tick -/

def switchReports : NodeId → List NodeId → List (Event κ)
  | _, [] => []
  | control, id :: ids =>
    if control = id then switchReports id ids
    else .reported (.activeChanged control id) :: switchReports id ids

section Tick

variable {g : Graph κ} {s : Session κ τ ρ}

theorem switchReports_cons (control id : NodeId) (ids : List NodeId) :
    (switchReports control (id :: ids) : List (Event κ)) =
      switchReports control [id] ++ switchReports id ids := by
  rw [switchReports, switchReports]
  split <;> rfl

theorem Session.journal_switchTo (id : NodeId) :
    (s.switchTo g id).journal.toList = s.journal.toList ++ switchReports s.state.control [id] := by
  rw [switchTo, switchReports]
  split
  next => exact (List.append_nil _).symm
  next => exact toList_record _ _

theorem Session.foldl_switchTo (ids : List NodeId) :
    (ids.foldl (fun s id => s.switchTo g id) s).journal.toList =
        s.journal.toList ++ switchReports s.state.control ids ∧
      (ids.foldl (fun s id => s.switchTo g id) s).state.control = ids.getLastD s.state.control := by
  induction ids generalizing s with
  | nil => exact ⟨(List.append_nil _).symm, rfl⟩
  | cons id ids ih =>
      obtain ⟨hjournal, hcontrol⟩ := ih (s := s.switchTo g id)
      rw [control_switchTo] at hjournal hcontrol
      rw [List.foldl_cons, List.getLastD_cons, switchReports_cons, ← List.append_assoc,
        ← s.journal_switchTo (g := g)]
      exact ⟨hjournal, hcontrol⟩

variable [Clock κ τ]

def Session.due (s : Session κ τ ρ) : List NodeId := (s.state.queue.drainDue s.reading).1

/-- The walk of a tick begins at the last of the due nodes, or where control was if none is due. -/
def Session.firstNode (s : Session κ τ ρ) : NodeId := s.due.getLastD s.state.control

theorem Session.handOver_spec (clock : τ) :
    (Session.handOver g s.reading { s.change State.sweep with clock }).journal.toList =
        s.journal.toList ++ switchReports s.state.control s.due ∧
      (Session.handOver g s.reading { s.change State.sweep with clock }).state.control = s.firstNode :=
  foldl_switchTo s.due

theorem Session.control_walkStart : (s.walkStart g).state.control = s.firstNode :=
  (s.handOver_spec _).2

theorem Session.journal_walkStart :
    (s.walkStart g).journal.toList =
      s.journal.toList ++
        (switchReports s.state.control s.due ++ [.reported (.tickStarted s.firstNode)]) := by
  have hspec := s.handOver_spec (g := g) (Clock.read s.context s.clock).2
  rw [← List.append_assoc, ← hspec.1, ← hspec.2]
  exact toList_record _ _

variable [RandomSource ρ]

/-- A node that is not visited yet is entered first of all when it is ticked. -/
theorem Walk.leads_visit_entered {id : NodeId} {n : Node κ} (hn : g.node? id = some n) (budget : Nat)
    (hunvisited : s.state.has .visited (.node id) = false) :
    (Walk.visit g (budget + 1) id).Leads s
      (fun _ s' => s'.Adds s.journal.toList fun events => events.head? = some (.entered id))
      (fun s' => s'.Adds s.journal.toList fun events => events.head? = some (.entered id)) := by
  have hbegun : Stable (τ := τ) (ρ := ρ) g fun s' =>
      s'.Adds s.journal.toList fun events => events.head? = some (.entered id) :=
    Session.Adds.stable g fun e events hevents => by simp [List.head?_append, hevents]
  have henter : (Walk.enter g id n).Leads (s.change fun a => { a with depth := a.depth + 1 })
      (fun goes s' => if goes
        then s'.Adds s.journal.toList fun events => events.head? = some (.entered id)
        else s'.Adds s.journal.toList fun events => events.head? = some (.entered id))
      fun s' => s'.Adds s.journal.toList fun events => events.head? = some (.entered id) := by
    refine Walk.leads_enter_until (P := fun s' => s'.state.has .visited (.node id) = false ∧
        s'.Adds s.journal.toList fun events => events = []) hbegun.toDetached hbegun.toDetached
      (fun _ _ _ => trivial) (fun s' hs _ => ?_) (fun s' hs => hbegun.mark s' _ hs)
      (fun _ s' hs => hbegun.claim s' id hs) (fun s' hs hvisited => ?_) (fun s' hs => hs.elim (·) (·))
      ⟨hunvisited, .nil rfl⟩
    · exact hs.2.record _ fun events hevents => by rw [hevents]; rfl
    · rw [hs.1] at hvisited
      cases hvisited
  unfold Walk.visit
  rw [leads_bind, leads_change]
  simp only [hn]
  rw [leads_bind]
  refine (hbegun.robust.leads_runNode (fun t => hbegun.keeps_tickTransition (hbegun.keeps_visit budget) t)
    (henter.imp (fun goes s' hs => by cases goes <;> exact hs) fun _ hb => hb)).imp
      (fun _ s' hs => hbegun.setDepth s' (fun a => a.depth - 1) hs) fun _ hb => hb

/-- In a built graph the node at which the walk of a tick begins is entered first of all. -/
theorem Session.Reachable.leads_visit_firstNode (hg : g.Built) (hs : s.Reachable g) :
    (Walk.visit g g.config.maxTickDepth s.firstNode).Leads (s.walkStart g)
      (fun _ s' => s'.Adds (s.walkStart g).journal.toList
        fun events => events.head? = some (.entered s.firstNode))
      (fun s' => s'.Adds (s.walkStart g).journal.toList
        fun events => events.head? = some (.entered s.firstNode)) := by
  obtain ⟨budget, hbudget⟩ := Nat.exists_eq_succ_of_ne_zero (Nat.ne_of_gt hg.maxTickDepth_pos)
  have hnode : g.hasNode s.firstNode = true := by
    rw [← (s.handOver_spec (g := g) s.clock).2]
    exact ((hs.within hg).sweep.handOver s.reading).control
  obtain ⟨n, hn⟩ := Graph.hasNode_iff.mp hnode
  have hunvisited : (s.walkStart g).state.has .visited (.node s.firstNode) = false := by
    rw [Bool.eq_false_iff]
    intro hup
    have hswept := hs.recorded.unvisited_sweep (.node s.firstNode)
    rw [Session.has_of_has_walkStart hup] at hswept
    cases hswept
  rw [hbudget]
  exact Walk.leads_visit_entered hn budget hunvisited

/-- Before its walk a tick switches to the due nodes in turn, and the walk begins at the last of them;
so it does also if it is broken off. -/
theorem Session.Reachable.since_tick (hs : s.Reachable g) :
    ∃ rest, (s.perform g .tick).2.since s =
        switchReports s.state.control s.due ++ .reported (.tickStarted s.firstNode) :: rest ∧
      (g.Built → rest.head? = some (.entered s.firstNode)) := by
  let Begun (events : List (Event κ)) : Prop := g.Built → events.head? = some (.entered s.firstNode)
  have hbegun : Stable (τ := τ) (ρ := ρ) g fun s' =>
      s'.Adds (s.walkStart g).journal.toList Begun :=
    Session.Adds.stable g fun e events hevents hg => by simp [List.head?_append, hevents hg]
  have hvisit : (Walk.visit g g.config.maxTickDepth s.firstNode).Leads (s.walkStart g)
      (fun _ s' => s'.Adds (s.walkStart g).journal.toList Begun)
      (fun s' => s'.Adds (s.walkStart g).journal.toList Begun) := by
    by_cases hg : g.Built
    · exact (hs.leads_visit_firstNode hg).imp (fun _ _ hs => hs.imp fun _ hevents _ => hevents)
        fun _ hs => hs.imp fun _ hevents _ => hevents
    · exact hbegun.keeps_visit _ _ _ (.nil fun hbuilt => (hg hbuilt).elim)
  have htick : (Walk.tick g).Leads s (fun _ s' => s'.Adds (s.walkStart g).journal.toList Begun)
      (fun s' => s'.Adds (s.walkStart g).journal.toList Begun) := by
    rw [Walk.leads_tick, Session.control_walkStart]
    exact hvisit.imp (fun _ s' hs => hbegun.report _ _ (hbegun.sweep s' hs)) fun _ hs => hs
  obtain ⟨rest, hjournal, hhead⟩ := htick.run
  refine ⟨rest, Session.since_eq ?_, hhead⟩
  exact hjournal.trans (by simp [Session.journal_walkStart])

end Tick

/-! ## Runs of hand-offs -/

/-- At every point of a run the queue holds the outstanding hand-offs, in order of time and at equal
times in the order of the requests.  A tick gives control to the nodes of those that are due, one after
the other, and begins its walk at the last, or where control is if none is due. -/
theorem hand_offs_delivered [Clock κ τ] [RandomSource ρ] (g : Graph κ) (context : κ) (clock : τ)
    (random : ρ) (moves : List (Move κ τ ρ)) (k : Nat) :
    let start := Session.start g context clock random
    let s := start.after g moves k
    ∃ order : List (Nat × HandOff),
      (∀ i p, (i, p) ∈ order ↔ start.Outstanding g moves k i p) ∧ order.Pairwise Precedes ∧
        s.state.queue.entries = order.map Prod.snd ∧
        (moves[k]? = some (.request .tick) →
          let due := dueNodes order s.reading
          let first := due.getLastD s.state.control
          ∃ rest, (start.after g moves (k + 1)).since s =
              switchReports s.state.control due ++ .reported (.tickStarted first) :: rest ∧
            (g.Built → rest.head? = some (.entered first))) := by
  intro start s
  obtain ⟨order, h⟩ : ∃ order, start.Ledger g moves k order :=
    Session.exists_ledger context clock random k
  refine ⟨order, h.outstanding, h.sorted, h.entries, fun hmove => ?_⟩
  have hdue : s.due = dueNodes order s.reading := by
    rw [Session.due, h.orderly.drainDue_eq, dueNodes_eq h.entries]
  have hreach : s.Reachable g := (Session.Reachable.start context clock random).after k
  obtain ⟨rest, hsince, hentered⟩ := hreach.since_tick
  rw [Session.after_succ hmove]
  rw [Session.firstNode, hdue] at hsince hentered
  exact ⟨rest, hsince, hentered⟩

/-- The entry and three actions, of which the last breaks off whatever tick it is called in. -/
def alarmGraph : Graph Unit :=
  .ofSteps [.add "rise" (.action (.noArgs (pure (.ok ())))) [],
    .add "leave" (.action (.noArgs (pure (.ok ())))) [],
    .add "snooze" (.action (.noArgs fun u => .error "broken" u)) []]

/-- Two hand-offs at one time, another before them and one that is cancelled. -/
def alarmMoves : List (Move Unit ManualClock Xoshiro) :=
  [.request (.resumeAt ⟨1⟩ 2.0), .request (.resumeAt ⟨2⟩ 2.0), .request (.resumeAt ⟨3⟩ 1.0),
    .request .tick, .surround () (ManualClock.mk 1.5) (Xoshiro.ofSeed 0), .request .tick,
    .request (.resumeAt ⟨3⟩ 2.0), .request (.cancel ⟨3⟩),
    .surround () (ManualClock.mk 2.0) (Xoshiro.ofSeed 0), .request .tick]

def alarmStart : Session Unit ManualClock Xoshiro :=
  .start alarmGraph () (ManualClock.mk 0.0) (Xoshiro.ofSeed 0)

def alarmSet : Session Unit ManualClock Xoshiro := alarmStart.after alarmGraph alarmMoves 9

theorem alarm_delivers_in_order :
    (alarmStart.play alarmGraph alarmMoves).1.map Response.isDone =
        [true, true, true, true, false, true, false, true] ∧
      ∃ rest, (alarmStart.after alarmGraph alarmMoves 10).since alarmSet =
        [.reported (.activeChanged ⟨3⟩ ⟨1⟩), .reported (.activeChanged ⟨1⟩ ⟨2⟩),
          .reported (.tickStarted ⟨2⟩)] ++ rest := by
  obtain ⟨order, _, _, hentries, htick⟩ := hand_offs_delivered alarmGraph () (ManualClock.mk 0.0)
    (Xoshiro.ofSeed 0) alarmMoves 9
  obtain ⟨rest, hsince, _⟩ := htick rfl
  have hcontrol : alarmSet.state.control = ⟨3⟩ := by decide +kernel
  have hdue : dueNodes order alarmSet.reading = [⟨1⟩, ⟨2⟩] := by
    rw [dueNodes_eq hentries]
    decide +kernel
  have hdelivered : switchReports alarmSet.state.control (dueNodes order alarmSet.reading) ++
      .reported (.tickStarted ((dueNodes order alarmSet.reading).getLastD alarmSet.state.control)) :: rest =
        [.reported (.activeChanged ⟨3⟩ ⟨1⟩), .reported (.activeChanged ⟨1⟩ ⟨2⟩),
          .reported (.tickStarted ⟨2⟩)] ++ rest := by
    rw [hdue, hcontrol]
    rfl
  exact ⟨by decide +kernel, rest, hsince.trans hdelivered⟩

end BehaviourGraph
