import BehaviourGraph.Proofs.Reachable

/-!
# Histories

A request only adds to the journal.  What it has added is a history, and a property of a run is a
property of its history.  A choice of a node is pending from where it is made until the node is
left; nodes are left in the reverse order of their choices, so the pending choices of a node form a
stack.
-/

namespace BehaviourGraph

variable {κ τ ρ : Type}

/-! ## What a request adds -/

/-- What all events of a history have and the next one has, all events have after it. -/
theorem forall_mem_snoc {α : Type} {P : α → Prop} {events : List α} {event : α}
    (h : ∀ e ∈ events, P e) (hevent : P event) : ∀ e ∈ events ++ [event], P e :=
  List.forall_mem_append.mpr ⟨h, List.forall_mem_singleton.mpr hevent⟩

def Session.since (s earlier : Session κ τ ρ) : List (Event κ) :=
  s.journal.toList.drop earlier.journal.size

theorem Session.since_eq {s earlier : Session κ τ ρ} {events : List (Event κ)}
    (h : s.journal.toList = earlier.journal.toList ++ events) : s.since earlier = events := by
  rw [since, h, ← Array.length_toList, List.drop_left]

@[simp] theorem Session.toList_record (s : Session κ τ ρ) (e : Event κ) :
    (s.record e).journal.toList = s.journal.toList ++ [e] :=
  Array.toList_push

/-- What the journal has gained since an origin has a property. -/
def Session.Adds (s : Session κ τ ρ) (origin : List (Event κ)) (P : List (Event κ) → Prop) : Prop :=
  ∃ events, s.journal.toList = origin ++ events ∧ P events

namespace Session.Adds

variable {s : Session κ τ ρ} {origin : List (Event κ)} {P Q : List (Event κ) → Prop}

theorem nil (h : P []) : s.Adds s.journal.toList P := ⟨[], (List.append_nil _).symm, h⟩

theorem imp (h : s.Adds origin P) (hPQ : ∀ events, P events → Q events) : s.Adds origin Q := by
  obtain ⟨events, hjournal, hevents⟩ := h
  exact ⟨events, hjournal, hPQ events hevents⟩

theorem since {earlier : Session κ τ ρ} (h : s.Adds earlier.journal.toList P) : P (s.since earlier) := by
  obtain ⟨events, hjournal, hevents⟩ := h
  rwa [since_eq hjournal]

theorem record (h : s.Adds origin P) (e : Event κ) (he : ∀ events, P events → Q (events ++ [e])) :
    (s.record e).Adds origin Q := by
  obtain ⟨events, hjournal, hevents⟩ := h
  exact ⟨events ++ [e], by rw [toList_record, hjournal, List.append_assoc], he events hevents⟩

/-- Flags and control do not matter for what was added. -/
theorem loose (g : Graph κ) (noise : Event κ → Prop)
    (hchanged : ∀ previous id, noise (.reported (.activeChanged previous id)))
    (hsnoc : ∀ e events, noise e → P events → P (events ++ [e])) :
    Loose (τ := τ) (ρ := ρ) g (fun s => s.Adds origin P) noise where
  surroundings _ _ _ _ hs := hs
  record _ e he hs := hs.record e fun events => hsnoc e events he
  setStatus _ _ _ hs := hs
  changed := hchanged
  mark _ _ hs := hs
  relax _ _ _ hs := hs
  setControl _ _ hs := hs

theorem loose_of_reports (hreport : ∀ r events, P events → P (events ++ [.reported r])) (g : Graph κ) :
    Loose (τ := τ) (ρ := ρ) g (fun s => s.Adds origin P) fun e => ∃ r, e = .reported r :=
  loose g _ (fun _ _ => ⟨_, rfl⟩) fun _ events ⟨r, he⟩ hevents => he ▸ hreport r events hevents

/-- Switches of control only add reports. -/
theorem switchTo (h : s.Adds origin P)
    (hreport : ∀ r events, P events → P (events ++ [.reported r])) (g : Graph κ) (id : NodeId) :
    (s.switchTo g id).Adds origin P :=
  (loose_of_reports hreport g).switchTo s id h

theorem walkStart [Clock κ τ] (h : s.Adds origin P)
    (hreport : ∀ r events, P events → P (events ++ [.reported r])) (g : Graph κ) :
    (s.walkStart g).Adds origin P :=
  (loose_of_reports hreport g).walkStart (fun _ _ hs => hs) (fun _ => ⟨_, rfl⟩) (fun _ hs => hs)
    (fun _ hs => hs) h

/-- What no further event can end. -/
theorem stable (g : Graph κ) (hsnoc : ∀ e events, P events → P (events ++ [e])) :
    Stable (τ := τ) (ρ := ρ) g fun s => s.Adds origin P :=
  { loose g (fun _ => True) (fun _ _ => trivial) fun e events _ => hsnoc e events with
    setFiring := fun _ _ _ hs => hs
    setDepth := fun _ _ hs => hs
    sweep := fun _ hs => hs
    setQueue := fun _ _ hs => hs }

/-- What the walk of a tick adds, it adds together with reports. -/
theorem since_tick [Clock κ τ] [RandomSource ρ] {g : Graph κ} {s s' : Session κ τ ρ}
    (hreport : ∀ r events, P events → P (events ++ [.reported r]))
    (hwalk : (Walk.visit g g.config.maxTickDepth (s.walkStart g).state.control).Leads (s.walkStart g)
      (fun _ s' => s'.Adds s.journal.toList P) fun _ => True)
    (htick : s.perform g .tick = (.done, s')) : P (s'.since s) := by
  have hended : (Walk.tick g).Leads s (fun _ s' => s'.Adds s.journal.toList P) fun _ => True := by
    rw [Walk.leads_tick]
    exact hwalk.imp (fun _ s hs => record (s := s.change State.sweep) hs _ (hreport _)) fun _ hb => hb
  exact since (hended.ends_of_run htick)

end Session.Adds

theorem Session.journal_perform [Clock κ τ] [RandomSource ρ] (g : Graph κ) (operation : Operation)
    (s : Session κ τ ρ) :
    (s.perform g operation).2.journal.toList =
      s.journal.toList ++ (s.perform g operation).2.since s := by
  have hgrows : (s.perform g operation).2.Adds s.journal.toList fun _ => True :=
    (Adds.stable g fun _ _ _ => trivial).perform operation (.nil trivial)
  obtain ⟨events, hevents, _⟩ := hgrows
  rw [since_eq hevents, hevents]

/-! ## Choices -/

def Event.choice? (id : NodeId) : Event κ → Option (Option Port)
  | .chose node port => if node = id then some port else none
  | _ => none

def choices (id : NodeId) (events : List (Event κ)) : List (Option Port) :=
  events.filterMap (Event.choice? id)

/-- The pending choices of a node after an event, latest first. -/
def pendingAfter (id : NodeId) (stack : List (Option Port)) : Event κ → List (Option Port)
  | .chose node port => if node = id then port :: stack else stack
  | .left node => if node = id then stack.tail else stack
  | _ => stack

def pending (id : NodeId) (events : List (Event κ)) : List (Option Port) :=
  events.foldl (pendingAfter id) []

def Event.Brackets (id : NodeId) : Event κ → Prop
  | .chose node _ => node = id
  | .left node => node = id
  | _ => False

section Choices

variable {id : NodeId} {events : List (Event κ)} {e : Event κ}

theorem choices_snoc : choices id (events ++ [e]) = choices id events ++ (e.choice? id).toList := by
  simp only [choices, List.filterMap_append, List.filterMap_cons, List.filterMap_nil]
  cases e.choice? id <;> rfl

theorem pending_snoc : pending id (events ++ [e]) = pendingAfter id (pending id events) e := by
  simp only [pending, List.foldl_append, List.foldl_cons, List.foldl_nil]

theorem pendingAfter_of_not_brackets (h : ¬e.Brackets id) (stack : List (Option Port)) :
    pendingAfter id stack e = stack := by
  cases e <;> simp_all [pendingAfter, Event.Brackets]

theorem choice?_of_not_brackets (h : ¬e.Brackets id) : e.choice? id = none := by
  cases e <;> simp_all [Event.choice?, Event.Brackets]

theorem eq_chose_of_choice? {choice : Option Port} (h : e.choice? id = some choice) :
    e = .chose id choice := by
  cases e with
  | chose node port =>
      simp only [Event.choice?, Option.ite_none_right_eq_some, Option.some.injEq] at h
      rw [h.1, h.2]
  | _ => cases h

/-- A history splits at the latest choice of a node. -/
theorem exists_latest_choice {choice : Option Port} (h : (choices id events).getLast? = some choice) :
    ∃ earlier later, events = earlier ++ .chose id choice :: later ∧ choices id later = [] := by
  obtain ⟨front, hfront⟩ := List.getLast?_eq_some_iff.mp h
  obtain ⟨before, rest, rfl, _, hrest⟩ := List.filterMap_eq_append_iff.mp hfront
  obtain ⟨between, e, later, rfl, _, hchoice, hlater⟩ := List.filterMap_eq_cons_iff.mp hrest
  obtain rfl := eq_chose_of_choice? hchoice
  exact ⟨before ++ between, later, (List.append_assoc _ _ _).symm, hlater⟩

/-- Without new choices the pending ones only get fewer. -/
theorem foldl_pendingAfter_suffix (h : choices id events = []) (stack : List (Option Port)) :
    events.foldl (pendingAfter id) stack <:+ stack := by
  induction events generalizing stack with
  | nil => exact List.suffix_refl stack
  | cons e events ih =>
      obtain ⟨hnone, hrest⟩ : e.choice? id = none ∧ choices id events = [] := by
        cases he : e.choice? id <;> simp_all [choices]
      refine (ih hrest (pendingAfter id stack e)).trans ?_
      cases e with
      | chose node port =>
          have hnode : node ≠ id := by simpa [Event.choice?] using hnone
          simp [pendingAfter, hnode]
      | left node =>
          simp only [pendingAfter]
          split
          · exact List.tail_suffix stack
          · exact List.suffix_refl stack
      | _ => exact List.suffix_refl stack

/-- A pending choice is the latest one or was pending before it. -/
theorem mem_pending_of_no_choice {earlier later : List (Event κ)} {choice choice' : Option Port}
    (hlater : choices id later = [])
    (h : choice' ∈ pending id (earlier ++ .chose id choice :: later)) (hne : choice ≠ choice') :
    choice' ∈ pending id earlier := by
  have hsuffix := foldl_pendingAfter_suffix hlater (choice :: pending id earlier)
  have hmem : choice' ∈ choice :: pending id earlier := by
    refine hsuffix.subset ?_
    simpa [pending, pendingAfter] using h
  exact (List.mem_cons.mp hmem).resolve_left (Ne.symm hne)

/-- An event at the end of a history is one that was marked in it or comes later. -/
theorem snoc_eq_append_cons {α : Type} {as earlier later : List α} {a b : α}
    (h : as ++ [a] = earlier ++ b :: later) :
    (as = earlier ∧ a = b ∧ later = []) ∨ ∃ rest, later = rest ++ [a] ∧ as = earlier ++ b :: rest := by
  rcases List.eq_nil_or_concat later with rfl | ⟨rest, c, rfl⟩
  · obtain ⟨hfront, hlast⟩ := List.append_inj' h rfl
    exact .inl ⟨hfront, List.head_eq_of_cons_eq hlast, rfl⟩
  · rw [List.concat_eq_append, ← List.cons_append, ← List.append_assoc] at h
    obtain ⟨hfront, hlast⟩ := List.append_inj' h rfl
    obtain rfl := List.head_eq_of_cons_eq hlast
    exact .inr ⟨rest, List.concat_eq_append, hfront⟩

end Choices

end BehaviourGraph
