import Mathlib.Logic.Basic
import BehaviourGraph.Proofs.Building

/-!
# Wiring of built graphs

What building steps establish and never give up: the entry is the first node and the only one of its
kind, every transition leads from a port that its start has to a node of the graph, and the lists that the
nodes keep hold just the transitions that leave there.
-/

namespace BehaviourGraph

variable {κ : Type}

/-- A graph that building steps give.  Hosts never ask for an entry node, there is one from the
start. -/
def Graph.Built (g : Graph κ) : Prop :=
  ∃ (config : Config) (onReset : Option (Hook κ)) (steps : List (BuildStep κ)),
    (∀ step ∈ steps, step.addsEntry = false) ∧
      (({ config, onReset } : Builder κ).takeAll steps).2.build = .ok g

/-! ## Arrays -/

theorem getElem?_push_of_some {α : Type} {xs : Array α} {i : Nat} {a : α} (h : xs[i]? = some a)
    (x : α) : (xs.push x)[i]? = some a := by
  obtain ⟨hi, ha⟩ := Array.getElem?_eq_some_iff.mp h
  rw [Array.getElem?_push_lt hi, ha]

theorem eq_or_of_getElem?_push {α : Type} {xs : Array α} {i : Nat} {a x : α}
    (h : (xs.push x)[i]? = some a) : xs[i]? = some a ∨ i = xs.size ∧ a = x := by
  rw [Array.getElem?_push] at h
  split at h
  next hi => exact Or.inr ⟨hi, (Option.some.inj h).symm⟩
  next => exact Or.inl h

theorem transitionsWhere_push (transitions : Array (Transition κ)) (tr : Transition κ)
    (test : Transition κ → Bool) :
    transitionsWhere (transitions.push tr) test =
      transitionsWhere transitions test ++ if test tr then [⟨transitions.size⟩] else [] := by
  have hold (i : Nat) (hi : i ∈ List.range transitions.size) :
      ((transitions.push tr)[i]?).any test = (transitions[i]?).any test := by
    have hne : i ≠ transitions.size := Nat.ne_of_lt (List.mem_range.mp hi)
    rw [Array.getElem?_push, if_neg hne]
  unfold transitionsWhere
  rw [Array.size_push, List.range_succ, List.filter_append, List.filter_congr hold, List.map_append]
  congr 1
  by_cases htest : test tr = true <;> simp [htest]

/-! ## Ends of transitions -/

structure Wired (nodes : Array (Node κ)) (transitions : Array (Transition κ)) : Prop where
  entry : ∃ n, nodes[0]? = some n ∧ n.kind = .entry
  kind_entry : ∀ (i : Nat) (n : Node κ), nodes[i]? = some n → n.kind = .entry → i = 0
  start : ∀ (i : Nat) (t : Transition κ), transitions[i]? = some t →
    ∃ n, nodes[t.start.index]? = some n ∧ n.behaviour.hasPort t.port = true
  finish : ∀ (i : Nat) (t : Transition κ), transitions[i]? = some t → t.finish.index < nodes.size

namespace Wired

variable {nodes : Array (Node κ)} {transitions : Array (Transition κ)}

theorem initial : Wired #[(Node.entry : Node κ)] #[] where
  entry := ⟨.entry, rfl, rfl⟩
  kind_entry i n hn _ := by
    cases i with
    | zero => rfl
    | succ i => simp at hn
  start i t ht := by simp at ht
  finish i t ht := by simp at ht

theorem push_node (h : Wired nodes transitions) {n : Node κ} (hn : n.kind ≠ .entry) :
    Wired (nodes.push n) transitions where
  entry := by
    obtain ⟨m, hm, hkind⟩ := h.entry
    exact ⟨m, getElem?_push_of_some hm n, hkind⟩
  kind_entry i m hm hkind := by
    rcases eq_or_of_getElem?_push hm with hm | ⟨_, rfl⟩
    · exact h.kind_entry i m hm hkind
    · exact (hn hkind).elim
  start i t ht := by
    obtain ⟨m, hm, hport⟩ := h.start i t ht
    exact ⟨m, getElem?_push_of_some hm n, hport⟩
  finish i t ht := by
    rw [Array.size_push]
    exact Nat.lt_succ_of_lt (h.finish i t ht)

/-- A node may be changed to one of its kind that has all its ports. -/
theorem modify_node (h : Wired nodes transitions) {i : Nat} {f : Node κ → Node κ}
    (hkind : ∀ n, nodes[i]? = some n → (f n).kind = n.kind)
    (hports : ∀ n, nodes[i]? = some n → ∀ port, n.behaviour.hasPort port = true →
      (f n).behaviour.hasPort port = true) : Wired (nodes.modify i f) transitions := by
  have hmodify (j : Nat) : (nodes.modify i f)[j]? = if i = j then nodes[j]?.map f else nodes[j]? :=
    Array.getElem?_modify
  have hstays (j : Nat) (m : Node κ) (hm : nodes[j]? = some m) :
      ∃ m', (nodes.modify i f)[j]? = some m' ∧ m'.kind = m.kind ∧
        ∀ port, m.behaviour.hasPort port = true → m'.behaviour.hasPort port = true := by
    rw [hmodify, hm]
    split
    next hij =>
      subst hij
      exact ⟨f m, rfl, hkind m hm, hports m hm⟩
    next => exact ⟨m, rfl, rfl, fun _ hp => hp⟩
  refine ⟨?_, fun j m hm hentry => ?_, fun j t ht => ?_, fun j t ht => ?_⟩
  · obtain ⟨m, hm, hentry⟩ := h.entry
    obtain ⟨m', hm', hsame, _⟩ := hstays 0 m hm
    exact ⟨m', hm', hsame.trans hentry⟩
  · rw [hmodify] at hm
    split at hm
    next hij =>
      subst hij
      obtain ⟨n, hn, rfl⟩ := Option.map_eq_some_iff.mp hm
      exact h.kind_entry i n hn ((hkind n hn).symm.trans hentry)
    next => exact h.kind_entry j m hm hentry
  · obtain ⟨m, hm, hhas⟩ := h.start j t ht
    obtain ⟨m', hm', _, hports'⟩ := hstays _ m hm
    exact ⟨m', hm', hports' _ hhas⟩
  · rw [Array.size_modify]
    exact h.finish j t ht

theorem push_transition (h : Wired nodes transitions) {t : Transition κ}
    (hstart : ∃ n, nodes[t.start.index]? = some n ∧ n.behaviour.hasPort t.port = true)
    (hfinish : t.finish.index < nodes.size) : Wired nodes (transitions.push t) where
  entry := h.entry
  kind_entry := h.kind_entry
  start i u hu := by
    rcases eq_or_of_getElem?_push hu with hu | ⟨_, rfl⟩
    · exact h.start i u hu
    · exact hstart
  finish i u hu := by
    rcases eq_or_of_getElem?_push hu with hu | ⟨_, rfl⟩
    · exact h.finish i u hu
    · exact hfinish

end Wired

/-! ## Lists of nodes -/

section Lists

variable {nodes : Array (Node κ)} {list : Node κ → List TransitionId}

def listAt (nodes : Array (Node κ)) (list : Node κ → List TransitionId) (id : NodeId) :
    List TransitionId := nodes[id.index]?.elim [] list

theorem listAt_push (nodes : Array (Node κ)) {n : Node κ} (hn : list n = []) (id : NodeId) :
    listAt (nodes.push n) list id = listAt nodes list id := by
  unfold listAt
  rw [Array.getElem?_push]
  split
  next hid => rw [hid, Array.getElem?_size]; exact hn
  next => rfl

theorem listAt_modify {target : NodeId} {f : Node κ → Node κ} {pushed : List TransitionId}
    (hf : ∀ n, nodes[target.index]? = some n → list (f n) = list n ++ pushed)
    (hpresent : target.index < nodes.size ∨ pushed = []) (id : NodeId) :
    listAt (nodes.modify target.index f) list id =
      listAt nodes list id ++ if target = id then pushed else [] := by
  unfold listAt
  rw [Array.getElem?_modify]
  by_cases hid : target = id
  · subst hid
    rw [if_pos rfl, if_pos rfl]
    cases hn : nodes[target.index]? with
    | none =>
        rcases hpresent with hlt | rfl
        · exact absurd (Array.getElem?_eq_none_iff.mp hn) (Nat.not_le.mpr hlt)
        · rfl
    | some n => exact hf n hn
  · rw [if_neg fun heq => hid (congrArg NodeId.mk heq), if_neg hid, List.append_nil]

end Lists

namespace Builder

variable {b b' : Builder κ} {step : BuildStep κ} {addition : Addition}

/-! ## Steps -/

theorem Carried.wired (h : Carried b step addition b') (hentry : step.addsEntry = false)
    (hb : Wired b.nodes b.transitions) : Wired b'.nodes b'.transitions := by
  cases h with
  | added n hplace hlabel hkind houtgoing hexits =>
      exact hb.push_node (of_decide_eq_false (hkind.symm.trans hentry))
  | amended addition id f hplace hlabel hamends =>
      exact hb.modify_node (fun n hn => (hamends n hn).kind) fun n hn => (hamends n hn).ports
  | connected t hplace hlabel hsuitable hstart hfinish =>
      rw [nodes_enrol]
      exact (hb.push_transition hstart hfinish).modify_node (fun _ _ => rfl) fun _ _ _ hport => hport

theorem listAt_enrol {list : Node κ → List TransitionId} {pushed : List TransitionId}
    {t : Transition κ} {t' : TransitionId} (hstart : t.start.index < b.nodes.size)
    (hlist : ∀ n : Node κ,
      list { n with outgoing := n.outgoing ++ [t'], exits := n.exits.enter t.port t' } =
        list n ++ pushed) (id : NodeId) :
    listAt (b.enrol t' t).nodes list id =
      listAt b.nodes list id ++ if t.start = id then pushed else [] := by
  rw [nodes_enrol]
  exact listAt_modify (fun n _ => hlist n) (.inl hstart) id

/-- A connection enters a transition in the lists of its start just as in the array of all. -/
theorem consistent_enrol (hb : b.graph.Consistent) {t : Transition κ}
    (hstart : t.start.index < b.nodes.size) : (b.enrol ⟨b.transitions.size⟩ t).graph.Consistent where
  outgoing id := by
    have hbefore : listAt b.nodes Node.outgoing id =
        transitionsWhere b.transitions fun u => u.start = id := hb.outgoing id
    refine (listAt_enrol hstart (fun n => rfl) id).trans ?_
    rw [hbefore]
    refine Eq.trans ?_ (transitionsWhere_push b.transitions t _).symm
    simp only [decide_eq_true_eq]
  exits id port := by
    have hbefore : listAt b.nodes (fun n => n.exits.find port) id =
        transitionsWhere b.transitions fun u => u.start = id && u.port = port := hb.exits id port
    refine (listAt_enrol hstart (fun n => n.exits.find_enter port t.port _) id).trans ?_
    rw [hbefore]
    refine Eq.trans ?_ (transitionsWhere_push b.transitions t _).symm
    simp only [Bool.and_eq_true, decide_eq_true_eq, ite_and]

theorem Carried.consistent (h : Carried b step addition b') (hb : b.graph.Consistent) :
    b'.graph.Consistent := by
  cases h with
  | added n hplace hlabel hkind houtgoing hexits =>
      exact ⟨fun id => (listAt_push _ houtgoing id).trans (hb.outgoing id),
        fun id port => (listAt_push _ (by rw [hexits]; rfl) id).trans (hb.exits id port)⟩
  | amended addition target f hplace hlabel hamends =>
      have hsame {list : Node κ → List TransitionId}
          (hlist : ∀ n, b.nodes[target.index]? = some n → list (f n) = list n) (id : NodeId) :
          listAt (b.modifyNode target f).nodes list id = listAt b.nodes list id := by
        refine (listAt_modify (fun n hn => ?_) (.inr rfl) id).trans ?_
        · rw [hlist n hn, List.append_nil]
        · rw [ite_self, List.append_nil]
      refine ⟨fun id => (hsame (fun n hn => (hamends n hn).outgoing) id).trans (hb.outgoing id),
        fun id port => (hsame (fun n hn => ?_) id).trans (hb.exits id port)⟩
      rw [(hamends n hn).exits]
  | connected t hplace hlabel hsuitable hstart hfinish =>
      obtain ⟨n, hn, _⟩ := hstart
      exact consistent_enrol hb (Array.getElem?_eq_some_iff.mp hn).1

theorem wired_takeAll {steps : List (BuildStep κ)} (hb : Wired b.nodes b.transitions)
    (hentry : ∀ step ∈ steps, step.addsEntry = false) :
    Wired (b.takeAll steps).2.nodes (b.takeAll steps).2.transitions :=
  takeAll_induction (P := fun b => Wired b.nodes b.transitions)
    (fun step hstep _ _ _ hcarried => hcarried.wired (hentry step hstep)) hb

theorem consistent_takeAll {steps : List (BuildStep κ)} (hb : b.graph.Consistent) :
    (b.takeAll steps).2.graph.Consistent :=
  takeAll_induction (P := fun b => b.graph.Consistent)
    (fun _ _ _ _ _ hcarried => hcarried.consistent) hb

/-- The entry node starts without transitions. -/
theorem consistent_initial (config : Config) (onReset : Option (Hook κ)) :
    ({ config, onReset } : Builder κ).graph.Consistent where
  outgoing id := listAt_push #[] (by rfl) id
  exits id port := listAt_push #[] (by rfl) id

theorem build_eq_ok {g : Graph κ} (h : b.build = .ok g) : 1 ≤ b.config.maxTickDepth ∧ g = b.graph := by
  unfold build Config.validate at h
  by_cases hdepth : b.config.maxTickDepth = 0
  · rw [if_pos hdepth] at h
    cases h
  · rw [if_neg hdepth] at h
    refine ⟨Nat.pos_of_ne_zero hdepth, ?_⟩
    cases hempty : nodesWhere b.nodes isEmptyUtility with
    | nil =>
        rw [hempty] at h
        cases h
        rfl
    | cons id ids =>
        rw [hempty] at h
        cases h

end Builder

/-! ## Built graphs -/

namespace Graph.Built

variable {g : Graph κ}

theorem wired (h : g.Built) : Wired g.nodes g.transitions := by
  obtain ⟨config, onReset, steps, hentry, hbuild⟩ := h
  rw [(Builder.build_eq_ok hbuild).2]
  exact Builder.wired_takeAll Wired.initial hentry

/-- The lists that the nodes of a built graph keep agree with its transitions. -/
theorem consistent (h : g.Built) : g.Consistent := by
  obtain ⟨config, onReset, steps, _, hbuild⟩ := h
  rw [(Builder.build_eq_ok hbuild).2]
  exact Builder.consistent_takeAll (Builder.consistent_initial config onReset)

theorem maxTickDepth_pos (h : g.Built) : 0 < g.config.maxTickDepth := by
  obtain ⟨config, onReset, steps, _, hbuild⟩ := h
  obtain ⟨hdepth, rfl⟩ := Builder.build_eq_ok hbuild
  exact hdepth

/-- Only the first node is an entry. -/
theorem kind_eq_entry_iff (h : g.Built) {id : NodeId} {n : Node κ} (hn : g.node? id = some n) :
    n.kind = .entry ↔ id = entryNode := by
  constructor
  · intro hkind
    have hzero := h.wired.kind_entry id.index n hn hkind
    cases id
    simpa [entryNode] using hzero
  · rintro rfl
    obtain ⟨m, hm, hkind⟩ := h.wired.entry
    obtain rfl := Option.some.inj (hm.symm.trans hn)
    exact hkind

end Graph.Built

end BehaviourGraph
