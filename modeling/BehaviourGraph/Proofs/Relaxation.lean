import BehaviourGraph.Run.Session

/-!
# Relaxation

Relaxing an element only takes flags down, and the number of flags that are up is the measure of its
descent.  The depth that `Marking.relax` starts with never cuts it short (`relax_eq`): an element
whose flag is up loses it and then everything that comes next is relaxed in turn.
-/

namespace BehaviourGraph

/-- What one step of a fold brings about holds in the end if no step ends it. -/
theorem foldl_of_mem {α β : Type} {step : β → α → β} {Q : β → Prop} {a : α} (hstep : ∀ b, Q (step b a))
    (hkeep : ∀ b x, Q b → Q (step b x)) {as : List α} (ha : a ∈ as) (b : β) : Q (as.foldl step b) := by
  obtain ⟨front, back, rfl⟩ := List.append_of_mem ha
  rw [List.foldl_append, List.foldl_cons]
  exact List.foldlRecOn back step (hstep _) fun b hb x _ => hkeep b x hb

namespace Marking

variable {next : Element → List Element} {m m' : Marking} {e f : Element}

/-! ## Single flags -/

theorem has_clear (m : Marking) (e f : Element) :
    (m.clear e).has f = (m.has f && decide (e ≠ f)) := by
  by_cases h : e = f
  · subst h
    simp [has_clear_self]
  · simp [has_clear_of_ne m h, h]

theorem has_raise_self (h : m.holds e) : (m.raise e).has e = true :=
  m.get_set_self e true h

theorem has_raise_of_ne (m : Marking) (h : e ≠ f) : (m.raise e).has f = m.has f :=
  m.get_set_of_ne true h

theorem has_of_has_raise (h : (m.raise e).has f = true) : f = e ∨ m.has f = true := by
  by_cases hef : e = f
  · exact Or.inl hef.symm
  · exact Or.inr (by rwa [has_raise_of_ne m hef] at h)

theorem holds_of_has (h : m.has e = true) : m.holds e := by
  cases e with
  | node i =>
      rcases Nat.lt_or_ge i.index m.nodes.size with hlt | hge
      · exact hlt
      · simp [has, ElementMap.get, Array.getElem?_eq_none hge] at h
  | transition i =>
      rcases Nat.lt_or_ge i.index m.transitions.size with hlt | hge
      · exact hlt
      · simp [has, ElementMap.get, Array.getElem?_eq_none hge] at h

theorem has_raise_of_has (h : m.has f = true) : (m.raise e).has f = true := by
  by_cases hef : e = f
  · subst hef
    exact has_raise_self (holds_of_has h)
  · rwa [has_raise_of_ne m hef]

theorem has_empty (nodes transitions : Nat) (e : Element) :
    (empty nodes transitions).has e = false := by
  cases e with
  | node i =>
      simp only [has, empty, ElementMap.constant, ElementMap.get, Array.getElem?_replicate]
      split <;> rfl
  | transition i =>
      simp only [has, empty, ElementMap.constant, ElementMap.get, Array.getElem?_replicate]
      split <;> rfl

theorem has_foldl_clear (es : List Element) (m : Marking) (e : Element) :
    (es.foldl clear m).has e = (m.has e && decide (e ∉ es)) := by
  induction es generalizing m with
  | nil => simp
  | cons f es ih =>
      rw [List.foldl_cons, ih, has_clear]
      by_cases hf : f = e
      · simp [hf]
      · simp [hf, Ne.symm hf]

/-! ## Markings below others -/

structure Below (m m' : Marking) : Prop where
  has : ∀ e, m.has e = true → m'.has e = true
  nodes : m.nodes.size = m'.nodes.size
  transitions : m.transitions.size = m'.transitions.size

theorem Below.refl (m : Marking) : m.Below m := ⟨fun _ h => h, rfl, rfl⟩

theorem Below.trans {m'' : Marking} (h : m.Below m') (h' : m'.Below m'') : m.Below m'' :=
  ⟨fun e he => h'.has e (h.has e he), h.nodes.trans h'.nodes, h.transitions.trans h'.transitions⟩

theorem Below.antisymm (h : m.Below m') (h' : m'.Below m) : m = m' := by
  have hsame (e : Element) : m.has e = m'.has e := Bool.eq_iff_iff.mpr ⟨h.has e, h'.has e⟩
  cases m with
  | mk nodes transitions =>
      cases m' with
      | mk nodes' transitions' =>
          congr
          · refine Array.ext h.nodes fun i hi hi' => ?_
            simpa [Marking.has, ElementMap.get, hi, hi'] using hsame (.node ⟨i⟩)
          · refine Array.ext h.transitions fun i hi hi' => ?_
            simpa [Marking.has, ElementMap.get, hi, hi'] using hsame (.transition ⟨i⟩)

theorem Below.not_has (h : m.Below m') (he : m'.has e = false) : m.has e = false := by
  cases hm : m.has e with
  | false => rfl
  | true => rw [h.has e hm] at he; cases he

theorem clear_below (m : Marking) (e : Element) : (m.clear e).Below m := by
  refine ⟨fun f hf => ?_, ?_, ?_⟩
  · rw [has_clear] at hf
    simp_all
  all_goals cases e <;> simp [clear, ElementMap.set]

/-- Folding steps that only take flags down only takes flags down. -/
theorem foldl_below {α : Type} {step : Marking → α → Marking} (hstep : ∀ m a, (step m a).Below m)
    (as : List α) (m : Marking) : (as.foldl step m).Below m := by
  induction as generalizing m with
  | nil => exact Below.refl m
  | cons a as ih => exact (ih (step m a)).trans (hstep m a)

theorem cascade_below (next : Element → List Element) (depth : Nat) (e : Element) (m : Marking) :
    (cascade next depth e m).Below m := by
  induction depth generalizing e m with
  | zero => exact Below.refl m
  | succ depth ih =>
      unfold cascade
      split
      · exact (foldl_below (fun m f => ih f m) (next e) (m.clear e)).trans (clear_below m e)
      · exact Below.refl m

theorem relax_below (next : Element → List Element) (e : Element) (m : Marking) :
    (m.relax next e).Below m :=
  cascade_below next m.size e m

/-! ## The number of flags -/

def count (m : Marking) : Nat := m.nodes.count true + m.transitions.count true

theorem count_le_size (m : Marking) : m.count ≤ m.size :=
  Nat.add_le_add Array.count_le_size Array.count_le_size

theorem count_clear (h : m.has e = true) : (m.clear e).count + 1 = m.count := by
  have hin := holds_of_has h
  cases e with
  | node i =>
      simp only [ElementMap.holds] at hin
      have hi : m.nodes[i.index] = true := by simpa [has, ElementMap.get, hin] using h
      have hpos : 0 < m.nodes.count true := Array.count_pos_iff.mpr (hi ▸ Array.getElem_mem hin)
      simp only [count, clear, ElementMap.set, Array.setIfInBounds_def, hin, dif_pos,
        Array.count_set, hi]
      simp only [BEq.rfl, if_true, Bool.false_beq, Bool.not_true, Bool.false_eq_true, if_false]
      omega
  | transition i =>
      simp only [ElementMap.holds] at hin
      have hi : m.transitions[i.index] = true := by simpa [has, ElementMap.get, hin] using h
      have hpos : 0 < m.transitions.count true :=
        Array.count_pos_iff.mpr (hi ▸ Array.getElem_mem hin)
      simp only [count, clear, ElementMap.set, Array.setIfInBounds_def, hin, dif_pos,
        Array.count_set, hi]
      simp only [BEq.rfl, if_true, Bool.false_beq, Bool.not_true, Bool.false_eq_true, if_false]
      omega

theorem has_of_count_eq_zero (h : m.count = 0) (e : Element) : m.has e = false := by
  cases he : m.has e with
  | false => rfl
  | true =>
      have := count_clear he
      omega

theorem count_foldl_le {α : Type} {step : Marking → α → Marking}
    (hstep : ∀ m a, (step m a).count ≤ m.count) (as : List α) (m : Marking) :
    (as.foldl step m).count ≤ m.count := by
  induction as generalizing m with
  | nil => exact Nat.le_refl _
  | cons a as ih => exact Nat.le_trans (ih (step m a)) (hstep m a)

theorem count_cascade_le (next : Element → List Element) (depth : Nat) (e : Element) (m : Marking) :
    (cascade next depth e m).count ≤ m.count := by
  induction depth generalizing e m with
  | zero => exact Nat.le_refl _
  | succ depth ih =>
      unfold cascade
      split
      next h =>
        have hfold := count_foldl_le (fun m f => ih f m) (next e) (m.clear e)
        have hclear := count_clear h
        omega
      next => exact Nat.le_refl _

/-! ## The depth of the descent -/

/-- Steps that raise no flag need only agree on the markings with few flags up. -/
theorem foldl_congr_of_count {α : Type} {step step' : Marking → α → Marking} (bound : Nat)
    (hle : ∀ m a, (step m a).count ≤ m.count) (heq : ∀ m a, m.count ≤ bound → step m a = step' m a)
    (as : List α) (m : Marking) (hm : m.count ≤ bound) : as.foldl step m = as.foldl step' m := by
  induction as generalizing m with
  | nil => rfl
  | cons a as ih =>
      rw [List.foldl_cons, List.foldl_cons, ← heq m a hm]
      exact ih (step m a) (Nat.le_trans (hle m a) hm)

/-- Every step down takes a flag, so a depth of at least the number of flags cuts nothing short. -/
theorem cascade_congr_depth {depth depth' : Nat} (h : m.count ≤ depth) (h' : m.count ≤ depth') :
    cascade next depth e m = cascade next depth' e m := by
  induction depth generalizing depth' e m with
  | zero =>
      have hnone := has_of_count_eq_zero (Nat.le_zero.mp h) e
      cases depth' <;> simp [cascade, hnone]
  | succ depth ih =>
      cases depth' with
      | zero =>
          have hnone := has_of_count_eq_zero (Nat.le_zero.mp h') e
          simp [cascade, hnone]
      | succ depth' =>
          unfold cascade
          split
          next he =>
            have hclear := count_clear he
            exact foldl_congr_of_count (m.clear e).count
              (fun m f => count_cascade_le next depth f m)
              (fun m f hm => ih (by omega) (by omega)) (next e) (m.clear e) (Nat.le_refl _)
          next => rfl

/-- An element whose flag is up loses it, and then what comes next is relaxed in turn. -/
theorem relax_eq (next : Element → List Element) (e : Element) (m : Marking) :
    m.relax next e =
      if m.has e then (next e).foldl (fun m f => m.relax next f) (m.clear e) else m := by
  by_cases he : m.has e = true
  · have hclear := count_clear he
    have hsize := m.count_le_size
    obtain ⟨depth, hdepth⟩ : ∃ depth, m.size = depth + 1 := ⟨m.size - 1, by omega⟩
    rw [if_pos he, relax, hdepth, cascade, if_pos he]
    exact foldl_congr_of_count depth (fun m f => count_cascade_le next depth f m)
      (fun m f hm => cascade_congr_depth hm m.count_le_size) (next e) (m.clear e) (by omega)
  · rw [if_neg he]
    exact relax_of_not_has next (by simpa using he)

theorem has_relax_self (next : Element → List Element) (e : Element) (m : Marking) :
    (m.relax next e).has e = false := by
  rw [relax_eq]
  split
  next =>
    have hbelow := foldl_below (fun m f => relax_below next f m) (next e) (m.clear e)
    exact hbelow.not_has (has_clear_self m e)
  next h => simpa using h

/-- Relaxing elements one after the other takes down the flag of each. -/
theorem has_foldl_relax {es : List Element} (h : f ∈ es) (m : Marking) :
    (es.foldl (fun m e => m.relax next e) m).has f = false :=
  foldl_of_mem (Q := fun m => m.has f = false) (fun m => has_relax_self next f m)
    (fun m e hm => (relax_below next e m).not_has hm) h m

/-- What comes right after an element loses its flag with it. -/
theorem has_relax_next (he : m.has e = true) (hf : f ∈ next e) :
    (m.relax next e).has f = false := by
  rw [relax_eq, if_pos he]
  exact has_foldl_relax hf (m.clear e)

end Marking

/-! ## States -/

namespace State

variable {κ : Type} {g : Graph κ} {s : State} {id : NodeId}

theorem has_of_has_relax {flag flag' : Flag} {e f : Element}
    (h : (s.relax g flag e).has flag' f = true) : s.has flag' f = true := by
  cases flag <;> cases flag'
  · exact (Marking.relax_below g.next e s.active).has f h
  · exact h
  · exact h
  · exact (Marking.relax_below g.next e s.visited).has f h

theorem has_of_has_mark {flag : Flag} {e f : Element} (h : (s.mark e).has flag f = true) :
    f = e ∨ s.has flag f = true := by
  cases flag <;> exact Marking.has_of_has_raise h

/-- Relaxing a port comes down to relaxing its transitions. -/
theorem relaxPort_induction {P : State → Prop} {port : Port}
    (hrelax : ∀ s flag t, t ∈ g.exits id port → P s → P (s.relax g flag (.transition t))) (hs : P s) :
    P (s.relaxPort g id port) :=
  List.foldlRecOn _ _ hs fun s hs t ht => hrelax _ .active t ht (hrelax s .visited t ht hs)

theorem relaxOthers_induction {P : State → Prop} (n : Node κ) (chosen : Option Port)
    (hrelax : ∀ s flag port t, t ∈ g.exits id port → P s → P (s.relax g flag (.transition t)))
    (hs : P s) : P (s.relaxOthers g id n chosen) :=
  List.foldlRecOn _ _ hs fun _ hs port _ =>
    relaxPort_induction (fun s flag t => hrelax s flag port t) hs

theorem control_relaxOthers {n : Node κ} {chosen : Option Port} :
    (s.relaxOthers g id n chosen).control = s.control :=
  relaxOthers_induction (P := fun a => a.control = s.control) n chosen
    (fun a flag _ _ _ ha => by cases flag <;> exact ha) rfl

/-- Relaxing stops at once where no transition of the node is flagged as visited. -/
theorem visited_relaxOthers {n : Node κ} {chosen : Option Port}
    (h : ∀ port, ∀ t ∈ g.exits id port, s.has .visited (.transition t) = false) :
    (s.relaxOthers g id n chosen).visited = s.visited := by
  refine relaxOthers_induction (P := fun a => a.visited = s.visited) n chosen
    (fun a flag port t ht ha => ?_) rfl
  cases flag with
  | active => exact ha
  | visited =>
      have hdown : a.visited.has (.transition t) = false := by
        rw [ha]
        exact h port t ht
      exact (Marking.relax_of_not_has g.next hdown).trans ha

/-- The transitions of the ports that were not chosen are inactive. -/
theorem has_active_relaxOthers {n : Node κ} {chosen : Option Port} {port : Port} {t : TransitionId}
    (hport : port ∈ n.behaviour.ports) (hchosen : chosen ≠ some port) (ht : t ∈ g.exits id port) :
    (s.relaxOthers g id n chosen).has .active (.transition t) = false := by
  have hdown (a : State) (flag : Flag) (e : Element) (ha : a.has .active (.transition t) = false) :
      (a.relax g flag e).has .active (.transition t) = false := by
    rw [Bool.eq_false_iff] at ha ⊢
    exact fun h => ha (has_of_has_relax h)
  refine foldl_of_mem (a := port) (Q := fun a => a.has .active (.transition t) = false) (fun a => ?_)
    (fun a port ha => relaxPort_induction (fun a flag e _ => hdown a flag _) ha) ?_ s
  · refine foldl_of_mem (a := t) (Q := fun a => a.has .active (.transition t) = false) (fun a => ?_)
      (fun a u ha => hdown _ _ _ (hdown a _ _ ha)) ht a
    exact Marking.has_relax_self _ _ _
  · simpa [hport] using hchosen.symm

end State

end BehaviourGraph
