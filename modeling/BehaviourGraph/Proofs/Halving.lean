import BehaviourGraph.PartitionPoint
import Mathlib.Data.List.Basic

/-!
# What halving finds

Halving finds the number of the elements that satisfy a test where these come first.  Of any other list it
knows only the elements that it looked at: it ends at the start just if none of them satisfies the test.
-/

namespace BehaviourGraph

/-! ## Elements that come first -/

section PartitionPoint

variable {α : Type} {test : α → Bool}

theorem holdsAt_append {front rest : List α} (hfront : ∀ x ∈ front, test x = true)
    (hrest : ∀ x ∈ rest, test x = false) (i : Nat) :
    holdsAt test (front ++ rest) i = decide (i < front.length) := by
  unfold holdsAt
  by_cases hi : i < front.length
  · rw [List.getElem?_append_left hi, List.getElem?_eq_getElem hi, decide_eq_true hi]
    exact hfront _ (List.getElem_mem hi)
  · rw [List.getElem?_append_right (Nat.le_of_not_lt hi), decide_eq_false hi]
    split
    next x hx => exact hrest x (List.mem_of_getElem? hx)
    next => rfl

/-- Halving keeps the end of a first part within the window or right behind it. -/
theorem narrowTo_lt (count size base : Nat) (hsize : 0 < size) (hlow : base = 0 ∨ base < count)
    (hhigh : count ≤ base + size) :
    let last := narrowTo (fun i => decide (i < count)) size base
    (last = 0 ∨ last < count) ∧ count ≤ last + 1 := by
  fun_induction narrowTo (fun i => decide (i < count)) size base with
  | case1 size base hmore half ih =>
      have hhalf : half = size / 2 := rfl
      by_cases hholds : base + half < count
      · simp only [hholds, decide_true, if_true, dite_true] at ih ⊢
        exact ih (by omega) (.inr trivial) (by omega)
      · simp only [hholds, decide_false, Bool.false_eq_true, if_false, dite_false] at ih ⊢
        exact ih (by omega) hlow (by omega)
  | case2 size base hone =>
      have hsize : size = 1 := by omega
      exact ⟨hlow, by omega⟩

/-- Where the elements that satisfy a test come first, their number is found. -/
theorem partitionPoint_append {front rest : List α} (hfront : ∀ x ∈ front, test x = true)
    (hrest : ∀ x ∈ rest, test x = false) : partitionPoint test (front ++ rest) = front.length := by
  have hholds := funext (holdsAt_append hfront hrest)
  unfold partitionPoint
  rw [hholds]
  split
  next hnone =>
    rw [List.isEmpty_iff, List.append_eq_nil_iff] at hnone
    rw [hnone.1, List.length_nil]
  next hsome =>
    have hlength : 0 < (front ++ rest).length := by
      rw [List.length_pos_iff]
      simpa using hsome
    have hlast := narrowTo_lt front.length (front ++ rest).length 0 hlength (.inl rfl)
      (by rw [List.length_append]; omega)
    dsimp only at hlast ⊢
    split
    next hlt =>
      rw [decide_eq_true_iff] at hlt
      omega
    next hge =>
      rw [decide_eq_true_iff] at hge
      omega

/-- The elements that satisfy a test come first. -/
def Leading (test : α → Bool) (xs : List α) : Prop :=
  xs.Pairwise fun a b => test b = true → test a = true

variable {xs : List α}

theorem Leading.filter_append (h : Leading test xs) :
    xs.filter test ++ xs.filter (fun x => !test x) = xs := by
  induction xs with
  | nil => rfl
  | cons x xs ih =>
      obtain ⟨hx, hxs⟩ := List.pairwise_cons.mp h
      cases htest : test x with
      | true =>
          rw [List.filter_cons_of_pos htest, List.filter_cons_of_neg (by simp [htest]),
            List.cons_append, ih hxs]
      | false =>
          have hnone (y : α) (hy : y ∈ xs) : test y = false := by
            rw [Bool.eq_false_iff]
            intro hy'
            rw [hx y hy hy'] at htest
            cases htest
          have hfront : (x :: xs).filter test = [] := by simpa [htest] using hnone
          have hrest : (x :: xs).filter (fun x => !test x) = x :: xs := by simpa [htest] using hnone
          rw [hfront, hrest, List.nil_append]

theorem Leading.partitionPoint_eq (h : Leading test xs) :
    partitionPoint test xs = (xs.filter test).length := by
  have hfront (x : α) (hx : x ∈ xs.filter test) : test x = true := (List.mem_filter.mp hx).2
  have hrest (x : α) (hx : x ∈ xs.filter fun x => !test x) : test x = false := by
    simpa using (List.mem_filter.mp hx).2
  have hpoint := partitionPoint_append hfront hrest
  rwa [h.filter_append] at hpoint

theorem Leading.take_partitionPoint (h : Leading test xs) :
    xs.take (partitionPoint test xs) = xs.filter test := by
  have hsplit : (xs.filter test ++ xs.filter fun x => !test x).take (xs.filter test).length =
      xs.filter test := List.take_left
  rwa [h.filter_append, ← h.partitionPoint_eq] at hsplit

theorem Leading.drop_partitionPoint (h : Leading test xs) :
    xs.drop (partitionPoint test xs) = xs.filter fun x => !test x := by
  have hsplit : (xs.filter test ++ xs.filter fun x => !test x).drop (xs.filter test).length =
      xs.filter fun x => !test x := List.drop_left
  rwa [h.filter_append, ← h.partitionPoint_eq] at hsplit

/-- What is put in behind the elements that satisfy a test is in order if it is with each of them. -/
theorem Leading.pairwise_insert {order : α → α → Prop} (h : Leading test xs)
    (hsorted : xs.Pairwise order) {a : α} (hfront : ∀ x ∈ xs, test x = true → order x a)
    (hrest : ∀ x ∈ xs, test x = false → order a x) :
    (xs.filter test ++ a :: xs.filter fun x => !test x).Pairwise order := by
  rw [← h.filter_append, List.pairwise_append] at hsorted
  obtain ⟨hbefore, hafter, hcross⟩ := hsorted
  apply List.pairwise_append.mpr
  refine ⟨hbefore, List.pairwise_cons.mpr ⟨fun x hx => ?_, hafter⟩, fun x hx y hy => ?_⟩
  · obtain ⟨hmem, hfails⟩ := List.mem_filter.mp hx
    exact hrest x hmem (by simpa using hfails)
  · rcases List.mem_cons.mp hy with rfl | hy
    · obtain ⟨hmem, hholds⟩ := List.mem_filter.mp hx
      exact hfront x hmem hholds
    · exact hcross x hx y hy

theorem forall_mem_insert {P : α → Prop} {a : α} (ha : P a) (h : ∀ x ∈ xs, P x) :
    ∀ x ∈ xs.filter test ++ a :: xs.filter (fun x => !test x), P x := by
  intro x hx
  rcases List.mem_append.mp hx with hx | hx
  · exact h x (List.mem_filter.mp hx).1
  · rcases List.mem_cons.mp hx with rfl | hx
    · exact ha
    · exact h x (List.mem_filter.mp hx).1

end PartitionPoint

/-! ## Searches that find nothing -/

/-- The positions that halving looks at before the last one, as long as it finds nothing. -/
def probes (size : Nat) : List Nat :=
  if 1 < size then size / 2 :: probes (size - size / 2) else []
termination_by size
decreasing_by omega

section Searches

variable {α : Type} {test : α → Bool} {xs : List α}

/-- Halving stays at the start just if no position that it looks at holds. -/
theorem narrowTo_eq_zero_iff (holds : Nat → Bool) (size : Nat) (hsize : 0 < size) :
    narrowTo holds size 0 = 0 ↔ ∀ i ∈ probes size, holds i = false := by
  induction size using probes.induct with
  | case1 size hmore ih =>
      unfold narrowTo probes
      simp only [hmore, if_true, Nat.zero_add, List.forall_mem_cons]
      cases hholds : holds (size / 2) with
      | true =>
          have hrange := narrowTo_mem holds (size - size / 2) (size / 2) (by omega)
          simp only [if_true, Bool.true_eq_false, false_and, iff_false]
          omega
      | false =>
          simp only [Bool.false_eq_true, if_false, true_and]
          exact ih (by omega)
  | case2 size hone =>
      unfold narrowTo probes
      simp [hone]

/-- The search ends at the start just if neither the first element nor one that it looks at holds. -/
theorem partitionPoint_eq_zero_iff :
    partitionPoint test xs = 0 ↔
      holdsAt test xs 0 = false ∧ ∀ i ∈ probes xs.length, holdsAt test xs i = false := by
  by_cases hempty : xs.isEmpty = true
  · have hnil := List.isEmpty_iff.mp hempty
    simp [partitionPoint, hnil, holdsAt, probes]
  have hsize : 0 < xs.length := List.length_pos_iff.mpr fun hnil => hempty (List.isEmpty_iff.mpr hnil)
  have hprobed := narrowTo_eq_zero_iff (holdsAt test xs) xs.length hsize
  unfold partitionPoint
  rw [if_neg hempty, ← hprobed]
  dsimp only
  by_cases hlast : narrowTo (holdsAt test xs) xs.length 0 = 0
  · rw [hlast]
    simp
  · have hpos := Nat.pos_of_ne_zero hlast
    simp only [hlast, and_false, iff_false]
    split <;> omega

/-- A search that does not reach the last element ends before the end. -/
theorem partitionPoint_lt_length {last : α} (hlast : xs.getLast? = some last) (hfails : test last = false) :
    partitionPoint test xs < xs.length := by
  have hle := partitionPoint_le_length test xs
  rw [List.getLast?_eq_getElem?] at hlast
  have hpos : 0 < xs.length := by
    cases xs with
    | nil => simp at hlast
    | cons x xs => exact Nat.succ_pos _
  by_contra hfull
  have hend : partitionPoint test xs = xs.length := by omega
  have hrange := (narrowTo_mem (holdsAt test xs) xs.length 0 hpos).2
  have hsome : xs.isEmpty = false := by
    cases xs with
    | nil => simp at hpos
    | cons x xs => rfl
  unfold partitionPoint at hend
  simp only [hsome, Bool.false_eq_true, if_false] at hend
  split at hend
  next hholds =>
    have hposition : narrowTo (holdsAt test xs) xs.length 0 = xs.length - 1 := by omega
    rw [hposition, holdsAt, hlast] at hholds
    simp [hfails] at hholds
  next => omega

end Searches

end BehaviourGraph
