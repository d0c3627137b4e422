/-!
# Partition point by halving

The search narrows a window of candidates to one position and tests it last.  On a list whose holding
elements all come first it finds their number; on any other list the position depends on the elements
it happens to look at.
-/

namespace BehaviourGraph

/-- Narrow the `size` candidates from `base` on to one. -/
def narrowTo (holds : Nat → Bool) (size base : Nat) : Nat :=
  if 1 < size then
    let half := size / 2
    narrowTo holds (size - half) (if holds (base + half) then base + half else base)
  else base
termination_by size
decreasing_by omega

/-- Whether the element at a position satisfies the test. -/
def holdsAt {α : Type} (test : α → Bool) (xs : List α) (i : Nat) : Bool :=
  match xs[i]? with
  | some x => test x
  | none => false

/-- The position that separates the elements that satisfy the test from the rest. -/
def partitionPoint {α : Type} (test : α → Bool) (xs : List α) : Nat :=
  if xs.isEmpty then 0
  else
    let last := narrowTo (holdsAt test xs) xs.length 0
    if holdsAt test xs last then last + 1 else last

theorem narrowTo_mem (holds : Nat → Bool) (size base : Nat) (h : 0 < size) :
    base ≤ narrowTo holds size base ∧ narrowTo holds size base < base + size := by
  fun_induction narrowTo holds size base with
  | case1 size base hs half ih =>
      have hhalf : half = size / 2 := rfl
      obtain ⟨hl, hu⟩ := ih (by omega)
      split at hl <;> split at hu <;> simp_all <;> omega
  | case2 size base hs => omega

theorem partitionPoint_le_length {α : Type} (test : α → Bool) (xs : List α) :
    partitionPoint test xs ≤ xs.length := by
  unfold partitionPoint
  split
  · exact Nat.zero_le _
  · next h =>
      have hpos : 0 < xs.length := by
        cases xs <;> simp_all
      have hlt := (narrowTo_mem (holdsAt test xs) xs.length 0 hpos).2
      simp only [Nat.zero_add] at hlt
      dsimp only
      split <;> omega

end BehaviourGraph
