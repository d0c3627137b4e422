import BehaviourGraph.Proofs.Bracketing

/-!
# Keys sorted beforehand

Keys given in order are searched as they stand, where a curve built from them searches them sorted.  The
two lists differ only in how the keys at the zeros are arranged, so they have the same value at a score
unless that is taken from the first or the last of these keys and sorting puts another in its place.
-/

namespace BehaviourGraph

namespace Keyframe

/-! ## Ends of a stable arrangement -/

section Stable

variable {keys sorted : List Keyframe} {a : Keyframe}

theorem StablySorted.filter (h : StablySorted keys sorted) (p : Keyframe → Bool) :
    StablySorted (keys.filter p) (sorted.filter p) where
  perm := h.perm.filter p
  rising := h.rising.filter p
  stable r := by
    rw [List.filter_comm, h.stable r, List.filter_comm]

/-- The first key stays first if none ranks before it. -/
theorem StablySorted.head?_eq (h : StablySorted keys sorted) (ha : keys.head? = some a)
    (hleast : ∀ k ∈ keys, a.rank ≤ k.rank) : sorted.head? = some a := by
  have hstable := h.stable a.rank
  have hrising := h.rising
  have hmem : a ∈ sorted := h.perm.mem_iff.mpr (List.mem_of_head? ha)
  obtain ⟨rest, rfl⟩ := List.head?_eq_some_iff.mp ha
  cases sorted with
  | nil => cases hmem
  | cons b others =>
      have hb : a.rank ≤ b.rank := hleast b (h.perm.mem_iff.mp List.mem_cons_self)
      have ha : b.rank ≤ a.rank := by
        rcases List.mem_cons.mp hmem with rfl | hmem
        · exact Nat.le_refl _
        · exact (List.pairwise_cons.mp hrising).1 a hmem
      have hrank : b.rank = a.rank := Nat.le_antisymm ha hb
      rw [List.filter_cons_of_pos (by simp [hrank]), List.filter_cons_of_pos (by simp)] at hstable
      rw [List.head?_cons, (List.cons.inj hstable).1]

/-- The last key stays last if none ranks behind it. -/
theorem StablySorted.getLast?_eq (h : StablySorted keys sorted) (ha : keys.getLast? = some a)
    (hgreatest : ∀ k ∈ keys, k.rank ≤ a.rank) : sorted.getLast? = some a := by
  have hstable := h.stable a.rank
  have hrising := h.rising
  have hmem : a ∈ sorted := h.perm.mem_iff.mpr (List.mem_of_getLast? ha)
  obtain ⟨front, rfl⟩ := List.getLast?_eq_some_iff.mp ha
  obtain ⟨b, hb⟩ : ∃ b, sorted.getLast? = some b :=
    ⟨_, List.getLast?_eq_some_getLast (List.ne_nil_of_mem hmem)⟩
  obtain ⟨others, rfl⟩ := List.getLast?_eq_some_iff.mp hb
  have hle : b.rank ≤ a.rank := hgreatest b (h.perm.mem_iff.mp (List.mem_of_getLast? hb))
  have hge : a.rank ≤ b.rank := by
    rcases List.mem_append.mp hmem with hmem | hmem
    · exact (List.pairwise_append.mp hrising).2.2 a hmem b List.mem_cons_self
    · rw [List.mem_singleton.mp hmem]
  have hrank : b.rank = a.rank := Nat.le_antisymm hle hge
  have hends := congrArg List.getLast? hstable
  simpa [hrank] using hends

variable (hin : keys.Pairwise fun a b => a.x ≤ b.x)
include hin

/-- Sorting keys in order replaces the first one only at the zeros. -/
theorem StablySorted.head?_eq_or_crossed (h : StablySorted keys sorted) :
    sorted.head? = keys.head? ∨ ∃ a b, Crossed a b ∧ [a, b].Sublist keys ∧ keys.head? = some a := by
  cases keys with
  | nil => exact .inl (congrArg List.head? h.perm.eq_nil)
  | cons a rest =>
      by_cases hcrossed : ∃ b ∈ rest, Crossed a b
      · obtain ⟨b, hb, hab⟩ := hcrossed
        exact .inr ⟨a, b, hab, (List.singleton_sublist.mpr hb).cons_cons a, rfl⟩
      · left
        refine h.head?_eq rfl fun k hk => ?_
        rcases List.mem_cons.mp hk with rfl | hk
        · exact Nat.le_refl _
        · exact (rank_le_or_crossed ((List.pairwise_cons.mp hin).1 k hk)).resolve_right
            fun hab => hcrossed ⟨k, hk, hab⟩

/-- Nor does it replace the last one anywhere else. -/
theorem StablySorted.getLast?_eq_or_crossed (h : StablySorted keys sorted) :
    sorted.getLast? = keys.getLast? ∨
      ∃ a b, Crossed a b ∧ [a, b].Sublist keys ∧ keys.getLast? = some b := by
  rcases List.eq_nil_or_concat keys with rfl | ⟨front, b, rfl⟩
  · exact .inl (congrArg List.getLast? h.perm.eq_nil)
  rw [List.concat_eq_append] at *
  have hb : (front ++ [b]).getLast? = some b := by simp
  by_cases hcrossed : ∃ a ∈ front, Crossed a b
  · obtain ⟨a, ha, hab⟩ := hcrossed
    exact .inr ⟨a, b, hab, (List.singleton_sublist.mpr ha).append (List.Sublist.refl [b]), hb⟩
  · left
    rw [hb]
    refine h.getLast?_eq hb fun k hk => ?_
    rcases List.mem_append.mp hk with hk | hk
    · exact (rank_le_or_crossed ((List.pairwise_append.mp hin).2.2 k hk b List.mem_cons_self)).resolve_right
        fun hab => hcrossed ⟨k, hk, hab⟩
    · rw [List.mem_singleton.mp hk]

end Stable

/-! ## Keys in order and keys sorted -/

/-- The value at a score is taken from a key at one of the zeros, in whose place sorting puts a key at the
other: from the first key if none lies left of the score, and otherwise from the first key right of it or
the last one that is not. -/
structure Displaced (keys : List Keyframe) (x : Float32) : Prop where
  number : x.isNaN = false
  inOrder : keys.Pairwise fun a b => a.x ≤ b.x
  crossed : ∃ a b, Crossed a b ∧ [a, b].Sublist keys ∧
    if ∀ k ∈ keys, x ≤ k.x then keys.head? = some a
    else (rightKeys keys x).head? = some a ∨ (leftKeys keys x).getLast? = some b

section Presorted

variable {keys : List Keyframe} {x : Float32}

theorem interpolate_sort (hnumbers : ∀ k ∈ keys, k.x.isNaN = false)
    (hin : keys.Pairwise fun a b => a.x ≤ b.x) (hx : x.isNaN = false) (h : ¬Displaced keys x) :
    interpolate (sort keys) x = interpolate keys x := by
  have hsorted := stablySorted_sort keys
  have hmem (k : Keyframe) : k ∈ sort keys ↔ k ∈ keys := (sort_perm keys).mem_iff
  by_cases hleft : ∀ k ∈ keys, x ≤ k.x
  · have hfirst : (sort keys).head? = keys.head? := by
      refine (hsorted.head?_eq_or_crossed hin).resolve_right ?_
      rintro ⟨a, b, hcrossed, hsublist, ha⟩
      exact h ⟨hx, hin, a, b, hcrossed, hsublist, by rwa [if_pos hleft]⟩
    rw [interpolate_of_left hleft, interpolate_of_left fun k hk => hleft k ((hmem k).mp hk), hfirst]
  · obtain ⟨k, hk, hlt⟩ : ∃ k ∈ keys, k.x < x := by
      by_contra hnone
      refine hleft fun k hk => ?_
      by_contra hle
      exact hnone ⟨k, hk, (not_single_le hx (hnumbers k hk)).mp hle⟩
    have hinSorted : (sort keys).Pairwise fun a b => a.x ≤ b.x :=
      inOrder_of_rising (fun k hk => hnumbers k ((hmem k).mp hk)) (rank_sorted keys)
    have hlast : (leftKeys (sort keys) x).getLast? = (leftKeys keys x).getLast? := by
      refine ((hsorted.filter _).getLast?_eq_or_crossed (hin.filter _)).resolve_right ?_
      rintro ⟨a, b, hcrossed, hsublist, hb⟩
      exact h ⟨hx, hin, a, b, hcrossed, hsublist.trans List.filter_sublist,
        by rw [if_neg hleft]; exact .inr hb⟩
    have hnext : (rightKeys (sort keys) x).head? = (rightKeys keys x).head? := by
      refine ((hsorted.filter _).head?_eq_or_crossed (hin.filter _)).resolve_right ?_
      rintro ⟨a, b, hcrossed, hsublist, ha⟩
      exact h ⟨hx, hin, a, b, hcrossed, hsublist.trans List.filter_sublist,
        by rw [if_neg hleft]; exact .inl ha⟩
    rw [interpolate_of_not_left hin hk hlt, interpolate_of_not_left hinSorted ((hmem k).mpr hk) hlt,
      hlast, hnext]

/-- Two keys in order are numbers, so only a single key may be none. -/
theorem numbers_or_single (hin : keys.Pairwise fun a b => a.x ≤ b.x) :
    (∀ k ∈ keys, k.x.isNaN = false) ∨ sort keys = keys := by
  match keys, hin with
  | [], _ => exact .inr (sort_eq_self .nil)
  | [only], _ => exact .inr (sort_eq_self (List.pairwise_singleton _ _))
  | first :: second :: rest, hin =>
      left
      intro k hk
      rcases List.mem_cons.mp hk with rfl | hk
      · exact number_of_inOrder (inOrder_iff.mpr hin)
      · exact (single_le_iff.mp ((List.pairwise_cons.mp hin).1 k hk)).2.1

end Presorted

end Keyframe

open Keyframe in
/-- Keys given as they are and keys sorted beforehand have the same value at every score, except where the
keys are in order as given and sorting displaces one at a zero from which the value is taken. -/
theorem evaluate_presorted {keys : List Keyframe} {x : Float32} (h : ¬Displaced keys x) :
    (Curve.keyframes keys).evaluate x = (Curve.ofKeys keys).evaluate x := by
  cases hx : x.isNaN with
  | true => simp only [Curve.evaluate, Curve.ofKeys, hx, if_true]
  | false =>
      rw [Curve.ofKeys, Curve.evaluate_keyframes hx, Curve.evaluate_keyframes hx, ordered_sort]
      by_cases hin : keys.Pairwise fun a b => a.x ≤ b.x
      · rw [ordered_of_inOrder hin]
        rcases numbers_or_single hin with hnumbers | hsame
        · exact (interpolate_sort hnumbers hin hx h).symm
        · rw [hsame]
      · rw [ordered_of_disorder hin]

/-- The zeros out of the order of ranks, between two other keys. -/
def flankedKeys : List Keyframe := [⟨0xbf800000, 0.0⟩, ⟨0, 1.0⟩, ⟨0x80000000, 2.0⟩, ⟨0x3f800000, 3.0⟩]

/-- From the other keys the values are taken all the same. -/
theorem flanked_presorted :
    ¬Keyframe.Displaced flankedKeys (-1.0) ∧
      (Curve.keyframes flankedKeys).evaluate (-1.0) = (Curve.ofKeys flankedKeys).evaluate (-1.0) := by
  have hkept : ¬Keyframe.Displaced flankedKeys (-1.0) := by
    rintro ⟨_, _, a, b, hcrossed, _, htaken⟩
    rw [if_pos (by decide)] at htaken
    cases htaken
    exact absurd hcrossed.unsigned (by decide)
  exact ⟨hkept, evaluate_presorted hkept⟩

def crossedKeys : List Keyframe := [⟨0, 1.0⟩, ⟨0x80000000, 2.0⟩]

theorem sort_crossedKeys : Keyframe.sort crossedKeys = [⟨0x80000000, 2.0⟩, ⟨0, 1.0⟩] := by
  simp [crossedKeys, Keyframe.sort, List.mergeSort, List.MergeSort.Internal.splitInTwo,
    Keyframe.rank_eq]

/-- Given as they are the keys have the value of the one at zero, and sorted that of the other. -/
theorem crossed_keys_differ :
    (Curve.keyframes crossedKeys).evaluate 0.0 = some 1.0 ∧
      (Curve.ofKeys crossedKeys).evaluate 0.0 = some 2.0 ∧
      (Curve.keyframes crossedKeys).evaluate 0.0 ≠ (Curve.ofKeys crossedKeys).evaluate 0.0 := by
  rw [Curve.ofKeys, sort_crossedKeys]
  decide

end BehaviourGraph
