import BehaviourGraph.Proofs.KeyOrder

/-!
# Keys around a score

Among keys that are numbers and in order, those at or left of a score come first.  Between the first key
and the last one the search then finds the pair that has the score between them, which is the only one,
and the value is taken from that pair.
-/

namespace BehaviourGraph

namespace Keyframe

section Search

variable {keys : List Keyframe} {x : Float32}

theorem leading (h : keys.Pairwise fun a b => a.x ≤ b.x) (x : Float32) :
    Leading (fun k : Keyframe => decide (k.x ≤ x)) keys := by
  refine h.imp fun {a b} hab hb => ?_
  rw [decide_eq_true_iff] at hb ⊢
  exact single_le_trans hab hb

def leftKeys (keys : List Keyframe) (x : Float32) : List Keyframe := keys.filter fun k => decide (k.x ≤ x)

def rightKeys (keys : List Keyframe) (x : Float32) : List Keyframe :=
  keys.filter fun k => !decide (k.x ≤ x)

theorem le_of_mem_leftKeys {k : Keyframe} (hk : k ∈ leftKeys keys x) : k.x ≤ x :=
  decide_eq_true_iff.mp (List.mem_filter.mp hk).2

theorem not_le_of_mem_rightKeys {k : Keyframe} (hk : k ∈ rightKeys keys x) : ¬k.x ≤ x := by
  have hright := (List.mem_filter.mp hk).2
  simpa using hright

theorem leftKeys_append {front rest : List Keyframe} (hfront : ∀ k ∈ front, k.x ≤ x)
    (hrest : ∀ k ∈ rest, ¬k.x ≤ x) : leftKeys (front ++ rest) x = front := by
  have hkept : leftKeys front x = front :=
    List.filter_eq_self.mpr fun k hk => decide_eq_true (hfront k hk)
  have hnone : leftKeys rest x = [] := List.filter_eq_nil_iff.mpr fun k hk => by simpa using hrest k hk
  rw [leftKeys, List.filter_append]
  show leftKeys front x ++ leftKeys rest x = front
  rw [hkept, hnone, List.append_nil]

theorem rightKeys_append {front rest : List Keyframe} (hfront : ∀ k ∈ front, k.x ≤ x)
    (hrest : ∀ k ∈ rest, ¬k.x ≤ x) : rightKeys (front ++ rest) x = rest := by
  have hnone : rightKeys front x = [] := List.filter_eq_nil_iff.mpr fun k hk => by simpa using hfront k hk
  have hkept : rightKeys rest x = rest := List.filter_eq_self.mpr fun k hk => by simpa using hrest k hk
  rw [rightKeys, List.filter_append]
  show rightKeys front x ++ rightKeys rest x = rest
  rw [hnone, hkept, List.nil_append]

/-- The value that the last key at or left of a score and the first key right of it give. -/
def bridge (x : Float32) : Option Keyframe → Option Keyframe → Option Float32
  | some a, some b => some (between a b x)
  | some a, none => some a.y
  | none, _ => none

/-- Where the keys at or left of a score come first and the first key is left of it, the value is that of
the keys around it. -/
theorem interpolate_eq_bridge (hleading : Leading (fun k : Keyframe => decide (k.x ≤ x)) keys)
    {first : Keyframe} (hfirst : keys.head? = some first) (hle : first.x ≤ x) (hclamp : ¬x ≤ first.x) :
    interpolate keys x = bridge x (leftKeys keys x).getLast? (rightKeys keys x).head? := by
  have hkeys : leftKeys keys x ++ rightKeys keys x = keys := hleading.filter_append
  have hcount : partitionPoint (fun k : Keyframe => decide (k.x ≤ x)) keys = (leftKeys keys x).length :=
    hleading.partitionPoint_eq
  have hleft (k : Keyframe) (hk : k ∈ leftKeys keys x) : k.x ≤ x := le_of_mem_leftKeys hk
  have hright (k : Keyframe) (hk : k ∈ rightKeys keys x) : ¬k.x ≤ x := not_le_of_mem_rightKeys hk
  have hmem : first ∈ leftKeys keys x :=
    List.mem_filter.mpr ⟨List.mem_of_head? hfirst, decide_eq_true hle⟩
  generalize leftKeys keys x = left, rightKeys keys x = right at hkeys hcount hleft hright hmem ⊢
  obtain ⟨front, a, hfront⟩ := (List.eq_nil_or_concat left).resolve_left (List.ne_nil_of_mem hmem)
  rw [List.concat_eq_append] at hfront
  subst hfront
  subst hkeys
  cases right with
  | nil =>
      have hlast : (front ++ [a] ++ []).getLast? = some a := by simp
      have ha : a.x ≤ x := hleft a (by simp)
      unfold interpolate
      rw [hfirst, hlast]
      simp [hclamp, ha, bridge]
  | cons b rest =>
      obtain ⟨last, hlast⟩ : ∃ last, (b :: rest).getLast? = some last := ⟨_, List.getLast?_cons⟩
      have hlate : ¬last.x ≤ x := hright last (List.mem_of_getLast? hlast)
      have ha : (front ++ [a] ++ b :: rest)[front.length]? = some a := by simp
      have hb : (front ++ [a] ++ b :: rest)[front.length + 1]? = some b := by simp
      have hend : (front ++ [a] ++ b :: rest).getLast? = some last := by
        rw [List.getLast?_append, hlast, Option.some_or]
      rw [List.length_append, List.length_singleton] at hcount
      unfold interpolate
      rw [hfirst, hend]
      simp only [if_neg hclamp, if_neg hlate, hcount, ha, hb]
      simp [bridge]

theorem interpolate_of_left (h : ∀ k ∈ keys, x ≤ k.x) :
    interpolate keys x = some ((keys.head?.map Keyframe.y).getD 0.0) := by
  cases keys with
  | nil => rfl
  | cons first rest =>
      have hfirst : x ≤ first.x := h first List.mem_cons_self
      obtain ⟨last, hlast⟩ : ∃ last, (first :: rest).getLast? = some last := ⟨_, List.getLast?_cons⟩
      simp [interpolate, hlast, hfirst]

/-- With a key left of the score, the keys around it decide. -/
theorem interpolate_of_not_left (hin : keys.Pairwise fun a b => a.x ≤ b.x) {k : Keyframe} (hk : k ∈ keys)
    (hlt : k.x < x) :
    interpolate keys x = bridge x (leftKeys keys x).getLast? (rightKeys keys x).head? := by
  obtain ⟨first, hfirst⟩ : ∃ first, keys.head? = some first :=
    ⟨_, List.head?_eq_some_head (List.ne_nil_of_mem hk)⟩
  obtain ⟨rest, rfl⟩ := List.head?_eq_some_iff.mp hfirst
  have hnumbers := single_lt_iff.mp hlt
  have hle : first.x ≤ k.x := by
    rcases List.mem_cons.mp hk with rfl | hk
    · exact single_le_refl hnumbers.1
    · exact (List.pairwise_cons.mp hin).1 k hk
  refine interpolate_eq_bridge (leading hin x) hfirst (single_le_trans hle (single_le_of_lt hlt)) ?_
  intro hclamp
  exact (not_single_le hnumbers.2.1 hnumbers.1).mpr hlt (single_le_trans hclamp hle)

structure Brackets (keys : List Keyframe) (x : Float32) (i : Nat) (a b : Keyframe) : Prop where
  left : keys[i]? = some a
  right : keys[i + 1]? = some b
  le : a.x ≤ x
  lt : x < b.x

theorem Brackets.le_index (h : keys.Pairwise fun a b => a.x ≤ b.x) {i j : Nat} {a b a' b' : Keyframe}
    (hi : Brackets keys x i a b) (hj : Brackets keys x j a' b') : j ≤ i := by
  by_contra hlt
  have hbound : b.x ≤ a'.x := by
    rcases Nat.lt_or_ge (i + 1) j with hbefore | hafter
    · obtain ⟨hb, rfl⟩ := List.getElem?_eq_some_iff.mp hi.right
      obtain ⟨ha, rfl⟩ := List.getElem?_eq_some_iff.mp hj.left
      exact List.pairwise_iff_getElem.mp h _ _ hb ha hbefore
    · have hsame : j = i + 1 := by omega
      have hleft := hj.left
      rw [hsame, hi.right, Option.some.injEq] at hleft
      rw [hleft]
      exact single_le_refl (single_le_iff.mp hj.le).1
  have hnumbers := single_lt_iff.mp hi.lt
  exact (not_single_le hnumbers.2.1 hnumbers.1).mpr hi.lt (single_le_trans hbound hj.le)

/-- Strictly between the first and the last key there is a pair around the score. -/
theorem exists_brackets (hnumbers : ∀ k ∈ keys, k.x.isNaN = false)
    (hsorted : keys.Pairwise fun a b => a.x ≤ b.x) (hx : x.isNaN = false) {first last : Keyframe}
    (hfirst : keys.head? = some first) (hlast : keys.getLast? = some last) (hleft : ¬x ≤ first.x)
    (hright : ¬last.x ≤ x) :
    ∃ i a b, Brackets keys x i a b ∧ interpolate keys x = some (between a b x) := by
  have hmem := List.mem_of_head? hfirst
  have hbefore : first.x < x := (not_single_le hx (hnumbers first hmem)).mp hleft
  have hbridge := interpolate_of_not_left hsorted hmem hbefore
  have hkeys : leftKeys keys x ++ rightKeys keys x = keys := (leading hsorted x).filter_append
  have hfront : first ∈ leftKeys keys x :=
    List.mem_filter.mpr ⟨hmem, decide_eq_true (single_le_of_lt hbefore)⟩
  have hback : last ∈ rightKeys keys x :=
    List.mem_filter.mpr ⟨List.mem_of_getLast? hlast, by simpa using hright⟩
  obtain ⟨a, ha⟩ : ∃ a, (leftKeys keys x).getLast? = some a :=
    ⟨_, List.getLast?_eq_some_getLast (List.ne_nil_of_mem hfront)⟩
  obtain ⟨b, hb⟩ : ∃ b, (rightKeys keys x).head? = some b :=
    ⟨_, List.head?_eq_some_head (List.ne_nil_of_mem hback)⟩
  have hale := le_of_mem_leftKeys (List.mem_of_getLast? ha)
  have hblt := not_le_of_mem_rightKeys (List.mem_of_head? hb)
  have hbmem : b ∈ keys := List.mem_of_mem_filter (List.mem_of_head? hb)
  rw [ha, hb] at hbridge
  obtain ⟨front, hfront⟩ := List.getLast?_eq_some_iff.mp ha
  obtain ⟨rest, hrest⟩ := List.head?_eq_some_iff.mp hb
  rw [hfront, hrest] at hkeys
  refine ⟨front.length, a, b, ⟨?_, ?_, hale, (not_single_le (hnumbers b hbmem) hx).mp hblt⟩, hbridge⟩
  · rw [← hkeys]
    simp
  · rw [← hkeys]
    simp

end Search

end Keyframe

/-! ## Values of keyframes -/

section Values

variable {keys : List Keyframe} {x : Float32}

theorem Curve.evaluate_keyframes (hx : x.isNaN = false) :
    (Curve.keyframes keys).evaluate x = Keyframe.interpolate (Keyframe.ordered keys) x :=
  if_neg (Bool.eq_false_iff.mp hx)

open Keyframe in
/-- Keys that are numbers are searched as given if they are in order, and stably sorted by rank otherwise.
A score that is a number then has the value of the first key up to it, of the last key from it on, and
in between the value on the line through the only two neighbouring keys around it, or that of the right one
where the two are too close. -/
theorem keyframes_bracketed (hnumbers : ∀ k ∈ keys, k.x.isNaN = false) (hx : x.isNaN = false) :
    ((keys.Pairwise fun a b => a.x ≤ b.x) → ordered keys = keys) ∧
    ((¬keys.Pairwise fun a b => a.x ≤ b.x) → StablySorted keys (ordered keys)) ∧
    (keys = [] → (Curve.keyframes keys).evaluate x = some 0.0) ∧
    ∀ first last, (ordered keys).head? = some first → (ordered keys).getLast? = some last →
      (x ≤ first.x → (Curve.keyframes keys).evaluate x = some first.y) ∧
      (¬x ≤ first.x → last.x ≤ x → (Curve.keyframes keys).evaluate x = some last.y) ∧
      (¬x ≤ first.x → ¬last.x ≤ x →
        ∃ i a b, Brackets (ordered keys) x i a b ∧
          (∀ j a' b', Brackets (ordered keys) x j a' b' → j = i) ∧
          (Curve.keyframes keys).evaluate x =
            some (if b.x - a.x ≤ leastSpan then b.y
              else a.y + (b.y - a.y) * (x - a.x) / (b.x - a.x))) := by
  have hsorted := pairwise_ordered hnumbers
  have hordered (k : Keyframe) (hk : k ∈ ordered keys) : k.x.isNaN = false :=
    hnumbers k (mem_ordered.mp hk)
  rw [Curve.evaluate_keyframes hx]
  refine ⟨ordered_of_inOrder, fun h => ?_, ?_, fun first last hfirst hlast => ⟨?_, ?_, ?_⟩⟩
  · rw [ordered_of_disorder h]
    exact stablySorted_sort keys
  · rintro rfl
    rfl
  · intro hleft
    simp [interpolate, hfirst, hlast, hleft]
  · intro hleft hright
    simp [interpolate, hfirst, hlast, hleft, hright]
  · intro hleft hright
    obtain ⟨i, a, b, hbrackets, hvalue⟩ := exists_brackets hordered hsorted hx hfirst hlast hleft hright
    exact ⟨i, a, b, hbrackets,
      fun j a' b' hj => Nat.le_antisymm (hbrackets.le_index hsorted hj) (hj.le_index hsorted hbrackets),
      hvalue⟩

/-- Keys out of order, two of them at one position and one at infinity. -/
def strewnKeys : List Keyframe := [⟨0x3f800000, 5.0⟩, ⟨0, 2.0⟩, ⟨0, 3.0⟩, ⟨0xff800000, 1.0⟩]

theorem ordered_strewnKeys :
    Keyframe.ordered strewnKeys = [⟨0xff800000, 1.0⟩, ⟨0, 2.0⟩, ⟨0, 3.0⟩, ⟨0x3f800000, 5.0⟩] := by
  unfold Keyframe.ordered
  rw [if_neg (by decide)]
  simp [strewnKeys, Keyframe.sort, List.mergeSort, List.MergeSort.Internal.splitInTwo,
    Keyframe.rank_eq]

open Keyframe in
theorem strewn_bracketed :
    (∀ k ∈ strewnKeys, k.x.isNaN = false) ∧ (0.5 : Float32).isNaN = false ∧
      StablySorted strewnKeys (ordered strewnKeys) ∧
      ∃ i a b, Brackets (ordered strewnKeys) 0.5 i a b ∧
        (Curve.keyframes strewnKeys).evaluate 0.5 =
          some (if b.x - a.x ≤ leastSpan then b.y
            else a.y + (b.y - a.y) * (0.5 - a.x) / (b.x - a.x)) := by
  have hnumbers : ∀ k ∈ strewnKeys, k.x.isNaN = false := by decide
  have hx : (0.5 : Float32).isNaN = false := by decide
  obtain ⟨_, hsorted, _, hvalue⟩ := keyframes_bracketed hnumbers hx
  have hfirst : (ordered strewnKeys).head? = some ⟨0xff800000, 1.0⟩ := by rw [ordered_strewnKeys]; rfl
  have hlast : (ordered strewnKeys).getLast? = some ⟨0x3f800000, 5.0⟩ := by rw [ordered_strewnKeys]; rfl
  obtain ⟨_, _, hbetween⟩ := hvalue _ _ hfirst hlast
  obtain ⟨i, a, b, hbrackets, _, heq⟩ := hbetween (by decide) (by decide)
  exact ⟨hnumbers, hx, hsorted fun h => absurd (inOrder_iff.mpr h) (by decide), i, a, b, hbrackets, heq⟩

end Values

end BehaviourGraph
