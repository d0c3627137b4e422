import BehaviourGraph.Proofs.KeyOrder
import BehaviourGraph.Proofs.Walk.Causes
import BehaviourGraph.Proofs.Wiring

/-!
# Where curves have values

Every curve has a value at every score, keyframes apart whose search finds no two keys around the score.
That takes a first key without a number, so keys that are numbers are always enough.  A tick is broken off
for want of a value only if a utility has such a curve.
-/

namespace BehaviourGraph

/-! ## Keys around a score -/

namespace Keyframe

/-- A search among keys finds no two around a score: the first is not a number, and neither the last nor
any that the search looks at lies at or left of the score. -/
structure Unbracketed (keys : List Keyframe) (x : Float32) : Prop where
  first : ∃ k, keys.head? = some k ∧ k.x.isNaN = true
  last : ∃ k, keys.getLast? = some k ∧ ¬k.x ≤ x
  probed : ∀ i ∈ probes keys.length, ∀ k, keys[i]? = some k → ¬k.x ≤ x

section Interpolate

variable {keys : List Keyframe} {x : Float32}

theorem holdsAt_eq_false_iff {i : Nat} :
    holdsAt (fun k : Keyframe => decide (k.x ≤ x)) keys i = false ↔
      ∀ k, keys[i]? = some k → ¬k.x ≤ x := by
  unfold holdsAt
  cases keys[i]? <;> simp

/-- The search goes on only between the first and the last key. -/
theorem interpolate_of_between {first last : Keyframe} (hfirst : keys.head? = some first)
    (hlast : keys.getLast? = some last) (hleft : ¬x ≤ first.x) (hright : ¬last.x ≤ x) :
    interpolate keys x = none ↔ partitionPoint (fun k : Keyframe => decide (k.x ≤ x)) keys = 0 := by
  have hbound : partitionPoint (fun k : Keyframe => decide (k.x ≤ x)) keys < keys.length :=
    partitionPoint_lt_length hlast (decide_eq_false hright)
  unfold interpolate
  rw [hfirst, hlast]
  simp only [if_neg hleft, if_neg hright]
  split
  next hzero => simp [hzero]
  next left hleft =>
    rw [hleft] at hbound
    rw [List.getElem?_eq_getElem hbound, List.getElem?_eq_getElem (by omega : left < keys.length)]
    simp [hleft]

theorem interpolate_eq_none_iff (hx : x.isNaN = false) :
    interpolate keys x = none ↔ Unbracketed keys x := by
  cases keys with
  | nil =>
      have hnone : ¬Unbracketed [] x := fun h => by
        obtain ⟨k, hk, _⟩ := h.first
        simp at hk
      simp [interpolate, hnone]
  | cons first rest =>
      obtain ⟨last, hlast⟩ : ∃ last, (first :: rest).getLast? = some last :=
        ⟨_, List.getLast?_cons⟩
      by_cases hleft : x ≤ first.x
      · have hnumber := (single_le_iff.mp hleft).2.1
        have hnot : ¬Unbracketed (first :: rest) x := fun h => by
          obtain ⟨k, hk, hnan⟩ := h.first
          simp only [List.head?_cons, Option.some.injEq] at hk
          rw [← hk, hnumber] at hnan
          cases hnan
        simp [interpolate, hlast, hleft, hnot]
      by_cases hright : last.x ≤ x
      · have hnot : ¬Unbracketed (first :: rest) x := fun h => by
          obtain ⟨k, hk, hlate⟩ := h.last
          rw [hlast, Option.some.injEq] at hk
          exact hlate (hk ▸ hright)
        simp [interpolate, hlast, hleft, hright, hnot]
      rw [interpolate_of_between rfl hlast hleft hright, partitionPoint_eq_zero_iff]
      simp only [holdsAt_eq_false_iff]
      constructor
      · rintro ⟨hstart, hprobed⟩
        refine ⟨⟨first, rfl, ?_⟩, ⟨last, hlast, hright⟩, hprobed⟩
        by_contra hnan
        have hnumber := Bool.eq_false_iff.mpr hnan
        exact (single_le_total hnumber hx).elim (hstart first rfl) hleft
      · intro h
        refine ⟨fun k hk hle => ?_, h.probed⟩
        obtain ⟨k', hk', hnan⟩ := h.first
        rw [List.head?_eq_getElem?, hk, Option.some.injEq] at hk'
        have hnumber := (single_le_iff.mp hle).1
        rw [hk', hnan] at hnumber
        cases hnumber

end Interpolate

/-! ## Keys that are no numbers -/

/-- A position that is a NaN whose sign is set. -/
def isLeftmost (k : Keyframe) : Prop := k.x.isNaN = true ∧ 2 ^ 31 ≤ k.bits.toNat

section Order

variable {keys : List Keyframe}

/-- The first key is a number, unless a key lies left of all numbers or no key is one. -/
theorem leftmost_or_none_number {first : Keyframe} (hfirst : (ordered keys).head? = some first)
    (hnan : first.x.isNaN = true) : (∃ k ∈ keys, k.isLeftmost) ∨ ∀ k ∈ keys, k.x.isNaN = true := by
  have hmem : first ∈ keys := mem_ordered.mp (List.mem_of_head? hfirst)
  by_cases hsign : 2 ^ 31 ≤ first.bits.toNat
  · exact .inl ⟨first, hmem, hnan, hsign⟩
  right
  have hrank := first.isNaN_iff_rank.mp hnan
  have hgreat : 0xff800000 < first.rank := by
    rw [rank_eq, if_pos (by omega)] at hrank ⊢
    omega
  intro k hk
  by_cases horder : inOrder keys = true
  · unfold ordered at hfirst
    rw [if_pos horder] at hfirst
    match keys, horder with
    | [], _ => simp at hk
    | [only], _ => simp_all
    | a :: b :: rest, horder =>
        obtain rfl : a = first := by simpa using hfirst
        rw [number_of_inOrder horder] at hnan
        cases hnan
  · have hsorted := rank_sorted keys
    have hk : k ∈ sort keys := (List.mergeSort_perm _ _).mem_iff.mpr hk
    unfold ordered at hfirst
    rw [if_neg horder] at hfirst
    obtain ⟨rest, hrest⟩ := List.head?_eq_some_iff.mp hfirst
    rw [hrest] at hsorted hk
    have hle : first.rank ≤ k.rank := by
      rcases List.mem_cons.mp hk with rfl | hk
      · exact Nat.le_refl _
      · exact (List.pairwise_cons.mp hsorted).1 k hk
    rw [isNaN_iff_rank]
    omega

end Order

end Keyframe

/-! ## Values of curves -/

/-- Keyframes, if a curve has any, have no key left of all numbers, and a number among them unless there is
no key at all. -/
def Curve.Anchored : Curve → Prop
  | .keyframes keys =>
    (∀ k ∈ keys, ¬k.isLeftmost) ∧ (keys = [] ∨ ∃ k ∈ keys, k.x.isNaN = false)
  | _ => True

section Values

variable {c : Curve} {x : Float32}

theorem Curve.evaluate_eq_none_iff :
    c.evaluate x = none ↔
      ∃ keys, c = .keyframes keys ∧ x.isNaN = false ∧ Keyframe.Unbracketed (Keyframe.ordered keys) x := by
  cases c with
  | keyframes keys =>
      have hvalue : (Curve.keyframes keys).evaluate x =
          if x.isNaN then some x else Keyframe.interpolate (Keyframe.ordered keys) x := rfl
      rw [hvalue]
      cases hx : x.isNaN with
      | true => simp
      | false => simp [Keyframe.interpolate_eq_none_iff hx]
  | identity => simp [Curve.evaluate]
  | linear slope intercept => simp [Curve.evaluate]
  | power exponent scale => simp [Curve.evaluate]
  | logistic steepness midpoint => simp [Curve.evaluate]
  | step threshold low high => simp [Curve.evaluate]

theorem Curve.Anchored.evaluate_ne_none (h : c.Anchored) (x : Float32) : c.evaluate x ≠ none := by
  intro hnone
  obtain ⟨keys, rfl, _, hsearch⟩ := Curve.evaluate_eq_none_iff.mp hnone
  obtain ⟨hleftmost, hsome⟩ := h
  obtain ⟨first, hfirst, hnan⟩ := hsearch.first
  rcases Keyframe.leftmost_or_none_number hfirst hnan with ⟨k, hk, hleft⟩ | hall
  · exact hleftmost k hk hleft
  · rcases hsome with rfl | ⟨k, hk, hnumber⟩
    · have hmem := Keyframe.mem_ordered.mp (List.mem_of_head? hfirst)
      simp at hmem
    · rw [hall k hk] at hnumber
      cases hnumber

/-- A curve has a value at every score, except for keyframes of which the search finds no two around the
score.  It finds them if no position lies left of all numbers and some position is a number; a tick
over such curves is never broken off for want of a value. -/
theorem curves_valued_unless_unbracketed {κ τ ρ : Type} [Clock κ τ] [RandomSource ρ] :
    (∀ (c : Curve) (x : Float32), c.evaluate x = none ↔
      ∃ keys, c = .keyframes keys ∧ x.isNaN = false ∧
        Keyframe.Unbracketed (Keyframe.ordered keys) x) ∧
    (∀ c : Curve, c.Anchored → ∀ x, ∃ y, c.evaluate x = some y) ∧
    ∀ g : Graph κ,
      (∀ id n branches, g.node? id = some n → n.behaviour = .utility branches →
        ∀ b ∈ branches, b.curve.Anchored) →
      ∀ s : Session κ τ ρ, (s.perform g .tick).1 ≠ .aborted .noValue := by
  refine ⟨fun c x => Curve.evaluate_eq_none_iff, fun c hc x => ?_, fun g hg s => ?_⟩
  · exact Option.ne_none_iff_exists'.mp (hc.evaluate_ne_none x)
  · have hvalued (id : NodeId) (n : Node κ) (hn : g.node? id = some n) : n.Valued :=
      fun branches hbranches b hb => (hg id n branches hn hbranches b hb).evaluate_ne_none
    exact (Walk.spares_noValue_tick hvalued).response_ne s

end Values

def weighingSteps (curve : Curve) : List (BuildStep Unit) :=
  [.add "weigh" (.utility []) [.branch ⟨.noArgs (pure (.ok 0.5)), curve⟩], .link entryNode ⟨1⟩]

def weighingGraph (curve : Curve) : Graph Unit := .ofSteps (weighingSteps curve)

def weighingStart (curve : Curve) : Session Unit ManualClock Xoshiro :=
  .start (weighingGraph curve) () (ManualClock.mk 0.0) (Xoshiro.ofSeed 0)

theorem weighingGraph_anchored {curve : Curve} (hcurve : curve.Anchored) (id : NodeId) (n : Node Unit)
    (branches : List (Branch Unit)) (hn : (weighingGraph curve).node? id = some n)
    (hbranches : n.behaviour = .utility branches) : ∀ b ∈ branches, b.curve.Anchored := by
  obtain ⟨i⟩ := id
  rcases i with _ | _ | i <;> cases hn
  · cases hbranches
  · cases hbranches
    simpa using hcurve

/-- Keys out of order, the second of which is no number. -/
def raggedKeys : List Keyframe := [⟨0x3f800000, 3.0⟩, ⟨0x7fc00000, 9.0⟩, ⟨0, 1.0⟩]

theorem raggedKeys_anchored : (Curve.keyframes raggedKeys).Anchored := by
  have hleftmost (k : Keyframe) (hk : k ∈ raggedKeys) : ¬k.isLeftmost := by
    simp only [raggedKeys, List.mem_cons, List.not_mem_nil, or_false] at hk
    rcases hk with rfl | rfl | rfl <;> exact fun h => absurd h.2 (by decide)
  exact ⟨hleftmost, .inr ⟨⟨0, 1.0⟩, by simp [raggedKeys], by decide⟩⟩

theorem ragged_valued :
    (Curve.keyframes raggedKeys).Anchored ∧
      (∃ y, (Curve.keyframes raggedKeys).evaluate 0.5 = some y) ∧
      ((weighingStart (.keyframes raggedKeys)).perform (weighingGraph (.keyframes raggedKeys)) .tick).1 ≠
        .aborted .noValue := by
  obtain ⟨_, hvalue, htick⟩ :=
    curves_valued_unless_unbracketed (κ := Unit) (τ := ManualClock) (ρ := Xoshiro)
  exact ⟨raggedKeys_anchored, hvalue _ raggedKeys_anchored 0.5,
    htick _ (weighingGraph_anchored raggedKeys_anchored) _⟩

def lostCurve : Curve := .keyframes [⟨0x7fc00000, 4.0⟩]

/-- It has no value at a number, however it is made, and a tick that weighs by it breaks off. -/
theorem lost_curve_valueless :
    lostCurve.evaluate 1.0 = none ∧ (Curve.ofKeys [⟨0x7fc00000, 4.0⟩]).evaluate 1.0 = none ∧
      (weighingGraph lostCurve).Built ∧
      ((weighingStart lostCurve).perform (weighingGraph lostCurve) .tick).1 = .aborted .noValue :=
  ⟨by decide +kernel, by decide +kernel, ⟨{}, none, weighingSteps lostCurve, by decide, rfl⟩,
    Response.abort?_eq_some.mp (by decide +kernel)⟩

end BehaviourGraph
