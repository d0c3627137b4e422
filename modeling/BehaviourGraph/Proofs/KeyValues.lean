import BehaviourGraph.Proofs.Bracketing
import BehaviourGraph.Proofs.Single.Difference
import BehaviourGraph.Proofs.Single.Scientific

/-!
# Values at the keys

At the position of a key a curve has the key's value: the line to the next key rises by zero there.  Only
where the next key is too close for a line is the value that of the next key instead, unless the key is the
first one.
-/

namespace BehaviourGraph

open Float.Model

/-! ## Lines between keys -/

/-- The bound on the values of keys is a mantissa and an exponent. -/
theorem parts_bound : parts 1e30 = .finite .positive 13234890 76 (by decide) := by
  have hbits : (1e30 : Float32) = .ofBits (.ofNat 0x7149f2ca) := by decide +kernel
  obtain ⟨hmagnitude, hcode⟩ := magnitude_ofBits (c := 0x7149f2ca) (by decide)
  have hstored : Stored 13234890 76 := ⟨by decide, by decide, by decide, .inr (by decide)⟩
  rw [hbits]
  exact hmagnitude.eq_of_code ⟨.finite (by decide) hstored, nofun⟩ hcode

/-- Bounded values differ by a finite float. -/
theorem isFinite_sub_of_bounded {x y : Float32} (hx : x.abs ≤ 1e30) (hy : y.abs ≤ 1e30) :
    (x - y).isFinite = true := by
  have hbound := measures_of_parts parts_bound
  obtain ⟨p, hp, hple⟩ := valued_of_abs_le hbound hx
  obtain ⟨q, hq, hqle⟩ := valued_of_abs_le hbound hy
  have hdouble : Unsigned (.finite .positive 13234890 77 (by decide)) (2 * (13234890 * 2 ^ (76 : ℤ))) := by
    have hvalue : (2 : ℚ) * (13234890 * 2 ^ (76 : ℤ)) = (13234890 : ℕ) * 2 ^ (77 : ℤ) := by norm_num
    rw [hvalue]
    exact .finite _ ⟨by decide, by decide, by decide, .inr (by decide)⟩
  exact isFinite_sub hp hq (by exact_mod_cast hple) (by exact_mod_cast hqle) hdouble

theorem isFinite_of_bounded {x : Float32} (hx : x.abs ≤ 1e30) : x.isFinite = true := by
  obtain ⟨p, hp, _⟩ := valued_of_abs_le (measures_of_parts parts_bound) hx
  exact hp.isFinite

namespace Keyframe

/-- The line between two keys starts at the value of the left one. -/
theorem between_start {a b : Keyframe} (ha : a.x.isFinite = true) (hb : b.x.isFinite = true)
    (hya : a.y.abs ≤ 1e30) (hyb : b.y.abs ≤ 1e30) (hspan : ¬b.x - a.x ≤ leastSpan) :
    (between a b a.x == a.y) = true := by
  have hrise : Vanishes ((b.y - a.y) * (a.x - a.x)) :=
    .mul (isFinite_sub_of_bounded hyb hya) ⟨_, parts_sub_self ha⟩
  have hnumber := isNaN_sub hb ha
  have hwide : ¬Vanishes (b.x - a.x) := fun ⟨s, hs⟩ => by
    refine hspan (single_le_iff.mpr ⟨hnumber, by decide, ?_⟩)
    rw [hs]
    show (0 : ℤ) ≤ place (parts leastSpan)
    decide
  unfold between
  rw [if_neg hspan]
  exact (hrise.div hnumber hwide).add_beq (isFinite_of_bounded hya)

/-- Keys at different finite positions, with values of bounded size. -/
structure Settled (keys : List Keyframe) : Prop where
  finite : ∀ k ∈ keys, k.x.isFinite = true
  distinct : keys.Pairwise fun a b => (a.x == b.x) = false
  bounded : ∀ k ∈ keys, k.y.abs ≤ 1e30

/-- A key between others, with the next one right of it too close for a line. -/
structure Overstepped (keys : List Keyframe) (k next : Keyframe) : Prop where
  inner : ∃ before ∈ keys, before.x < k.x
  mem : next ∈ keys
  lt : k.x < next.x
  nearest : ∀ other ∈ keys, k.x < other.x → next.x ≤ other.x
  close : next.x - k.x ≤ leastSpan

section Settled

variable {keys front rest : List Keyframe} {k next : Keyframe}

theorem Settled.numbers (h : Settled keys) (k : Keyframe) (hk : k ∈ keys) : k.x.isNaN = false :=
  single_isNaN_of_isFinite (h.finite k hk)

/-- Different positions in order are in strict order. -/
theorem Settled.strict (h : Settled keys) : (ordered keys).Pairwise fun a b => a.x < b.x := by
  have hdistinct : (ordered keys).Pairwise fun a b => (a.x == b.x) = false := by
    have hsymm : ∀ {a b : Keyframe}, (a.x == b.x) = false → (b.x == a.x) = false := by
      intro a b hab
      rw [Bool.eq_false_iff, ne_eq, single_beq_iff] at hab ⊢
      exact fun hba => hab ⟨hba.2.1, hba.1, hba.2.2.symm⟩
    exact ((ordered_perm keys).pairwise_iff hsymm).mpr h.distinct
  refine ((pairwise_ordered h.numbers).and hdistinct).imp fun {a b} hab => ?_
  obtain ⟨hle, hne⟩ := hab
  obtain ⟨ha, hb, hplaces⟩ := single_le_iff.mp hle
  refine single_lt_iff.mpr ⟨ha, hb, lt_of_le_of_ne hplaces fun heq => ?_⟩
  rw [single_beq_iff.mpr ⟨ha, hb, heq⟩] at hne
  cases hne

/-- Among keys in strict order, those up to a key's position are the key and the ones before it. -/
theorem interpolate_at_key (hstrict : (front ++ k :: rest).Pairwise fun a b => a.x < b.x)
    (hk : k.x.isNaN = false) :
    interpolate (front ++ k :: rest) k.x =
      if front = [] then some k.y else bridge k.x (some k) rest.head? := by
  obtain ⟨_, hbehind, hcross⟩ := List.pairwise_append.mp hstrict
  have hbefore (a : Keyframe) (ha : a ∈ front) : a.x < k.x := hcross a ha k List.mem_cons_self
  have hafter (b : Keyframe) (hb : b ∈ rest) : k.x < b.x := (List.pairwise_cons.mp hbehind).1 b hb
  have hin : (front ++ k :: rest).Pairwise fun a b => a.x ≤ b.x := hstrict.imp single_le_of_lt
  cases front with
  | nil =>
      rw [if_pos rfl, List.nil_append, interpolate_of_left]
      · rfl
      · intro b hb
        rcases List.mem_cons.mp hb with rfl | hb
        · exact single_le_refl hk
        · exact single_le_of_lt (hafter b hb)
  | cons first others =>
      have hupto (a : Keyframe) (ha : a ∈ first :: others ++ [k]) : a.x ≤ k.x := by
        rcases List.mem_append.mp ha with ha | ha
        · exact single_le_of_lt (hbefore a ha)
        · rw [List.mem_singleton.mp ha]
          exact single_le_refl hk
      have hbeyond (b : Keyframe) (hb : b ∈ rest) : ¬b.x ≤ k.x :=
        (not_single_le (single_lt_iff.mp (hafter b hb)).2.1 hk).mpr (hafter b hb)
      rw [if_neg (List.cons_ne_nil _ _), interpolate_of_not_left hin List.mem_cons_self
        (hbefore first List.mem_cons_self), List.append_cons, leftKeys_append hupto hbeyond,
        rightKeys_append hupto hbeyond, List.getLast?_concat]

/-- An overstepped key is not the first in order, and the key that oversteps it comes right behind it. -/
theorem Settled.overstepped_iff (h : Settled keys) (hsplit : ordered keys = front ++ k :: rest) :
    Overstepped keys k next ↔ front ≠ [] ∧ rest.head? = some next ∧ next.x - k.x ≤ leastSpan := by
  have hstrict := h.strict
  rw [hsplit] at hstrict
  obtain ⟨_, hbehind, hcross⟩ := List.pairwise_append.mp hstrict
  obtain ⟨hafter, hrest⟩ := List.pairwise_cons.mp hbehind
  have hmem (a : Keyframe) : a ∈ keys ↔ a ∈ front ∨ a = k ∨ a ∈ rest := by
    rw [← mem_ordered, hsplit, List.mem_append, List.mem_cons]
  have hright {a : Keyframe} (ha : a ∈ keys) (hlt : k.x < a.x) : a ∈ rest := by
    rcases (hmem a).mp ha with ha | rfl | ha
    · exact (single_lt_asymm hlt (hcross a ha k List.mem_cons_self)).elim
    · exact (single_lt_asymm hlt hlt).elim
    · exact ha
  constructor
  · intro hover
    refine ⟨?_, ?_, hover.close⟩
    · rintro rfl
      obtain ⟨before, hbefore, hlt⟩ := hover.inner
      rcases (hmem before).mp hbefore with hnone | rfl | hlate
      · cases hnone
      · exact single_lt_asymm hlt hlt
      · exact single_lt_asymm hlt (hafter before hlate)
    · have hnext := hright hover.mem hover.lt
      cases rest with
      | nil => cases hnext
      | cons first others =>
          have hfirst := hover.nearest first ((hmem first).mpr (.inr (.inr List.mem_cons_self)))
            (hafter first List.mem_cons_self)
          rcases List.mem_cons.mp hnext with rfl | hlate
          · rfl
          · have hlt := (List.pairwise_cons.mp hrest).1 next hlate
            have hnumbers := single_lt_iff.mp hlt
            exact ((not_single_le hnumbers.2.1 hnumbers.1).mpr hlt hfirst).elim
  · rintro ⟨hfront, hhead, hclose⟩
    obtain ⟨others, rfl⟩ := List.head?_eq_some_iff.mp hhead
    obtain ⟨before, hbefore⟩ := List.exists_mem_of_ne_nil front hfront
    refine ⟨⟨before, (hmem before).mpr (.inl hbefore), hcross before hbefore k List.mem_cons_self⟩,
      (hmem next).mpr (.inr (.inr List.mem_cons_self)), hafter next List.mem_cons_self, ?_, hclose⟩
    intro other hother hlt
    rcases List.mem_cons.mp (hright hother hlt) with rfl | hlate
    · exact single_le_refl (single_lt_iff.mp hlt).2.1
    · exact single_le_of_lt ((List.pairwise_cons.mp hrest).1 other hlate)

theorem Settled.evaluate_eq (h : Settled keys) (hk : k ∈ keys)
    (hsplit : ordered keys = front ++ k :: rest) :
    (Curve.keyframes keys).evaluate k.x =
      if front = [] then some k.y else bridge k.x (some k) rest.head? := by
  have hstrict := h.strict
  rw [hsplit] at hstrict
  rw [Curve.evaluate_keyframes (h.numbers k hk), hsplit, interpolate_at_key hstrict (h.numbers k hk)]

end Settled

end Keyframe

open Keyframe in
/-- Keys at different finite positions, with values of bounded size, have their values at their positions,
except that an overstepped key has that of the next one. -/
theorem evaluate_at_key {keys : List Keyframe} (h : Settled keys) {k : Keyframe} (hk : k ∈ keys) :
    (∀ next, Overstepped keys k next → (Curve.keyframes keys).evaluate k.x = some next.y) ∧
      ((¬∃ next, Overstepped keys k next) →
        ∃ y, (Curve.keyframes keys).evaluate k.x = some y ∧ (y == k.y) = true) := by
  obtain ⟨front, rest, hsplit⟩ := List.append_of_mem (mem_ordered.mpr hk)
  rw [h.evaluate_eq hk hsplit]
  have hself : (k.y == k.y) = true :=
    single_beq_refl (single_isNaN_of_isFinite (isFinite_of_bounded (h.bounded k hk)))
  constructor
  · intro next hover
    obtain ⟨hfront, hnext, hclose⟩ := (h.overstepped_iff hsplit).mp hover
    rw [if_neg hfront, hnext, bridge, between, if_pos hclose]
  · intro hnone
    by_cases hfront : front = []
    · exact ⟨k.y, if_pos hfront, hself⟩
    rw [if_neg hfront]
    cases hnext : rest.head? with
    | none => exact ⟨k.y, rfl, hself⟩
    | some next =>
        have hmem : next ∈ keys := by
          rw [← mem_ordered, hsplit]
          exact List.mem_append_right _ (List.mem_cons_of_mem _ (List.mem_of_head? hnext))
        have hwide : ¬next.x - k.x ≤ leastSpan := fun hclose =>
          hnone ⟨next, (h.overstepped_iff hsplit).mpr ⟨hfront, hnext, hclose⟩⟩
        exact ⟨_, rfl, between_start (h.finite k hk) (h.finite next hmem) (h.bounded k hk)
          (h.bounded next hmem) hwide⟩

def spreadKeys : List Keyframe := [⟨0x3f800000, 3.0⟩, ⟨0, 1.0⟩, ⟨0x3f000000, 2.0⟩]

theorem spreadKeys_settled : Keyframe.Settled spreadKeys :=
  ⟨by decide, by decide, by decide +kernel⟩

theorem spread_at_key :
    Keyframe.Settled spreadKeys ∧ ⟨0x3f000000, 2.0⟩ ∈ spreadKeys ∧
      (¬∃ next, Keyframe.Overstepped spreadKeys ⟨0x3f000000, 2.0⟩ next) ∧
      ∃ y, (Curve.keyframes spreadKeys).evaluate 0.5 = some y ∧ (y == 2.0) = true := by
  have hmem : ⟨0x3f000000, 2.0⟩ ∈ spreadKeys := by simp [spreadKeys]
  have hnone : ¬∃ next, Keyframe.Overstepped spreadKeys ⟨0x3f000000, 2.0⟩ next := by
    rintro ⟨next, hover⟩
    have hnext := hover.mem
    simp only [spreadKeys, List.mem_cons, List.not_mem_nil, or_false] at hnext
    rcases hnext with rfl | rfl | rfl
    · exact absurd hover.close (by decide)
    · exact absurd hover.lt (by decide)
    · exact absurd hover.lt (by decide)
  exact ⟨spreadKeys_settled, hmem, hnone, (evaluate_at_key spreadKeys_settled hmem).2 hnone⟩

/-- Keys whose distances are too small for a line. -/
def tightKeys : List Keyframe := [⟨0, 0.0⟩, ⟨0x32800000, 1.0⟩, ⟨0x33000000, 2.0⟩]

/-- At the key in the middle the value is that of the last. -/
theorem tight_key_overstepped :
    Keyframe.Settled tightKeys ∧ ⟨0x32800000, 1.0⟩ ∈ tightKeys ∧
      (Curve.keyframes tightKeys).evaluate (.ofBits 0x32800000) = some 2.0 ∧
      ((2.0 : Float32) == 1.0) = false :=
  ⟨⟨by decide, by decide, by decide +kernel⟩, by simp [tightKeys], by decide +kernel, by decide⟩

end BehaviourGraph
