import BehaviourGraph.Curve
import BehaviourGraph.Proofs.Halving
import BehaviourGraph.Proofs.Single.Order

/-!
# The order of keys

Keys are tested for order by `≤` on their positions and sorted by rank.  The two orders agree on numbers,
but for the zeros: `≤` does not tell them apart, and in the ranks the one with the sign comes first.
Sorting keeps the keys of one rank as they stood, so it moves nothing that is in order already.
-/

namespace BehaviourGraph

namespace Keyframe

/-! ## Ranks -/

section Ranks

variable {a b : Keyframe}

theorem rank_eq (k : Keyframe) :
    k.rank =
      if k.bits.toNat < 2 ^ 31 then k.bits.toNat + 2 ^ 31 else 2 ^ 32 - 1 - k.bits.toNat :=
  rfl

theorem isNaN_iff_rank (k : Keyframe) :
    k.x.isNaN = true ↔ k.rank < 0x7fffff ∨ 0xff800000 < k.rank := by
  have hbits := k.bits.toNat_lt
  have hnan := isNaN_ofBits_iff k.bits
  unfold unsignedBits infinityCode at hnan
  unfold x
  rw [hnan, rank_eq]
  split <;> omega

theorem place_x {k : Keyframe} (hk : k.x.isNaN = false) :
    place (parts k.x) = if k.bits.toNat < 2 ^ 31 then (k.bits.toNat : ℤ) else 2 ^ 31 - k.bits.toNat :=
  place_ofBits k.bits hk

/-- A key at the zero without a sign, followed by one at the zero with the sign. -/
structure Crossed (a b : Keyframe) : Prop where
  unsigned : a.bits = 0
  signed : b.bits = 0x80000000

theorem le_of_rank_le (ha : a.x.isNaN = false) (hb : b.x.isNaN = false) (h : a.rank ≤ b.rank) :
    a.x ≤ b.x := by
  have hbits := b.bits.toNat_lt
  rw [single_le_iff, place_x ha, place_x hb]
  rw [rank_eq, rank_eq] at h
  refine ⟨ha, hb, ?_⟩
  split at h <;> split at h <;> omega

/-- The zeros are all that the ranks tell apart and `≤` does not. -/
theorem rank_le_or_crossed (h : a.x ≤ b.x) : a.rank ≤ b.rank ∨ Crossed a b := by
  have ha := a.bits.toNat_lt
  have hb := b.bits.toNat_lt
  obtain ⟨hna, hnb, hplaces⟩ := single_le_iff.mp h
  rw [place_x hna, place_x hnb] at hplaces
  rw [rank_eq, rank_eq]
  by_cases hcrossed : a.bits.toNat = 0 ∧ b.bits.toNat = 2 ^ 31
  · exact .inr ⟨UInt32.toNat_inj.mp hcrossed.1, UInt32.toNat_inj.mp hcrossed.2⟩
  · left
    split at hplaces <;> split at hplaces <;> split <;> omega

end Ranks

/-! ## Sorting -/

/-- An arrangement of keys in rising rank that keeps the keys of one rank as they stood. -/
structure StablySorted (keys sorted : List Keyframe) : Prop where
  perm : sorted.Perm keys
  rising : sorted.Pairwise fun a b => a.rank ≤ b.rank
  stable : ∀ r, (sorted.filter fun k => k.rank == r) = keys.filter fun k => k.rank == r

section Sorting

variable {keys sorted : List Keyframe} {k : Keyframe}

theorem rank_trans (a b c : Keyframe) (hab : decide (a.rank ≤ b.rank) = true)
    (hbc : decide (b.rank ≤ c.rank) = true) : decide (a.rank ≤ c.rank) = true := by
  simp only [decide_eq_true_eq] at *
  omega

theorem rank_total (a b : Keyframe) : (decide (a.rank ≤ b.rank) || decide (b.rank ≤ a.rank)) = true := by
  simp only [Bool.or_eq_true, decide_eq_true_eq]
  omega

theorem sort_perm (keys : List Keyframe) : (sort keys).Perm keys :=
  List.mergeSort_perm _ _

theorem rank_sorted (keys : List Keyframe) : (sort keys).Pairwise fun a b => a.rank ≤ b.rank := by
  have hsorted : (sort keys).Pairwise fun a b => decide (a.rank ≤ b.rank) = true :=
    List.pairwise_mergeSort rank_trans rank_total keys
  exact hsorted.imp fun h => decide_eq_true_iff.mp h

theorem sort_eq_self (h : keys.Pairwise fun a b => a.rank ≤ b.rank) : sort keys = keys :=
  List.mergeSort_of_pairwise (h.imp fun h => decide_eq_true h)

/-- Keys that are in order among themselves stay as they are. -/
theorem filter_sort {p : Keyframe → Bool} (h : (keys.filter p).Pairwise fun a b => a.rank ≤ b.rank) :
    (sort keys).filter p = keys.filter p := by
  have hsublist : (keys.filter p).Sublist (sort keys) :=
    List.sublist_mergeSort rank_trans rank_total (h.imp fun h => decide_eq_true h) List.filter_sublist
  have hkept := hsublist.filter p
  rw [List.filter_filter] at hkept
  simp only [Bool.and_self] at hkept
  exact (hkept.eq_of_length ((sort_perm keys).filter p).length_eq.symm).symm

theorem stablySorted_sort (keys : List Keyframe) : StablySorted keys (sort keys) where
  perm := sort_perm keys
  rising := rank_sorted keys
  stable r := by
    refine filter_sort ((List.pairwise_of_forall_mem_list fun a ha b hb => ?_))
    have ha := (List.mem_filter.mp ha).2
    have hb := (List.mem_filter.mp hb).2
    rw [beq_iff_eq] at ha hb
    omega

theorem ordered_perm (keys : List Keyframe) : (ordered keys).Perm keys := by
  unfold ordered
  split
  · exact List.Perm.refl keys
  · exact sort_perm keys

theorem mem_ordered : k ∈ ordered keys ↔ k ∈ keys :=
  (ordered_perm keys).mem_iff

/-- Sorted keys are searched as they are. -/
theorem ordered_sort (keys : List Keyframe) : ordered (sort keys) = sort keys := by
  unfold ordered
  split
  · rfl
  · exact sort_eq_self (rank_sorted keys)

end Sorting

/-! ## Keys in order -/

section InOrder

variable {keys : List Keyframe}

theorem inOrder_iff : inOrder keys = true ↔ keys.Pairwise fun a b => a.x ≤ b.x := by
  fun_induction inOrder keys with
  | case1 a b rest ih =>
      rw [Bool.and_eq_true, decide_eq_true_iff, ih, List.pairwise_cons (a := a)]
      constructor
      · rintro ⟨hab, hrest⟩
        refine ⟨fun c hc => ?_, hrest⟩
        rcases List.mem_cons.mp hc with rfl | hc
        · exact hab
        · exact single_le_trans hab ((List.pairwise_cons.mp hrest).1 c hc)
      · rintro ⟨ha, hrest⟩
        exact ⟨ha b List.mem_cons_self, hrest⟩
  | case2 keys hshort =>
      match keys with
      | [] => simp
      | [only] => simp
      | a :: b :: rest => exact (hshort a b rest rfl).elim

theorem ordered_of_inOrder (h : keys.Pairwise fun a b => a.x ≤ b.x) : ordered keys = keys :=
  if_pos (inOrder_iff.mpr h)

theorem ordered_of_disorder (h : ¬keys.Pairwise fun a b => a.x ≤ b.x) : ordered keys = sort keys :=
  if_neg fun hin => h (inOrder_iff.mp hin)

/-- Keys in order are numbers, unless there is only one. -/
theorem number_of_inOrder {first second : Keyframe} {rest : List Keyframe}
    (h : inOrder (first :: second :: rest) = true) : first.x.isNaN = false := by
  simp only [inOrder, Bool.and_eq_true, decide_eq_true_eq] at h
  exact (single_le_iff.mp h.1).1

theorem inOrder_of_rising (hnumbers : ∀ k ∈ keys, k.x.isNaN = false)
    (h : keys.Pairwise fun a b => a.rank ≤ b.rank) : keys.Pairwise fun a b => a.x ≤ b.x :=
  h.imp_of_mem fun ha hb hranks => le_of_rank_le (hnumbers _ ha) (hnumbers _ hb) hranks

/-- Numbers are searched in the order of their positions. -/
theorem pairwise_ordered (hnumbers : ∀ k ∈ keys, k.x.isNaN = false) :
    (ordered keys).Pairwise fun a b => a.x ≤ b.x := by
  by_cases h : keys.Pairwise fun a b => a.x ≤ b.x
  · rwa [ordered_of_inOrder h]
  · rw [ordered_of_disorder h]
    exact inOrder_of_rising (fun k hk => hnumbers k ((sort_perm keys).mem_iff.mp hk)) (rank_sorted keys)

end InOrder

end Keyframe

end BehaviourGraph
