import BehaviourGraph.Proofs.Patrol.Posts

/-!
# Firing against reloading

The sentry's utility scores firing by a sigmoid of the rounds in the magazine and reloading by the rounds
that are missing.  With an empty magazine reloading has the full score of one, and all that has to be known
of the sigmoid is that the exponential of one lies between two and three.
-/

namespace BehaviourGraph.Patrol

open BehaviourGraph (Walk)

/-! ## The sigmoid -/

theorem measures_whole {x : Float32} {m : ℕ} {e : ℤ} {q : ℚ} (hm : 0 < m)
    (h : parts x = .finite .positive m e hm) (hvalue : (m : ℚ) * 2 ^ e = q) : Measures x q :=
  hvalue ▸ measures_of_parts h

theorem measures_half : Measures 0.5 (1 / 2) :=
  measures_whole (m := 8388608) (e := -24) (by decide) rfl (by norm_num)

/-- The reciprocal of what is a good deal more than one is less than one. -/
theorem reciprocal_lt_one {x : Float32} (hlow : 2.0 ≤ x) (hhigh : x ≤ 3.0) : 1.0 / (1.0 + x) < 1.0 := by
  have hone : Measures 1.0 1 := measures_whole (m := 8388608) (e := -23) (by decide) rfl (by norm_num)
  have htwo : Measures 2.0 2 := measures_whole (m := 8388608) (e := -22) (by decide) rfl (by norm_num)
  have hthree : Measures 3.0 3 :=
    measures_whole (m := 12582912) (e := -22) (by decide) rfl (by norm_num)
  have hfour : Measures 4.0 4 := measures_whole (m := 8388608) (e := -21) (by decide) rfl (by norm_num)
  have hx := nonnegative_of_le htwo.number.nonnegative hlow
  have hcode := (le_iff_code hx hthree.number.nonnegative).mp hhigh
  obtain ⟨q, hq⟩ := hx.number (hcode.trans_lt hthree.number.code_lt)
  have hq2 : 2 ≤ q := htwo.number.value_le hq ((le_iff_code htwo.number.nonnegative hx).mp hlow)
  have hq3 : q ≤ 3 := hq.value_le hthree.number hcode
  have hsum := hone.add hq
  obtain ⟨r, hr, _⟩ := hsum.measures_of_le hfour (by linarith)
  have hr3 : 3 ≤ r := hthree.number.value_le hr.number (hthree.rounded.code_le hsum (by linarith))
  have hquotient := hone.div hr.number (by linarith)
  have hsmall : 1 / r ≤ 1 / 2 := one_div_le_one_div_of_le (by norm_num) (by linarith)
  have hhalf := hquotient.code_le measures_half.rounded hsmall
  rw [lt_iff_code hquotient.magnitude.nonnegative hone.number.nonnegative]
  exact hhalf.trans_lt (by decide)

theorem exp_one_bounds : 2.0 ≤ Platform.exp 1.0 ∧ Platform.exp 1.0 ≤ 3.0 := by decide +kernel

/-! ## The choice -/

/-- What the utility finds best with some rounds in the magazine. -/
def weigh [Platform] (ammo : UInt32) : Option (Nat × Float32) :=
  Walk.better
    (Walk.better none 0 (1.0 / (1.0 + Platform.exp (-2.0 * (ammo.toFloat32 - 0.5)))))
    1 (0.25 * (magazine - ammo).toFloat32 + 0.0)

theorem better_of_lt {low high : Float32} (hnumber : high.isNaN = false) (hlt : low < high) :
    Walk.better (Walk.better none 0 low) 1 high = some (1, high) := by
  unfold Walk.better
  rw [hnumber]
  cases low.isNaN with
  | true => rfl
  | false => simp [hlt]

/-- An empty magazine is reloaded, not fired. -/
theorem weigh_empty [Platform] (hexp : 2.0 ≤ Platform.exp 1.0 ∧ Platform.exp 1.0 ≤ 3.0) :
    weigh 0 = some (1, 1.0) := by
  have hmargin : -2.0 * ((0 : UInt32).toFloat32 - 0.5) = 1.0 := by decide +kernel
  have hfull : 0.25 * (magazine - 0).toFloat32 + 0.0 = 1.0 := by decide +kernel
  unfold weigh
  rw [hmargin, hfull]
  exact better_of_lt (by decide) (reciprocal_lt_one hexp.1 hexp.2)

theorem leads_choose_respond [Platform] {τ ρ : Type} {s : Session Sentry τ ρ}
    {ends : Option Port → Session Sentry τ ρ → Prop} {breaks : Session Sentry τ ρ → Prop} :
    (Walk.choose Post.respond.node Post.respond.asNode).Leads s ends breaks ↔
      ends ((weigh s.context.ammo).map fun best => .branch best.1)
        ((s.record (.called (.scorer Post.respond.node 0) s.context s.context .returned)).record
          (.called (.scorer Post.respond.node 1) s.context s.context .returned)) :=
  Iff.rfl

end BehaviourGraph.Patrol
