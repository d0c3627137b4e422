import BehaviourGraph.Proofs.Connections
import BehaviourGraph.Proofs.Single.Arithmetic
import BehaviourGraph.Proofs.Walk.Calculus

/-!
# Sampling of windows

The seeded source scales a fraction to the width of a window.  The scale is the greatest one for which
the greatest fraction stays inside the window, so all fractions do.  Only a window whose scale is too
great for a single float cannot be sampled; such a window suits cooldowns, but no probabilities.
-/

namespace BehaviourGraph

open Float.Model

namespace Xoshiro

/-! ## Fractions -/

theorem measures_greatestFraction : Measures greatestFraction ((16777214 : ℕ) * 2 ^ (-24 : ℤ)) := by
  have hparts : parts greatestFraction = .finite .positive 16777214 (-24) (by decide) := by rfl
  exact measures_of_parts hparts

theorem measures_one : Measures 1.0 ((8388608 : ℕ) * 2 ^ (-23 : ℤ)) := by
  have hparts : parts 1.0 = .finite .positive 8388608 (-23) (by decide) := by rfl
  exact measures_of_parts hparts

/-- The greatest fraction is drawn from the greatest word. -/
theorem greatestFraction_eq : greatestFraction = .ofBits (.ofNat 0x3fffffff) - 1.0 := by decide

/-- A fraction is drawn as the mantissa of a number that is at least one and below two. -/
theorem toNat_fractionBits (word : UInt32) :
    ((word >>> 9) ||| 0x3f800000).toNat = 0x3f800000 + word.toNat / 2 ^ 9 := by
  have hword : word.toNat / 2 ^ 9 < 2 ^ 23 := by
    have := word.toNat_lt
    omega
  have hor := Nat.two_pow_add_eq_or_of_lt hword 127
  rw [UInt32.toNat_or, UInt32.toNat_shiftRight, Nat.shiftRight_eq_div_pow, Nat.or_comm]
  exact hor.symm

theorem measures_fraction (word : UInt32) :
    ∃ a, Measures (fraction word) a ∧ a ≤ (16777214 : ℕ) * 2 ^ (-24 : ℤ) := by
  obtain ⟨c, hc⟩ : ∃ c, c = 0x3f800000 + word.toNat / 2 ^ 9 := ⟨_, rfl⟩
  have hlast : c ≤ 0x3fffffff := by
    have := word.toNat_lt
    omega
  have hbits : (word >>> 9) ||| 0x3f800000 = .ofNat c := by
    rw [hc, ← toNat_fractionBits, UInt32.ofNat_toNat]
  obtain ⟨p, hp, hcode⟩ := measures_ofBits (show c < infinityCode by unfold infinityCode; omega)
  obtain ⟨q, hq, hcode'⟩ := measures_ofBits (show 0x3fffffff < infinityCode by decide)
  have hone : (8388608 : ℕ) * 2 ^ (-23 : ℤ) ≤ p :=
    measures_one.number.value_le hp.number (by rw [hcode, hc]; exact Nat.le_add_right _ _)
  have hpq : p ≤ q := hp.number.value_le hq.number (by rwa [hcode, hcode'])
  have hfraction : Rounded (p - (8388608 : ℕ) * 2 ^ (-23 : ℤ)) (parts (fraction word)) := by
    unfold fraction
    rw [hbits]
    exact hp.sub measures_one.number hone
  have hgreatest : Rounded (q - (8388608 : ℕ) * 2 ^ (-23 : ℤ)) (parts greatestFraction) := by
    rw [greatestFraction_eq]
    exact hq.sub measures_one.number (hone.trans hpq)
  -- the value of a difference is not known, but differences are in the order of the exact ones
  have hle := hfraction.code_le hgreatest (by linarith)
  obtain ⟨a, ha⟩ := hfraction.unsigned (hle.trans_lt measures_greatestFraction.number.code_lt)
  exact ⟨a, ha, ha.number.value_le measures_greatestFraction.number hle⟩

/-! ## Scales -/

section Scale

variable {lo hi fitted : Float32} {l h : ℚ}

theorem greatestFraction_le_one : ((16777214 : ℕ) * 2 ^ (-24 : ℤ) : ℚ) ≤ 1 := by norm_num

/-- Where the greatest fraction of a scale fits, every fraction does. -/
theorem drawn_between (hlo : Number (parts lo) l) (hhi : Number (parts hi) h) {b : ℚ}
    (hfitted : Measures fitted b) (hfits : ¬hi < fitted * greatestFraction + lo) (word : UInt32) :
    lo ≤ fraction word * fitted + lo ∧ fraction word * fitted + lo ≤ hi := by
  obtain ⟨a, ha, hle⟩ := measures_fraction word
  have hb := hfitted.number.value_nonneg
  have hproduct := ha.mul hfitted
  have hgreatest := hfitted.mul measures_greatestFraction
  obtain ⟨r, hr, _⟩ := hproduct.measures_of_le hfitted
    (mul_le_of_le_one_left hb (hle.trans greatestFraction_le_one))
  obtain ⟨r', hr', _⟩ := hgreatest.measures_of_le hfitted
    (mul_le_of_le_one_right hb greatestFraction_le_one)
  have hordered : r ≤ r' := by
    refine hr.number.value_le hr'.number (hproduct.code_le hgreatest ?_)
    rw [mul_comm]
    exact mul_le_mul_of_nonneg_left hle hb
  -- the draw is compared with the lower bound itself, and with the greatest draw, which is known to fit
  have hdrawn := hr.add hlo
  have hlast := hr'.add hlo
  have hnonneg := hr.number.value_nonneg
  rw [lt_iff_code hhi.nonnegative hlast.magnitude.nonnegative, not_lt] at hfits
  constructor
  · rw [le_iff_code hlo.nonnegative hdrawn.magnitude.nonnegative]
    exact hlo.rounds.mono hdrawn.rounds (by linarith)
  · rw [le_iff_code hdrawn.magnitude.nonnegative hhi.nonnegative]
    exact (hdrawn.code_le hlast (by linarith)).trans hfits

/-- The scale that is fitted to a window is a number, and its greatest fraction fits. -/
theorem fitScale_fits (hlo : Number (parts lo) l) (hhi : Number (parts hi) h) (hle : lo ≤ hi) {bits : ℕ}
    (hbits : bits < infinityCode) :
    (∃ b, Measures (fitScale lo hi bits) b) ∧
      ¬hi < fitScale lo hi bits * greatestFraction + lo := by
  induction bits with
  | zero =>
      have hzero : Measures 0.0 0 := .zero
      obtain ⟨r, hr, hr0⟩ := (hzero.mul measures_greatestFraction).measures_of_le hzero (zero_mul _).le
      have hlast := hr.add hlo
      refine ⟨⟨0, hzero⟩, ?_⟩
      rw [le_iff_code hlo.nonnegative hhi.nonnegative] at hle
      show ¬hi < 0.0 * greatestFraction + lo
      rw [lt_iff_code hhi.nonnegative hlast.magnitude.nonnegative, not_lt]
      exact (hlast.rounds.mono hlo.rounds (by linarith)).trans hle
  | succ bits ih =>
      unfold fitScale
      dsimp only
      split
      next => exact ih (by omega)
      next hfits =>
        obtain ⟨b, hb, _⟩ := measures_ofBits hbits
        exact ⟨⟨b, hb⟩, hfits⟩

/-- The width of a window, whose bounds may be zeros of either sign. -/
theorem width_rounds (hlo : Number (parts lo) l) (hhi : Number (parts hi) h) (hle : l ≤ h) :
    Nonnegative (parts (hi - lo)) ∧ RoundsTo (h - l) (code (parts (hi - lo))) := by
  by_cases hsign : parts hi = .zero .negative
  · have hdifference :
        parts (hi - lo) = stored (UnpackedFloat.sub .binary32 (parts hi) (parts lo)) := rfl
    rw [hdifference, hsign]
    rw [hsign] at hhi
    cases hhi
    generalize parts lo = u at hlo
    cases hlo with
    | zero s =>
        rw [sub_zero]
        cases s with
        | positive => exact ⟨.zero .negative, rounds_zero⟩
        | negative => exact ⟨.zero .positive, rounds_zero⟩
    | @finite m e hm hstored =>
        have hpos : (0 : ℚ) < m * 2 ^ e := by positivity
        exact absurd hle hpos.not_ge
  · have hwidth := Measures.sub (hhi.unsigned hsign) hlo hle
    exact ⟨hwidth.magnitude.nonnegative, hwidth.rounds⟩

/-- The least width of a window that is too great for a scale. -/
def widthLimit : Float32 := .ofBits 0x7f7ffffe

theorem measures_widthLimit : ∃ q, Measures widthLimit q ∧ code (parts widthLimit) = 0x7f7ffffe :=
  measures_ofBits (c := 0x7f7ffffe) (by decide)

theorem scale_rounded (hlo : Number (parts lo) l) (hhi : Measures hi h) (hle : l ≤ h) :
    ∃ d, Measures (hi - lo) d ∧
      Rounded (d / ((16777214 : ℕ) * 2 ^ (-24 : ℤ))) (parts ((hi - lo) / greatestFraction)) := by
  have hnonneg := hlo.value_nonneg
  obtain ⟨d, hd, _⟩ := (hhi.sub hlo hle).measures_of_le hhi (by linarith)
  exact ⟨d, hd, hd.div measures_greatestFraction.number (by norm_num)⟩

theorem scale_isFinite_iff (hlo : Number (parts lo) l) (hhi : Measures hi h) (hle : l ≤ h) :
    ((hi - lo) / greatestFraction).isFinite = true ↔ hi - lo < widthLimit := by
  obtain ⟨d, hd, hscale⟩ := scale_rounded hlo hhi hle
  obtain ⟨p, hp, hcode⟩ := measures_ofBits (show 0x7f7ffffd < infinityCode by decide)
  obtain ⟨q, hq, hcode'⟩ := measures_widthLimit
  have hscale' := hp.div measures_greatestFraction.number (by norm_num)
  have hscale'' := hq.div measures_greatestFraction.number (by norm_num)
  have hfinite := (isFinite_iff_code hscale'.magnitude.nonnegative).mp (by decide)
  have hinfinite := mt (isFinite_iff_code hscale''.magnitude.nonnegative).mpr (by decide)
  rw [isFinite_iff_code hscale.magnitude.nonnegative,
    lt_iff_code hd.number.nonnegative hq.number.nonnegative, hcode']
  constructor
  · intro hlt
    by_contra hge
    have hwide : q ≤ d := hq.number.value_le hd.number (by omega)
    exact hinfinite ((hscale''.code_le hscale (by gcongr)).trans_lt hlt)
  · intro hlt
    have hnarrow : d ≤ p := hd.number.value_le hp.number (by omega)
    exact (hscale.code_le hscale' (by gcongr)).trans_lt hfinite

end Scale

/-! ## Draws -/

section Draws

variable {lo hi : Float32} {l h : ℚ}

theorem range_eq (hlo : Number (parts lo) l) (hhi : Number (parts hi) h) (x : Xoshiro) :
    range lo hi x =
      if hi ≤ lo then some (lo, x)
      else if ((hi - lo) / greatestFraction).isFinite then
        some (fraction x.next32.1 * fitScale lo hi ((hi - lo) / greatestFraction).toBits.toNat + lo,
          x.next32.2)
      else none := by
  have hlofinite := (isFinite_iff_code hlo.nonnegative).mpr hlo.code_lt
  have hhifinite := (isFinite_iff_code hhi.nonnegative).mpr hhi.code_lt
  unfold range
  simp only [hlofinite, hhifinite, Bool.not_true, Bool.false_or, decide_eq_true_eq]

/-- A window that is not empty has no negative zero as its greatest value. -/
theorem measures_of_lt (hlo : Number (parts lo) l) (hhi : Number (parts hi) h) (hlt : ¬hi ≤ lo) :
    Measures hi h := by
  refine hhi.unsigned fun hsign => hlt ?_
  rw [le_iff_code hhi.nonnegative hlo.nonnegative, hsign]
  exact Nat.zero_le _

theorem range_narrow (hlo : Number (parts lo) l) (hhi : Number (parts hi) h) (hle : lo ≤ hi)
    (hnarrow : hi - lo < widthLimit) (x : Xoshiro) :
    ∃ v x', range lo hi x = some (v, x') ∧ lo ≤ v ∧ v ≤ hi := by
  rw [range_eq hlo hhi]
  by_cases hempty : hi ≤ lo
  · rw [if_pos hempty]
    refine ⟨lo, x, rfl, ?_, hle⟩
    rw [le_iff_code hlo.nonnegative hlo.nonnegative]
  · have hhi' := measures_of_lt hlo hhi hempty
    have hvalue : l ≤ h := hlo.value_le hhi ((le_iff_code hlo.nonnegative hhi.nonnegative).mp hle)
    obtain ⟨d, _, hscale⟩ := scale_rounded hlo hhi' hvalue
    have hfinite := (scale_isFinite_iff hlo hhi' hvalue).mpr hnarrow
    have hbits : ((hi - lo) / greatestFraction).toBits.toNat < infinityCode := by
      rw [code_eq_toBits hscale.magnitude]
      exact (isFinite_iff_code hscale.magnitude.nonnegative).mp hfinite
    obtain ⟨⟨b, hb⟩, hfits⟩ := fitScale_fits hlo hhi hle hbits
    rw [if_neg hempty, if_pos hfinite]
    exact ⟨_, _, rfl, drawn_between hlo hhi hb hfits _⟩

theorem range_wide (hlo : Number (parts lo) l) (hhi : Number (parts hi) h) (hle : lo ≤ hi)
    (hwide : ¬hi - lo < widthLimit) (x : Xoshiro) : range lo hi x = none := by
  have hvalue : l ≤ h := hlo.value_le hhi ((le_iff_code hlo.nonnegative hhi.nonnegative).mp hle)
  obtain ⟨hwidth, hrounds⟩ := width_rounds hlo hhi hvalue
  obtain ⟨q, hq, hcode⟩ := measures_widthLimit
  rw [range_eq hlo hhi]
  have hempty : ¬hi ≤ lo := fun hempty => by
    rw [le_iff_code hhi.nonnegative hlo.nonnegative] at hempty
    have hnone := hrounds.mono rounds_zero (sub_nonpos.mpr (hhi.value_le hlo hempty))
    refine hwide ((lt_iff_code hwidth hq.number.nonnegative).mpr ?_)
    omega
  have hscale := mt (scale_isFinite_iff hlo (measures_of_lt hlo hhi hempty) hvalue).mp hwide
  rw [if_neg hempty, if_neg hscale]

end Draws

end Xoshiro

/-! ## Windows -/

section Windows

variable {w : Window} {use : WindowUse}

/-- The bounds of a window that suits its use are finite, not negative, and in order. -/
theorem Window.bounds_of_suits (h : w.suits use = true) :
    (∃ l, Number (parts w.min) l) ∧ (∃ h, Number (parts w.max) h) ∧ w.min ≤ w.max ∧
      w.max ≤ use.limit := by
  simp only [Window.suits, Bool.and_eq_true, decide_eq_true_eq] at h
  obtain ⟨⟨⟨⟨hminfinite, hmaxfinite⟩, hpos⟩, hle⟩, hlimit⟩ := h
  have hmin := nonnegative_of_le (x := 0.0) (.zero .positive) hpos
  have hmax := nonnegative_of_le hmin hle
  exact ⟨hmin.number ((isFinite_iff_code hmin).mp hminfinite),
    hmax.number ((isFinite_iff_code hmax).mp hmaxfinite), hle, hlimit⟩

/-- A window of percentages is never too wide. -/
theorem Window.narrow_of_probability (h : w.suits .probability = true) :
    w.max - w.min < Xoshiro.widthLimit := by
  obtain ⟨⟨l, hl⟩, ⟨h, hh⟩, hle, hlimit⟩ := Window.bounds_of_suits h
  have hvalue : l ≤ h := hl.value_le hh ((le_iff_code hl.nonnegative hh.nonnegative).mp hle)
  obtain ⟨hwidth, hrounds⟩ := Xoshiro.width_rounds hl hh hvalue
  obtain ⟨q, hq, hcode⟩ := Xoshiro.measures_widthLimit
  have hparts : parts percentMax = .finite .positive 13107200 (-17) (by decide) := by rfl
  have hpercent := (measures_of_parts hparts).number
  have hnonneg := hl.value_nonneg
  rw [lt_iff_code hwidth hq.number.nonnegative, hcode]
  calc code (parts (w.max - w.min)) ≤ code (parts w.max) := hrounds.mono hh.rounds (by linarith)
    _ ≤ code (parts percentMax) := (le_iff_code hh.nonnegative hpercent.nonnegative).mp hlimit
    _ < 0x7f7ffffe := by decide

theorem Window.sample_narrow (h : w.suits use = true) (hnarrow : w.max - w.min < Xoshiro.widthLimit)
    (x : Xoshiro) : ∃ v x', w.sample x = some (v, x') ∧ w.min ≤ v ∧ v ≤ w.max := by
  obtain ⟨⟨l, hl⟩, ⟨h, hh⟩, hle, _⟩ := Window.bounds_of_suits h
  exact Xoshiro.range_narrow hl hh hle hnarrow x

theorem Window.sample_wide (h : w.suits use = true) (hwide : ¬w.max - w.min < Xoshiro.widthLimit)
    (x : Xoshiro) : w.sample x = none := by
  obtain ⟨⟨l, hl⟩, ⟨h, hh⟩, hle, _⟩ := Window.bounds_of_suits h
  exact Xoshiro.range_wide hl hh hle hwide x

end Windows

/-! ## Gates -/

section Gates

variable {κ τ : Type} {t : Transition κ} {s : Session κ τ Xoshiro}

theorem leads_draw_narrow {w : Window} {use : WindowUse} (h : w.suits use = true)
    (hnarrow : w.max - w.min < Xoshiro.widthLimit) {ends : Float32 → Session κ τ Xoshiro → Prop}
    {breaks : Session κ τ Xoshiro → Prop} (id : TransitionId) (hends : ∀ v s, ends v s) :
    (Walk.draw id w.min w.max).Leads s ends breaks := by
  obtain ⟨v, x', hdrawn, _⟩ := Window.sample_narrow h hnarrow s.random
  unfold Walk.Leads Walk.draw
  rw [show RandomSource.range w.min w.max s.random = some (v, x') from hdrawn]
  exact hends v _

/-- The gates of a transition whose windows have been checked never break a walk off, unless its cooldown
is too wide. -/
theorem leads_rollGates_narrow [Clock κ τ] (hsuitable : t.Suitable)
    (hnarrow : t.cooldown.max - t.cooldown.min < Xoshiro.widthLimit) (id : TransitionId) :
    (Walk.rollGates id t : Walk κ τ Xoshiro Bool).Leads s (fun _ _ => True) fun _ => False := by
  have hpercent : (⟨0.0, percentMax⟩ : Window).suits .probability = true := by decide
  have hchance (s : Session κ τ Xoshiro) :
      (Walk.rollGates.passesChance id t : Walk κ τ Xoshiro Bool).Leads s (fun _ _ => True)
        fun _ => False := by
    unfold Walk.rollGates.passesChance
    split
    · trivial
    · rw [Walk.leads_bind]
      have hsuits := hsuitable.probability
      refine leads_draw_narrow hsuits (Window.narrow_of_probability hsuits) id fun threshold s => ?_
      rw [Walk.leads_bind]
      exact leads_draw_narrow hpercent (Window.narrow_of_probability hpercent) id fun drawn s => trivial
  unfold Walk.rollGates
  rw [Walk.leads_bind, Walk.leads_readClock, Walk.leads_bind, Walk.leads_get]
  split
  · trivial
  rw [Walk.leads_bind]
  refine (hchance _).imp (fun passes s _ => ?_) fun _ hbreaks => hbreaks
  split
  · trivial
  split
  · trivial
  · rw [Walk.leads_bind]
    exact leads_draw_narrow hsuitable.cooldown hnarrow id fun sample s => trivial

/-- Whatever has been drawn before, a window that has been checked gives a value between its bounds, and
a transition of a built graph rolls its gates to the end.  The exception are windows that are too wide:
they suit cooldowns, and cannot be sampled at all. -/
theorem checked_windows_sampled [Clock κ τ] :
    (∀ (w : Window) (use : WindowUse), w.validate use = .ok () → ∀ x : Xoshiro,
      (use = .probability ∨ w.max - w.min < Xoshiro.widthLimit →
        ∃ v x', w.sample x = some (v, x') ∧ w.min ≤ v ∧ v ≤ w.max) ∧
      (¬w.max - w.min < Xoshiro.widthLimit → w.sample x = none)) ∧
    ∀ g : Graph κ, g.Built → ∀ (id : TransitionId) (t : Transition κ), g.transition? id = some t →
      t.cooldown.max - t.cooldown.min < Xoshiro.widthLimit → ∀ s : Session κ τ Xoshiro,
        (Walk.rollGates id t : Walk κ τ Xoshiro Bool).Leads s (fun _ _ => True) fun _ => False := by
  refine ⟨fun w use hw x => ?_, fun g hg id t ht hnarrow s =>
    leads_rollGates_narrow (hg.suitable ht) hnarrow id⟩
  have hsuits : w.suits use = true := Window.validate_eq_ok_iff.mp hw
  refine ⟨fun hnarrow => Window.sample_narrow hsuits ?_ x,
    fun hwide => Window.sample_wide hsuits hwide x⟩
  rcases hnarrow with rfl | hnarrow
  · exact Window.narrow_of_probability hsuits
  · exact hnarrow

def pausingSteps (cooldown : Window) : List (BuildStep Unit) :=
  [.add "action" (.action (.noArgs (pure (.ok ())))) [], .connect entryNode .out ⟨1⟩ { cooldown }]

def pausingGraph (cooldown : Window) : Graph Unit := .ofSteps (pausingSteps cooldown)

theorem pause_sampled :
    ((∃ v x', (⟨1.5, 2.5⟩ : Window).sample (Xoshiro.ofSeed 7) = some (v, x') ∧ 1.5 ≤ v ∧ v ≤ 2.5) ∧
      ∀ s : Session Unit ManualClock Xoshiro,
        (Walk.rollGates ⟨0⟩ { start := entryNode, port := .out, finish := ⟨1⟩, cooldown := ⟨1.5, 2.5⟩ } :
          Walk Unit ManualClock Xoshiro Bool).Leads s (fun _ _ => True) fun _ => False) := by
  have hbuilt : (pausingGraph ⟨1.5, 2.5⟩).Built := ⟨{}, none, pausingSteps ⟨1.5, 2.5⟩, by decide, rfl⟩
  obtain ⟨hsampled, hfired⟩ := checked_windows_sampled (κ := Unit) (τ := ManualClock)
  exact ⟨(hsampled ⟨1.5, 2.5⟩ .cooldown (Window.validate_eq_ok_iff.mpr (by decide)) _).1 (.inr (by decide)),
    hfired _ hbuilt ⟨0⟩ _ rfl (by decide)⟩

/-- The widest window that suits cooldowns. -/
def widestPause : Window := ⟨0.0, .ofBits 0x7f7fffff⟩

/-- The widest window is accepted, but it cannot be sampled, and the tick that reaches it breaks off. -/
theorem widest_pause_unsampled :
    widestPause.validate .cooldown = .ok () ∧ widestPause.sample (Xoshiro.ofSeed 0) = none ∧
      (pausingGraph widestPause).Built ∧
      ((Session.start (pausingGraph widestPause) () (ManualClock.mk 0.0) (Xoshiro.ofSeed 0)).perform
        (pausingGraph widestPause) .tick).1 = .aborted .noDraw :=
  ⟨Window.validate_eq_ok_iff.mpr (by decide), by decide +kernel,
    ⟨{}, none, pausingSteps widestPause, by decide, rfl⟩, rfl⟩

end Gates

end BehaviourGraph
