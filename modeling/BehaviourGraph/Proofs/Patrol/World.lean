import BehaviourGraph.Patrol.Sentry

/-!
# What the sentry and the corridor keep

`Lawful` is what holds of the corridor whenever a step begins: the sentry stays inside, the magazine never
holds too much, and the counters account for every intruder and for every round.  `Sound` adds what an
induction needs.  Each move of the sentry and of the world keeps it, and only an arrival changes how many
intruders there have been.
-/

namespace BehaviourGraph.Patrol

/-- How far away an intruder is that has come closer for some steps. -/
def approach : Nat → Float32
  | 0 => spawnRange
  | steps + 1 => approach steps - intruderSpeed

def approachSteps : Nat := 24

theorem approach_within :
    ∀ steps < approachSteps, ¬approach steps ≤ 0.0 ∧ 0.0 < approach steps ∧ approach steps ≤ spawnRange := by
  decide +kernel

theorem approach_arrived : approach approachSteps ≤ 0.0 := by decide +kernel

namespace Sentry

def hits (s : Sentry) : Nat := s.intruder.elim 0 fun i => intruderHealth.toNat - i.health.toNat

/-- The bounds of the corridor and of the magazine, and the accounts of intruders and rounds. -/
structure Lawful (spawned : Nat) (s : Sentry) : Prop where
  position_nonneg : 0 ≤ s.position
  position_lt : s.position < corridorLength
  heading : s.heading = 1 ∨ s.heading = -1
  ammo_le : s.ammo ≤ magazine
  health : ∀ i, s.intruder = some i → 1 ≤ i.health ∧ i.health ≤ intruderHealth
  distance : ∀ i, s.intruder = some i → 0.0 < i.distance ∧ i.distance ≤ spawnRange
  spawned_eq : spawned = s.kills.toNat + s.breaches.toNat + if s.intruder.isSome then 1 else 0
  le_shots : 3 * s.kills.toNat ≤ s.shots.toNat
  shots_le : s.shots.toNat ≤ 3 * s.kills.toNat + 2 * s.breaches.toNat + s.hits

/-- A lawful corridor whose intruder has come by steps, and whose rounds have hit what they have hit. -/
structure Sound (spawned : Nat) (s : Sentry) : Prop extends Lawful spawned s where
  approaching : ∀ i, s.intruder = some i → ∃ steps < approachSteps, i.distance = approach steps
  hits_le_shots : 3 * s.kills.toNat + s.hits ≤ s.shots.toNat

variable {spawned : Nat} {s s' : Sentry}

theorem sound_new : Sound 0 {} where
  position_nonneg := by decide
  position_lt := by decide
  heading := .inl rfl
  ammo_le := by decide
  health := nofun
  distance := nofun
  spawned_eq := rfl
  le_shots := Nat.le_refl 0
  shots_le := Nat.le_refl 0
  approaching := nofun
  hits_le_shots := Nat.le_refl 0

theorem Sound.glance (h : s.Sound spawned) : s.glance.Sound spawned := { h with }

theorem min_le_magazine (rounds : UInt32) : min rounds magazine ≤ magazine := by
  by_cases h : rounds ≤ magazine
  · rwa [show min rounds magazine = rounds from if_pos h]
  · rw [show min rounds magazine = magazine from if_neg h]
    exact UInt32.le_refl magazine

theorem Sound.loadRound (h : s.Sound spawned) : s.loadRound.Sound spawned :=
  { h with ammo_le := min_le_magazine _ }

/-! ## Pacing up and down -/

theorem toInt_ahead {position heading : Int32} (hlow : 0 ≤ position) (hhigh : position < corridorLength)
    (hheading : heading = 1 ∨ heading = -1) :
    (position + heading).toInt = position.toInt + heading.toInt := by
  rw [Int32.le_iff_toInt_le] at hlow
  rw [Int32.lt_iff_toInt_lt] at hhigh
  have hzero : (0 : Int32).toInt = 0 := rfl
  have hlength : corridorLength.toInt = 20 := rfl
  have hstep : heading.toInt = 1 ∨ heading.toInt = -1 := by
    rcases hheading with rfl | rfl
    · exact .inl rfl
    · exact .inr rfl
  rw [Int32.toInt_add]
  apply Int.bmod_eq_of_le <;> omega

/-- A pace stays inside the corridor, because the sentry turns round at its ends. -/
theorem walk_inside (hlow : 0 ≤ s.position) (hhigh : s.position < corridorLength)
    (hheading : s.heading = 1 ∨ s.heading = -1) :
    0 ≤ s.walk.position ∧ s.walk.position < corridorLength ∧
      (s.walk.heading = 1 ∨ s.walk.heading = -1) := by
  have hahead := toInt_ahead hlow hhigh hheading
  by_cases hinside : 0 ≤ s.position + s.heading ∧ s.position + s.heading < corridorLength
  · have hkeep : s.walk = { s with position := s.position + s.heading } := by
      simp [walk, hinside.1, hinside.2]
    rw [hkeep]
    exact ⟨hinside.1, hinside.2, hheading⟩
  · have hturn : s.walk = { s with heading := -s.heading, position := s.position + -s.heading } := by
      have hfalse : (decide (0 ≤ s.position + s.heading) &&
          decide (s.position + s.heading < corridorLength)) = false := by simpa using hinside
      simp [walk, hfalse]
    have hback : -s.heading = 1 ∨ -s.heading = -1 := by
      rcases hheading with h | h
      · exact .inr (by rw [h])
      · exact .inl (by rw [h]; rfl)
    have hbehind := toInt_ahead hlow hhigh hback
    rw [hturn]
    simp only [Int32.le_iff_toInt_le, Int32.lt_iff_toInt_lt, hahead, hbehind] at *
    have hzero : (0 : Int32).toInt = 0 := rfl
    have hlength : corridorLength.toInt = 20 := rfl
    refine ⟨?_, ?_, hback⟩
    all_goals
      rcases hheading with h | h
      · rw [h] at hinside ⊢
        have hone : (1 : Int32).toInt = 1 := rfl
        have hminus : (-(1 : Int32)).toInt = -1 := rfl
        omega
      · rw [h] at hinside ⊢
        have hone : (-(-1 : Int32)).toInt = 1 := rfl
        have hminus : (-1 : Int32).toInt = -1 := rfl
        omega

theorem Sound.walk (h : s.Sound spawned) : s.walk.Sound spawned := by
  obtain ⟨hlow, hhigh, hheading⟩ := walk_inside h.position_nonneg h.position_lt h.heading
  exact { h with position_nonneg := hlow, position_lt := hhigh, heading := hheading }

/-! ## Firing -/

/-- A shot takes a round out of the magazine and either wounds the intruder or kills it. -/
theorem fire_cases (h : s.fire = .ok s') :
    s.ammo ≠ 0 ∧ ∃ i, s.intruder = some i ∧
      (i.health ≤ 1 ∧
          s' = { s with ammo := s.ammo - 1, shots := s.shots + 1, intruder := none, kills := s.kills + 1 } ∨
        1 < i.health ∧
          s' = { s with
            ammo := s.ammo - 1, shots := s.shots + 1,
            intruder := some { i with health := i.health - 1 } }) := by
  unfold fire at h
  split at h
  next => cases h
  next hammo =>
    split at h
    next => cases h
    next i hi =>
      refine ⟨hammo, i, hi, ?_⟩
      have hsmall : (if i.health = 0 then 0 else i.health - 1) = 0 ↔ i.health ≤ 1 := by
        split <;> grind
      simp only [hsmall] at h
      by_cases hlast : i.health ≤ 1
      · rw [if_pos hlast] at h
        exact .inl ⟨hlast, (Except.ok.inj h).symm⟩
      · rw [if_neg hlast, if_neg fun hzero => hlast (by rw [hzero]; decide)] at h
        exact .inr ⟨UInt32.not_le.mp hlast, (Except.ok.inj h).symm⟩

theorem toNat_count {count : UInt32} (h : count.toNat + 1 < UInt32.size) :
    (count + 1).toNat = count.toNat + 1 := by
  rw [UInt32.toNat_add]
  exact Nat.mod_eq_of_lt h

theorem toNat_spend {rounds : UInt32} (h : 1 ≤ rounds) : (rounds - 1).toNat = rounds.toNat - 1 :=
  UInt32.toNat_sub_of_le rounds 1 h

theorem hits_of_present {i : Intruder} (hi : s.intruder = some i) : s.hits = 3 - i.health.toNat := by
  unfold hits
  rw [hi]
  rfl

theorem one_le_ammo (h : s.ammo ≠ 0) : 1 ≤ s.ammo := by
  have hpos : 0 < s.ammo := UInt32.pos_iff_ne_zero.mpr h
  rw [UInt32.lt_iff_toNat_lt] at hpos
  exact UInt32.le_iff_toNat_le.mpr hpos

theorem spend_le_magazine (hammo : s.ammo ≠ 0) (h : s.ammo ≤ magazine) : s.ammo - 1 ≤ magazine := by
  rw [UInt32.le_iff_toNat_le, toNat_spend (one_le_ammo hammo)]
  rw [UInt32.le_iff_toNat_le] at h
  omega

section Shots

variable {i : Intruder} (h : s.Sound spawned) (hi : s.intruder = some i)
include h hi

/-- With an intruder in the corridor there is one more than have been killed or have come through, and
the rounds that have hit it are accounted for. -/
theorem Sound.accounts_present :
    spawned = s.kills.toNat + s.breaches.toNat + 1 ∧ 1 ≤ i.health.toNat ∧ i.health.toNat ≤ 3 ∧
      3 * s.kills.toNat + (3 - i.health.toNat) ≤ s.shots.toNat ∧
      s.shots.toNat ≤ 3 * s.kills.toNat + 2 * s.breaches.toNat + (3 - i.health.toNat) := by
  obtain ⟨hleast, hmost⟩ := h.health i hi
  have hspawned := h.spawned_eq
  have hlow := h.hits_le_shots
  have hhigh := h.shots_le
  rw [hi, Option.isSome_some, if_pos rfl] at hspawned
  rw [hits_of_present hi] at hlow hhigh
  exact ⟨hspawned, UInt32.le_iff_toNat_le.mp hleast, UInt32.le_iff_toNat_le.mp hmost, hlow, hhigh⟩

variable (hroom : 3 * spawned < UInt32.size) (hammo : s.ammo ≠ 0)
include hroom hammo

theorem Sound.killed (hlast : i.health ≤ 1) :
    Sound spawned { s with
      ammo := s.ammo - 1, shots := s.shots + 1, intruder := none, kills := s.kills + 1 } := by
  obtain ⟨hspawned, hleast, hmost, hlow, hhigh⟩ := h.accounts_present hi
  have hone : i.health.toNat ≤ 1 := UInt32.le_iff_toNat_le.mp hlast
  have hkill : (s.kills + 1).toNat = s.kills.toNat + 1 := toNat_count (by omega)
  have hshot : (s.shots + 1).toNat = s.shots.toNat + 1 := toNat_count (by omega)
  exact { h with
    ammo_le := spend_le_magazine hammo h.ammo_le
    health := nofun
    distance := nofun
    spawned_eq := by
      show spawned = (s.kills + 1).toNat + s.breaches.toNat + 0
      omega
    le_shots := by
      show 3 * (s.kills + 1).toNat ≤ (s.shots + 1).toNat
      omega
    shots_le := by
      show (s.shots + 1).toNat ≤ 3 * (s.kills + 1).toNat + 2 * s.breaches.toNat + 0
      omega
    approaching := nofun
    hits_le_shots := by
      show 3 * (s.kills + 1).toNat + 0 ≤ (s.shots + 1).toNat
      omega }

theorem Sound.wounded (hmore : 1 < i.health) :
    Sound spawned { s with
      ammo := s.ammo - 1, shots := s.shots + 1,
      intruder := some { i with health := i.health - 1 } } := by
  obtain ⟨hspawned, hleast, hmost, hlow, hhigh⟩ := h.accounts_present hi
  have hone : 1 < i.health.toNat := UInt32.lt_iff_toNat_lt.mp hmore
  have hwound : (i.health - 1).toNat = i.health.toNat - 1 :=
    toNat_spend (UInt32.le_iff_toNat_le.mpr hleast)
  have hshot : (s.shots + 1).toNat = s.shots.toNat + 1 := toNat_count (by omega)
  have hthree : intruderHealth.toNat = 3 := rfl
  exact { h with
    ammo_le := spend_le_magazine hammo h.ammo_le
    health := by
      rintro _ ⟨⟩
      rw [UInt32.le_iff_toNat_le, UInt32.le_iff_toNat_le]
      show 1 ≤ (i.health - 1).toNat ∧ (i.health - 1).toNat ≤ 3
      omega
    distance := by
      rintro _ ⟨⟩
      exact h.distance i hi
    spawned_eq := hspawned
    le_shots := by
      show 3 * s.kills.toNat ≤ (s.shots + 1).toNat
      omega
    shots_le := by
      show (s.shots + 1).toNat ≤ 3 * s.kills.toNat + 2 * s.breaches.toNat + (3 - (i.health - 1).toNat)
      omega
    approaching := by
      rintro _ ⟨⟩
      exact h.approaching i hi
    hits_le_shots := by
      show 3 * s.kills.toNat + (3 - (i.health - 1).toNat) ≤ (s.shots + 1).toNat
      omega }

end Shots

/-- The counters have room for one more shot as long as not too many intruders have come. -/
theorem Sound.fire (h : s.Sound spawned) (hroom : 3 * spawned < UInt32.size) (hfire : s.fire = .ok s') :
    s'.Sound spawned := by
  obtain ⟨hammo, i, hi, hcases⟩ := fire_cases hfire
  rcases hcases with ⟨hlast, rfl⟩ | ⟨hmore, rfl⟩
  · exact h.killed hi hroom hammo hlast
  · exact h.wounded hi hroom hammo hmore

/-! ## The world's own moves -/

/-- In a step the intruder comes closer or has arrived, or one appears in a clear corridor. -/
theorem advance_cases (step : Nat) (s : Sentry) :
    (∃ i, s.intruder = some i ∧
      (i.distance - intruderSpeed ≤ 0.0 ∧
          s.advance step = (.breached, { s with intruder := none, breaches := s.breaches + 1 }) ∨
        ¬i.distance - intruderSpeed ≤ 0.0 ∧
          s.advance step =
            (.nothing, { s with intruder := some { i with distance := i.distance - intruderSpeed } }))) ∨
    s.intruder = none ∧
      (step % spawnEvery = 0 ∧
          s.advance step = (.spotted, { s with intruder := some ⟨spawnRange, intruderHealth⟩ }) ∨
        s.advance step = (.nothing, s)) := by
  unfold advance
  cases hi : s.intruder with
  | some i =>
      by_cases harrived : i.distance - intruderSpeed ≤ 0.0
      · exact .inl ⟨i, rfl, .inl ⟨harrived, by simp [harrived]⟩⟩
      · exact .inl ⟨i, rfl, .inr ⟨harrived, by simp [harrived]⟩⟩
  | none =>
      by_cases hspawn : step % spawnEvery = 0
      · exact .inr ⟨rfl, .inl ⟨hspawn, by simp [hspawn]⟩⟩
      · exact .inr ⟨rfl, .inr (by simp [hspawn])⟩

theorem Sound.breached {i : Intruder} (h : s.Sound spawned) (hi : s.intruder = some i)
    (hroom : 3 * spawned < UInt32.size) :
    Sound spawned { s with intruder := none, breaches := s.breaches + 1 } := by
  obtain ⟨hspawned, hleast, hmost, hlow, hhigh⟩ := h.accounts_present hi
  have hbreach : (s.breaches + 1).toNat = s.breaches.toNat + 1 := toNat_count (by omega)
  exact { h with
    health := nofun
    distance := nofun
    spawned_eq := by
      show spawned = s.kills.toNat + (s.breaches + 1).toNat + 0
      omega
    shots_le := by
      show s.shots.toNat ≤ 3 * s.kills.toNat + 2 * (s.breaches + 1).toNat + 0
      omega
    approaching := nofun
    hits_le_shots := h.le_shots }

theorem Sound.approached {i : Intruder} (h : s.Sound spawned) (hi : s.intruder = some i)
    (hfar : ¬i.distance - intruderSpeed ≤ 0.0) :
    Sound spawned { s with intruder := some { i with distance := i.distance - intruderSpeed } } := by
  obtain ⟨steps, hsteps, hdistance⟩ := h.approaching i hi
  have hnext : i.distance - intruderSpeed = approach (steps + 1) := by rw [hdistance]; rfl
  have hlater : steps + 1 < approachSteps := by
    by_cases hlast : steps + 1 = approachSteps
    · rw [hnext, hlast] at hfar
      exact (hfar approach_arrived).elim
    · omega
  have hsame := hits_of_present hi
  have hspawned := h.spawned_eq
  rw [hi] at hspawned
  exact { h with
    health := by
      rintro _ ⟨⟩
      exact h.health i hi
    distance := by
      rintro _ ⟨⟩
      show 0.0 < i.distance - intruderSpeed ∧ i.distance - intruderSpeed ≤ spawnRange
      rw [hnext]
      exact (approach_within _ hlater).2
    spawned_eq := hspawned
    shots_le := by
      have hhigh := h.shots_le
      rwa [hsame] at hhigh
    approaching := by
      rintro _ ⟨⟩
      exact ⟨steps + 1, hlater, hnext⟩
    hits_le_shots := by
      have hlow := h.hits_le_shots
      rwa [hsame] at hlow }

theorem Sound.spotted (h : s.Sound spawned) (hclear : s.intruder = none) :
    Sound (spawned + 1) { s with intruder := some ⟨spawnRange, intruderHealth⟩ } := by
  have hspawned := h.spawned_eq
  have hhigh := h.shots_le
  rw [hclear] at hspawned
  have hnone : s.hits = 0 := by rw [hits, hclear]; rfl
  rw [hnone] at hhigh
  exact { h with
    health := by
      rintro _ ⟨⟩
      exact ⟨by decide, UInt32.le_refl _⟩
    distance := by
      rintro _ ⟨⟩
      exact (approach_within 0 (by decide)).2
    spawned_eq := congrArg (· + 1) hspawned
    shots_le := hhigh
    approaching := by
      rintro _ ⟨⟩
      exact ⟨0, by decide, rfl⟩
    hits_le_shots := h.le_shots }

/-- What a step brings keeps the corridor sound, with one intruder more if one appears. -/
theorem Sound.advance (h : s.Sound spawned) (hroom : 3 * spawned < UInt32.size) (step : Nat) :
    (s.advance step).2.Sound (spawned + if (s.advance step).1 = .spotted then 1 else 0) := by
  rcases advance_cases step s with ⟨i, hi, ⟨_, hmove⟩ | ⟨hfar, hmove⟩⟩ | ⟨hclear, ⟨_, hmove⟩ | hmove⟩
  · rw [hmove]
    exact h.breached hi hroom
  · rw [hmove]
    exact h.approached hi hfar
  · rw [hmove]
    exact h.spotted hclear
  · rw [hmove]
    exact h

/-- Intruders appear at the multiples of one number only. -/
theorem step_of_spotted {step : Nat} (h : (s.advance step).1 = .spotted) : step % spawnEvery = 0 := by
  rcases advance_cases step s with ⟨i, hi, ⟨_, hmove⟩ | ⟨_, hmove⟩⟩ | ⟨_, ⟨hspawn, _⟩ | hmove⟩
  · rw [hmove] at h
    cases h
  · rw [hmove] at h
    cases h
  · exact hspawn
  · rw [hmove] at h
    cases h

end Sentry

end BehaviourGraph.Patrol
