import BehaviourGraph.Proofs.Patrol.Guard
import BehaviourGraph.Proofs.Patrol.World

/-!
# What every patrol keeps

A patrol is a sequence of steps of the host: the world moves, the graph is ticked, a kill brings a hand-off
to reloading, and the clock advances.  `Manned` is what holds between the requests of a patrol.  Each part
of a step keeps it, so it holds where every step begins and where the patrol ends, also if it ends early.
-/

namespace BehaviourGraph.Patrol

def Entry.tellsArrival (e : Entry) : Bool :=
  e.writer = .patrol && e.line.message = "intruder spotted at the far end"

/-! ## Requests of a patrol -/

section Requests

variable {K : Sentry → Prop} {s : Session Sentry StepClock Xoshiro}

structure Disciplined (K : Sentry → Prop) (s : Session Sentry StepClock Xoshiro) : Prop extends OnPost K s where
  aimed : ∀ e ∈ s.journal, Aimed e

/-- A reset hands control to the entry, and the hook leaves the corridor as it is. -/
theorem Disciplined.perform_reset [Platform] (h : Disciplined K s) (config : Config) :
    ∃ s', s.perform (sentryGraph config) .reset = (.done, s') ∧ Disciplined K s' := by
  have hswitched := h.switchTo (g := sentryGraph config) (.inl rfl)
  have hjournal : ∀ e ∈ (s.switchTo (sentryGraph config) entryNode).journal, Aimed e := by
    intro e he
    unfold Session.switchTo at he
    dsimp only at he
    split at he
    next => exact h.aimed e he
    next =>
      rcases Array.mem_push.mp he with hearlier | rfl
      · exact h.aimed e hearlier
      · trivial
  refine ⟨_, rfl, { hswitched with aimed := fun e he => ?_ }⟩
  rcases Array.mem_push.mp he with he | rfl
  · rcases Array.mem_push.mp he with he | rfl
    · exact hjournal e he
    · trivial
  · trivial

theorem Disciplined.perform_resumeAt [Platform] (h : Disciplined K s) (config : Config) (due : Float) :
    Disciplined K (s.perform (sentryGraph config) (.resumeAt Post.reloading.node due)).2 := by
  have hnode : (sentryGraph config).hasElement (.node Post.reloading.node) = true := rfl
  simp only [Session.perform, Session.provided, hnode, if_true]
  split
  next =>
    refine { h with scheduled := fun e he => ?_ }
    simp only [Session.change, ResumeQueue.push, List.mem_append, List.mem_cons] at he
    rcases he with hfront | rfl | hback
    · exact h.scheduled e (List.mem_of_mem_take hfront)
    · rfl
    · exact h.scheduled e (List.mem_of_mem_drop hback)
  next => exact h

theorem Disciplined.perform_tick [Platform] (hexp : 2.0 ≤ Platform.exp 1.0 ∧ Platform.exp 1.0 ≤ 3.0)
    (h : Disciplined K s) (hK : Kept K) (config : Config) :
    ∃ s', s.perform (sentryGraph config) .tick = (.done, s') ∧ Disciplined K s' := by
  obtain ⟨s', hdone, hguard⟩ := h.toOnPost.perform_tick hexp hK config
  obtain ⟨events, hjournal, horderly⟩ := hguard.orderly
  refine ⟨s', hdone, { hguard.toOnPost with aimed := fun e he => ?_ }⟩
  rw [← Array.mem_toList_iff, hjournal, List.mem_append, Array.mem_toList_iff] at he
  exact he.elim (h.aimed e) (horderly.aimed e)

end Requests

namespace Watch

def arrivals (w : Watch) : Nat := w.log.countP Entry.tellsArrival

/-- What a part of a patrol leads to, if it ends and if it breaks off. -/
def Leads {α : Type} (d : Duty α) (w : Watch) (ends : α → Watch → Prop) (breaks : Watch → Prop) : Prop :=
  match d w with
  | .ok a w => ends a w
  | .error _ w => breaks w

section Leads

variable {α β : Type} {w : Watch} {ends ends' : α → Watch → Prop} {breaks breaks' : Watch → Prop}

theorem Leads.imp {d : Duty α} (h : Leads d w ends breaks) (he : ∀ a w, ends a w → ends' a w)
    (hb : ∀ w, breaks w → breaks' w) : Leads d w ends' breaks' := by
  unfold Leads at h ⊢
  split
  next a w' hd =>
    rw [hd] at h
    exact he a w' h
  next cause w' hd =>
    rw [hd] at h
    exact hb w' h

@[simp] theorem leads_bind (d : Duty β) (f : β → Duty α) :
    Leads (d >>= f) w ends breaks ↔ Leads d w (fun b w => Leads (f b) w ends breaks) breaks := by
  simp only [Leads, bind, EStateM.bind]
  cases d w <;> rfl

@[simp] theorem leads_get {ends : Watch → Watch → Prop} :
    Leads (get : Duty Watch) w ends breaks ↔ ends w w := Iff.rfl

@[simp] theorem leads_set {ends : PUnit → Watch → Prop} (w' : Watch) :
    Leads (set w' : Duty PUnit) w ends breaks ↔ ends ⟨⟩ w' := Iff.rfl

@[simp] theorem leads_write {ends : Unit → Watch → Prop} (level : Level) (message : String)
    (fields : List (String × LogValue)) :
    Leads (write level message fields) w ends breaks ↔
      ends () { w with log := w.log.push ⟨.patrol, level, message, fields⟩ } := Iff.rfl

end Leads

/-- What holds of a patrol between its requests, with the number of intruders that have come so far. -/
structure Manned (K : Sentry → Prop) (arrived : Nat) (w : Watch) : Prop where
  onPost : OnPost K w.session
  silent : w.session.journal = #[]
  aimed : ∀ e ∈ w.journal, Aimed e
  arrivals_eq : w.arrivals = arrived

theorem Manned.disciplined {K : Sentry → Prop} {arrived : Nat} {w : Watch} (h : w.Manned K arrived) :
    Disciplined K w.session where
  toOnPost := h.onPost
  aimed e he := by simp [h.silent] at he

theorem tellsArrival_entryOf {event : Event Sentry} {entry : Entry} (h : entryOf event = some entry) :
    entry.tellsArrival = false := by
  unfold entryOf at h
  split at h
  next =>
    cases h
    rfl
  next =>
    split at h
    · cases h
      rfl
    · split at h
      · cases h
        rfl
      · split at h
        · cases h
          rfl
        · cases h
  next =>
    cases h
    rfl
  next => cases h

theorem countP_logged (log : Array Entry) (news : Array (Event Sentry)) :
    (log ++ news.filterMap entryOf).countP Entry.tellsArrival = log.countP Entry.tellsArrival := by
  have hnone : (news.filterMap entryOf).countP Entry.tellsArrival = 0 := by
    rw [Array.countP_eq_zero]
    intro entry hentry
    obtain ⟨event, _, hevent⟩ := Array.mem_filterMap.mp hentry
    simp [tellsArrival_entryOf hevent]
  rw [Array.countP_append, hnone, Nat.add_zero]

section Requests

variable {K : Sentry → Prop} {arrived : Nat} {w : Watch} {g : Graph Sentry}

/-- What a request keeps of the session, the patrol keeps. -/
theorem Manned.leads_perform [Platform] (h : w.Manned K arrived) {operation : Operation}
    (hkept : Disciplined K (w.session.perform g operation).2) :
    Leads (perform g operation) w (fun _ => Manned K arrived) (Manned K arrived) := by
  have hmanned : Manned K arrived
      ⟨{ (w.session.perform g operation).2 with journal := #[] },
        w.journal ++ (w.session.perform g operation).2.journal,
        w.log ++ (w.session.perform g operation).2.journal.filterMap entryOf⟩ :=
    { onPost := { hkept.toOnPost with }
      silent := rfl
      aimed := fun e he => (Array.mem_append.mp he).elim (h.aimed e) (hkept.aimed e)
      arrivals_eq := (countP_logged _ _).trans h.arrivals_eq }
  unfold Leads perform
  cases hresponse : (w.session.perform g operation).1 <;> simp only [hresponse] <;> exact hmanned

/-- A request that is done does not end the patrol. -/
theorem Manned.leads_done [Platform] (h : w.Manned K arrived) {operation : Operation}
    {s : Session Sentry StepClock Xoshiro}
    (hdone : w.session.perform g operation = (.done, s)) (hkept : Disciplined K s) :
    Leads (perform g operation) w (fun _ => Manned K arrived) fun _ => False := by
  have hafter : Disciplined K (w.session.perform g operation).2 := by rwa [hdone]
  have hmanned := h.leads_perform hafter
  unfold Leads perform at hmanned ⊢
  simp only [hdone] at hmanned ⊢
  exact hmanned

end Requests

/-! ## The parts of a step -/

section Steps

variable {K K' : Sentry → Prop} {arrived : Nat} {w : Watch} {config : Config} {settings : Settings}

/-- Writing a line that tells of no arrival. -/
theorem Manned.wrote (h : w.Manned K arrived) (level : Level) {message : String}
    (fields : List (String × LogValue)) (hmessage : message ≠ "intruder spotted at the far end") :
    Manned K arrived { w with log := w.log.push ⟨.patrol, level, message, fields⟩ } where
  onPost := h.onPost
  silent := h.silent
  aimed := h.aimed
  arrivals_eq := by
    have hother : Entry.tellsArrival ⟨.patrol, level, message, fields⟩ = false := by
      simp [Entry.tellsArrival, hmessage]
    rw [arrivals, Array.countP_push, hother]
    exact h.arrivals_eq

/-- The world moves first.  An arrival is logged, and a breach resets the graph. -/
theorem Manned.leads_advance [Platform] (h : w.Manned K arrived) (config : Config) {number : Nat}
    (hworld : K' (w.session.context.advance number).2) :
    Leads (advance (sentryGraph config) number) w
      (fun _ => Manned K'
        (arrived + if (w.session.context.advance number).1 = .spotted then 1 else 0))
      fun _ => False := by
  have hmoved : Manned K' arrived
      { w with session := { w.session with context := (w.session.context.advance number).2 } } :=
    { h with onPost := { h.onPost with world := hworld } }
  unfold advance
  rw [leads_bind, leads_get, leads_bind, leads_set]
  rcases hmove : w.session.context.advance number with ⟨arrival, context⟩
  rw [hmove] at hmoved
  cases arrival with
  | nothing => exact hmoved
  | spotted =>
      rw [leads_write]
      refine { hmoved with arrivals_eq := ?_ }
      rw [arrivals, Array.countP_push]
      exact congrArg (· + 1) h.arrivals_eq
  | breached =>
      have hwrote := hmoved.wrote .warn [("step", .shown (toString number))]
        (by decide : "intruder reached the sentry" ≠ _)
      obtain ⟨s', hdone, hkept⟩ := hwrote.disciplined.perform_reset config
      rw [leads_bind, leads_write]
      exact hwrote.leads_done hdone hkept

/-- The graph is ticked, and after a kill the sentry is to reload; only that request can be refused. -/
theorem Manned.leads_tick [Platform] (hexp : 2.0 ≤ Platform.exp 1.0 ∧ Platform.exp 1.0 ≤ 3.0)
    (h : w.Manned K arrived) (hK : Kept K) :
    Leads (tick settings (sentryGraph config)) w (fun _ => Manned K arrived) (Manned K arrived) := by
  unfold tick
  simp only [leads_bind]
  show Leads (perform (sentryGraph config) .tick) w _ _
  obtain ⟨s', hdone, hkept⟩ := h.disciplined.perform_tick hexp hK config
  refine (h.leads_done hdone hkept).imp (fun _ w' hw' => ?_) fun _ hb => hb.elim
  show Leads (if w.session.context.kills < w'.session.context.kills then _ else _) w' _ _
  split
  · exact hw'.leads_perform (hw'.disciplined.perform_resumeAt config _)
  · exact hw'

theorem Manned.leads_conclude (h : w.Manned K arrived) (g : Graph Sentry) :
    Leads (conclude g) w (fun _ => Manned K arrived) fun _ => False := by
  unfold conclude
  rw [leads_bind, leads_get]
  dsimp only
  split
  next n _ =>
    rw [leads_write]
    exact h.wrote .debug _ (by decide)
  next => exact h

theorem Manned.leads_step [Platform] (hexp : 2.0 ≤ Platform.exp 1.0 ∧ Platform.exp 1.0 ≤ 3.0)
    (h : w.Manned K arrived) (config : Config) (settings : Settings) (hK : Kept K') {number : Nat}
    (hworld : K' (w.session.context.advance number).2) :
    Leads (step settings (sentryGraph config) number) w
      (fun _ => Manned K'
        (arrived + if (w.session.context.advance number).1 = .spotted then 1 else 0))
      (Manned K'
        (arrived + if (w.session.context.advance number).1 = .spotted then 1 else 0)) := by
  unfold step
  rw [leads_bind]
  refine (h.leads_advance config hworld).imp (fun _ w₁ h₁ => ?_) fun _ hb => hb.elim
  rw [leads_bind]
  refine (h₁.leads_tick hexp hK).imp (fun _ w₂ h₂ => ?_) fun _ hb => hb
  rw [leads_bind]
  refine (h₂.leads_conclude _).imp (fun _ w₃ h₃ => ?_) fun _ hb => hb.elim
  exact { h₃ with onPost := { h₃.onPost with } }

/-- A patrol begins with a full magazine in a clear corridor, and with control at the entry. -/
theorem manned_start (hK : K {}) (log : Array Entry) (hlog : log.countP Entry.tellsArrival = 0) :
    Manned K 0 (start settings (sentryGraph config) log) where
  onPost :=
    { control := .inl rfl
      trigger := rfl
      scheduled := nofun
      world := hK }
  silent := rfl
  aimed := by simp [start]
  arrivals_eq := hlog

/-- What is written at the end changes nothing. -/
theorem Manned.leads_finish (h : w.Manned K arrived) :
    Leads finish w (fun _ => Manned K arrived) fun _ => False := by
  unfold finish
  rw [leads_bind]
  show Leads (if w.session.state.status.get (.node Post.fire.node) ≠ .normal then _ else _) w _ _
  rw [if_neg (not_not_intro h.onPost.trigger)]
  exact h.wrote .info _ (by decide)

end Steps

/-! ## Whole patrols -/

def begun (settings : Settings) (g : Graph Sentry) : Watch :=
  start settings g #[⟨.patrol, .info, "starting patrol", [("config", .shown settings.text)]⟩]

/-- The patrol where a step begins, if it gets there. -/
def reached [Platform] (settings : Settings) (g : Graph Sentry) (number : Nat) : Option Watch :=
  match steps settings g number 0 (begun settings g) with
  | .ok () w => some w
  | .error _ _ => none

def ended [Platform] (settings : Settings) (g : Graph Sentry) : Watch :=
  match all settings g (begun settings g) with
  | .ok () w => w
  | .error _ w => w

theorem manned_begun {K : Sentry → Prop} (hK : K {}) (settings : Settings) (config : Config) :
    Manned K 0 (begun settings (sentryGraph config)) :=
  manned_start hK _ (by simp [Entry.tellsArrival])

/-- What each step leads on to the next, steps lead on through. -/
theorem leads_steps [Platform] {settings : Settings} {g : Graph Sentry} {P : Nat → Watch → Prop}
    {Q : Watch → Prop} (count : Nat) {number : Nat} {w : Watch}
    (hstep : ∀ n w, n < number + count → P n w → Leads (step settings g n) w (fun _ => P (n + 1)) Q)
    (h : P number w) : Leads (steps settings g count number) w (fun _ => P (number + count)) Q := by
  induction count generalizing number w with
  | zero => exact h
  | succ count ih =>
      unfold steps
      rw [leads_bind]
      refine (hstep number w (by omega) h).imp (fun _ w' hw' => ?_) fun _ hb => hb
      have hlast : number + (count + 1) = number + 1 + count := by omega
      rw [hlast]
      exact ih (fun n w hn => hstep n w (by omega)) hw'

theorem Leads.of_reached [Platform] {settings : Settings} {g : Graph Sentry} {number : Nat} {w : Watch}
    {P : Watch → Prop} {breaks : Watch → Prop}
    (h : Leads (steps settings g number 0) (begun settings g) (fun _ => P) breaks)
    (hw : reached settings g number = some w) : P w := by
  unfold Leads at h
  unfold reached at hw
  split at hw
  next hsteps =>
    rw [hsteps] at h
    cases hw
    exact h
  next => cases hw

theorem Leads.at_end [Platform] {settings : Settings} {g : Graph Sentry} {P : Watch → Prop}
    (h : Leads (all settings g) (begun settings g) (fun _ => P) P) : P (ended settings g) := by
  unfold Leads at h
  unfold ended
  split <;> simp_all

section Accounts

variable {settings : Settings} {config : Config}

/-- The corridor is sound and few intruders have come in the steps so far. -/
def Accounted (number : Nat) (w : Watch) : Prop :=
  Manned (Sentry.Sound w.arrivals) w.arrivals w ∧ spawnEvery * w.arrivals ≤ number + (spawnEvery - 1)

theorem kept_sound {arrived : Nat} (hroom : 3 * arrived < UInt32.size) :
    Kept (Sentry.Sound arrived) where
  ammo_le _ h := h.ammo_le
  walk _ h := h.walk
  glance _ h := h.glance
  loadRound _ h := h.loadRound
  fire _ _ h hfire := h.fire hroom hfire

/-- A step adds an intruder at the multiples of `spawnEvery` only, so the counters have room. -/
theorem Accounted.leads_step {number : Nat} {w : Watch} (h : Accounted number w) (hfew : number < 2 ^ 32) :
    Leads (step settings (sentryGraph config) number) w (fun _ => Accounted (number + 1))
      (Accounted (number + 1)) := by
  have hmanned := h.1
  have hcount : 24 * w.arrivals ≤ number + 23 := h.2
  have hsize : UInt32.size = 2 ^ 32 := rfl
  have hsound := hmanned.onPost.world.advance (by omega) number
  obtain ⟨added, hadded⟩ : ∃ added,
      added = if (w.session.context.advance number).1 = .spotted then 1 else 0 := ⟨_, rfl⟩
  have hmultiple : added = 0 ∨ added = 1 ∧ number % 24 = 0 := by
    rw [hadded]
    split
    next hspotted => exact .inr ⟨rfl, Sentry.step_of_spotted hspotted⟩
    next => exact .inl rfl
  have hroom : 24 * (w.arrivals + added) ≤ number + 1 + 23 := by omega
  have haccounted {w' : Watch} (hw' : Manned (Sentry.Sound (w.arrivals + added)) (w.arrivals + added) w') :
      Accounted (number + 1) w' := by
    rw [Accounted, hw'.arrivals_eq]
    exact ⟨hw', hroom⟩
  rw [← hadded] at hsound
  have hstep := hmanned.leads_step exp_one_bounds config settings
    (kept_sound (by omega)) hsound
  rw [← hadded] at hstep
  exact hstep.imp (fun _ _ => haccounted) fun _ => haccounted

theorem accounted_begun (settings : Settings) (config : Config) :
    Accounted 0 (begun settings (sentryGraph config)) := by
  have hmanned := manned_begun Sentry.sound_new settings config
  rw [Accounted, hmanned.arrivals_eq]
  exact ⟨hmanned, by decide⟩

theorem Accounted.leads_finish {number : Nat} {w : Watch} (h : Accounted number w) :
    Leads finish w (fun _ => Accounted number) fun _ => False := by
  refine h.1.leads_finish.imp (fun _ w' hw' => ?_) fun _ hb => hb
  rw [Accounted, hw'.arrivals_eq]
  exact ⟨hw', h.2⟩

theorem Accounted.lawful {number : Nat} {w : Watch} (h : Accounted number w) :
    w.session.context.Lawful w.arrivals :=
  h.1.onPost.world.toLawful

/-- Whatever the gates, the depth limit, resets and hand-offs do: where every step of the host begins and
where the patrol ends, early or not, the corridor is lawful, with as many intruders as the log tells of. -/
theorem patrol_accounts (settings : Settings) (g : Graph Sentry) (hg : graph settings.graph = .ok g)
    (hfew : settings.steps.toNat < 2 ^ 32) :
    (∀ number w, number ≤ settings.steps.toNat → reached settings g number = some w →
      w.session.context.Lawful w.arrivals) ∧
    (ended settings g).session.context.Lawful (ended settings g).arrivals := by
  obtain rfl := eq_sentryGraph hg
  have hrun (number : Nat) (hnumber : number ≤ settings.steps.toNat) :
      Leads (steps settings (sentryGraph settings.graph) number 0)
        (begun settings (sentryGraph settings.graph)) (fun _ => Accounted (0 + number))
        fun w => w.session.context.Lawful w.arrivals := by
    apply leads_steps number _ (accounted_begun settings settings.graph)
    intro n w hn hw
    exact (hw.leads_step (by omega)).imp (fun _ _ hw' => hw') fun _ hw' => hw'.lawful
  constructor
  · intro number w hnumber hw
    exact ((hrun number hnumber).of_reached hw).lawful
  · apply Leads.at_end (P := fun w => w.session.context.Lawful w.arrivals)
    unfold all
    rw [leads_bind]
    refine (hrun _ (Nat.le_refl _)).imp (fun _ w hw => ?_) fun _ hb => hb
    exact hw.leads_finish.imp (fun _ _ hw' => hw'.lawful) fun _ hb => hb.elim

/-- After fifteen steps of the usual patrol the first intruder has been killed. -/
theorem first_kill_accounted :
    ({} : Settings).steps.toNat < 2 ^ 32 ∧
      ∃ g w, graph ({} : Settings).graph = .ok g ∧ reached {} g 15 = some w ∧
        w.session.context.kills = 1 ∧ w.session.context.Lawful w.arrivals := by
  have hfew : ({} : Settings).steps.toNat < 2 ^ 32 := by decide
  have hg : graph ({} : Settings).graph = .ok (sentryGraph ({} : Settings).graph) := graph_eq _
  have hkill : (reached {} (sentryGraph ({} : Settings).graph) 15).map
      (fun w => w.session.context.kills) = some 1 := by decide +kernel
  obtain ⟨w, hw, hkills⟩ := Option.map_eq_some_iff.mp hkill
  exact ⟨hfew, _, w, hg, hw, hkills, (patrol_accounts {} _ hg hfew).1 15 w (by decide) hw⟩

end Accounts

section Discipline

def Stocked (s : Sentry) : Prop := s.ammo ≤ magazine

theorem kept_stocked : Kept Stocked where
  ammo_le _ h := h
  walk _ h := h
  glance _ h := h
  loadRound _ _ := Sentry.min_le_magazine _
  fire s s' h hfire := by
    obtain ⟨hammo, i, _, ⟨_, rfl⟩ | ⟨_, rfl⟩⟩ := Sentry.fire_cases hfire
    · exact Sentry.spend_le_magazine hammo h
    · exact Sentry.spend_le_magazine hammo h

theorem stocked_advance {s : Sentry} (h : Stocked s) (number : Nat) : Stocked (s.advance number).2 := by
  rcases Sentry.advance_cases number s with ⟨i, _, ⟨_, hmove⟩ | ⟨_, hmove⟩⟩ | ⟨_, ⟨_, hmove⟩ | hmove⟩ <;>
    rw [hmove] <;> exact h

def Staffed (w : Watch) : Prop := ∃ arrived, Manned Stocked arrived w

theorem Staffed.leads_step [Platform] (hexp : 2.0 ≤ Platform.exp 1.0 ∧ Platform.exp 1.0 ≤ 3.0) {w : Watch}
    (h : w.Staffed) {settings : Settings} {config : Config} (number : Nat) :
    Leads (step settings (sentryGraph config) number) w (fun _ => Staffed) Staffed := by
  obtain ⟨arrived, hmanned⟩ := h
  exact (hmanned.leads_step hexp config settings kept_stocked (stocked_advance hmanned.onPost.world number)).imp
    (fun _ _ hw' => ⟨_, hw'⟩) fun _ hw' => ⟨_, hw'⟩

/-- If the exponential of one lies between two and three, then in every step of every patrol the world's
move and the tick are carried out.  Before and after each of
them the entry or the reload loop is active and the trigger has not failed.  In the tick the trigger is only
pulled with a round and a target, and succeeds, and the reload loop only hands control back with a full
magazine.  No request of the whole patrol pulls it otherwise. -/
theorem sentry_never_misfires [Platform] (hexp : 2.0 ≤ Platform.exp 1.0 ∧ Platform.exp 1.0 ≤ 3.0)
    (settings : Settings) (hdepth : 1 ≤ settings.graph.maxTickDepth) :
    ∃ g, graph settings.graph = .ok g ∧
      (∀ number w, reached settings g number = some w →
        OnPost Stocked w.session ∧
          ∃ w', advance g number w = .ok () w' ∧ OnPost Stocked w'.session ∧
            ∃ s, w'.session.perform g .tick = (.done, s) ∧ OnPost Stocked s ∧
              Orderly w'.session.context s.context s.journal.toList) ∧
      OnPost Stocked (ended settings g).session ∧ ∀ e ∈ (ended settings g).journal, Aimed e := by
  have hg : graph settings.graph = .ok (sentryGraph settings.graph) := by
    rw [graph_eq, if_neg (by omega)]
  have hrun (number : Nat) :
      Leads (steps settings (sentryGraph settings.graph) number 0)
        (begun settings (sentryGraph settings.graph)) (fun _ => Staffed) Staffed :=
    leads_steps (P := fun _ => Staffed) number (fun n w _ hw => hw.leads_step hexp n)
      ⟨0, manned_begun (UInt32.le_refl _) settings settings.graph⟩
  refine ⟨_, hg, fun number w hw => ?_, ?_⟩
  · obtain ⟨arrived, hmanned⟩ := (hrun number).of_reached hw
    have hmoved := hmanned.leads_advance settings.graph
      (stocked_advance hmanned.onPost.world number)
    refine ⟨hmanned.onPost, ?_⟩
    unfold Leads at hmoved
    split at hmoved
    next w' hadvance =>
      obtain ⟨s, hdone, hguard⟩ := hmoved.onPost.perform_tick hexp kept_stocked settings.graph
      obtain ⟨events, hjournal, horderly⟩ := hguard.orderly
      rw [hmoved.silent, Array.toList_empty, List.nil_append] at hjournal
      exact ⟨w', hadvance, hmoved.onPost, s, hdone, hguard.toOnPost, hjournal ▸ horderly⟩
    next => exact hmoved.elim
  · have hend : Staffed (ended settings (sentryGraph settings.graph)) := by
      apply Leads.at_end
      unfold all
      rw [leads_bind]
      refine (hrun _).imp (fun _ w ⟨arrived, hmanned⟩ => ?_) fun _ hb => hb
      exact hmanned.leads_finish.imp (fun _ _ hw' => ⟨arrived, hw'⟩) fun _ hb => hb.elim
    obtain ⟨_, hmanned⟩ := hend
    exact ⟨hmanned.onPost, hmanned.aimed⟩

/-- With no pause after a kill, the reload loop has control where the tick of step 18 begins and hands it
back in that tick, with all rounds loaded. -/
theorem reloaded_before_hand_back :
    let settings : Settings := { regroupSecs := 0.0 }
    (2.0 ≤ Platform.exp 1.0 ∧ Platform.exp 1.0 ≤ 3.0) ∧ 1 ≤ settings.graph.maxTickDepth ∧
      ∃ g w w' s, graph settings.graph = .ok g ∧ reached settings g 18 = some w ∧
        advance g 18 w = .ok () w' ∧ w'.session.perform g .tick = (.done, s) ∧
        w.session.state.control = Post.reloading.node ∧ s.state.control = entryNode ∧
        s.context.ammo = magazine ∧ OnPost Stocked s ∧
        Orderly w'.session.context s.context s.journal.toList := by
  intro settings
  have hdepth : 1 ≤ settings.graph.maxTickDepth := by decide
  obtain ⟨g, hg, hsteps, _, _⟩ := sentry_never_misfires exp_one_bounds settings hdepth
  obtain rfl := eq_sentryGraph hg
  have hrun : (reached settings (sentryGraph settings.graph) 18).bind (fun w =>
      match advance (sentryGraph settings.graph) 18 w with
      | .ok () w' =>
        let s := (w'.session.perform (sentryGraph settings.graph) .tick).2
        some (w.session.state.control, s.state.control, s.context.ammo)
      | .error _ _ => none) = some (Post.reloading.node, entryNode, magazine) := by decide +kernel
  obtain ⟨w, hw, htick⟩ := Option.bind_eq_some_iff.mp hrun
  obtain ⟨_, w', hadvance, _, s, hdone, honpost, horderly⟩ := hsteps 18 w hw
  simp only [hadvance, hdone, Option.some.injEq, Prod.mk.injEq] at htick
  exact ⟨exp_one_bounds, hdepth, _, w, w', s, hg, hw, hadvance, hdone, htick.1, htick.2.1, htick.2.2,
    honpost, horderly⟩

end Discipline

end Watch

end BehaviourGraph.Patrol
