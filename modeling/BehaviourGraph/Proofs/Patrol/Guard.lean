import BehaviourGraph.Proofs.HandOffs
import BehaviourGraph.Proofs.Patrol.Weighing

/-!
# The sentry on guard

Between requests the sentry is on post: the entry or the reload loop has control, the trigger has not failed
and only reloading is scheduled.  During a tick the journal moreover tells of no shot without a round and a
target and of no loop left with a magazine that is not full.  The walk of a tick is escorted by that: a post
is only ticked when the sentry is ready for it.
-/

namespace BehaviourGraph

/-- The context after some events: what the last call left. -/
def contextAfter {κ : Type} (before : κ) (events : List (Event κ)) : κ :=
  events.foldl (fun context e =>
    match e with
    | .called _ _ after _ => after
    | _ => context) before

namespace Patrol

open BehaviourGraph (Walk)

/-! ## Orderly journals -/

/-- What may happen in a context: the trigger is pulled with a round and a target, and succeeds; the reload
loop hands control back with a full magazine. -/
def Permitted (context : Sentry) : Event Sentry → Prop
  | .called (.body id) before _ outcome =>
    id = Post.fire.node →
      before = context ∧ context.intruder.isSome = true ∧ context.ammo ≠ 0 ∧ outcome = .returned
  | .reported (.activeChanged previous active) =>
    previous = Post.reloading.node → active = entryNode → context.ammo = magazine
  | _ => True

/-- If it is a pull of the trigger, there is a round and a target and the shot succeeds. -/
def Aimed : Event Sentry → Prop
  | .called (.body id) before _ outcome =>
    id = Post.fire.node → before.intruder.isSome = true ∧ before.ammo ≠ 0 ∧ outcome = .returned
  | _ => True

theorem Permitted.aimed {context : Sentry} {e : Event Sentry} (h : Permitted context e) : Aimed e := by
  unfold Aimed
  split
  next =>
    intro hfire
    obtain ⟨rfl, haimed⟩ := h hfire
    exact haimed
  next => trivial

/-- Events that lead from one context to another, each of them permitted where it happens. -/
structure Orderly (before after : Sentry) (events : List (Event Sentry)) : Prop where
  context_eq : contextAfter before events = after
  permitted : ∀ earlier e later, events = earlier ++ e :: later → Permitted (contextAfter before earlier) e

section Orderly

variable {before context after : Sentry} {events : List (Event Sentry)} {e : Event Sentry}

theorem Orderly.nil : Orderly context context [] where
  context_eq := rfl
  permitted earlier e later h := by simp at h

theorem Orderly.snoc (h : Orderly before context events) (hpermitted : Permitted context e)
    (hafter : contextAfter context [e] = after) : Orderly before after (events ++ [e]) where
  context_eq := by
    rw [← hafter, ← h.context_eq]
    exact List.foldl_append
  permitted earlier f later hsplit := by
    rcases snoc_eq_append_cons hsplit with ⟨rfl, rfl, _⟩ | ⟨rest, _, hevents⟩
    · rwa [h.context_eq]
    · exact h.permitted earlier f rest hevents

theorem Orderly.still (h : Orderly before context events) (he : e.still = true) :
    Orderly before context (events ++ [e]) := by
  apply h.snoc
  · unfold Permitted
    split
    · cases he
    · cases he
    · trivial
  · cases e <;> first | rfl | cases he

theorem Orderly.aimed (h : Orderly before after events) : ∀ e ∈ events, Aimed e := by
  intro e he
  obtain ⟨earlier, later, hsplit⟩ := List.append_of_mem he
  exact (h.permitted earlier e later hsplit).aimed

end Orderly

/-! ## On post and on guard -/

structure Kept (K : Sentry → Prop) : Prop where
  ammo_le : ∀ s, K s → s.ammo ≤ magazine
  walk : ∀ s, K s → K s.walk
  glance : ∀ s, K s → K s.glance
  loadRound : ∀ s, K s → K s.loadRound
  fire : ∀ s s', K s → s.fire = .ok s' → K s'

variable {τ ρ : Type} {K : Sentry → Prop}

/-- The entry or the reload loop has control, the trigger has not failed, and only reloading is scheduled. -/
structure OnPost (K : Sentry → Prop) (s : Session Sentry τ ρ) : Prop where
  control : s.state.control = entryNode ∨ s.state.control = Post.reloading.node
  trigger : s.state.status.get (.node Post.fire.node) = .normal
  scheduled : ∀ e ∈ s.state.queue.entries, e.node = Post.reloading.node
  world : K s.context

structure OnGuard (K : Sentry → Prop) (before : Sentry) (origin : List (Event Sentry))
    (s : Session Sentry τ ρ) : Prop extends OnPost K s where
  orderly : s.Adds origin (Orderly before s.context)

section OnPost

variable {g : Graph Sentry} {s : Session Sentry τ ρ}

theorem OnPost.change (h : OnPost K s) {f : State → State} (hcontrol : (f s.state).control = s.state.control)
    (hstatus : (f s.state).status = s.state.status) (hqueue : (f s.state).queue = s.state.queue) :
    OnPost K (s.change f) where
  control := by rw [Session.change, hcontrol]; exact h.control
  trigger := by rw [Session.change, hstatus]; exact h.trigger
  scheduled := by rw [Session.change, hqueue]; exact h.scheduled
  world := h.world

theorem OnPost.relax (h : OnPost K s) (flag : Flag) (e : Element) :
    OnPost K (s.change (State.relax g flag e)) := by
  cases flag <;> exact h.change rfl rfl rfl

theorem OnPost.switchTo (h : OnPost K s) {id : NodeId}
    (hid : id = entryNode ∨ id = Post.reloading.node) : OnPost K (s.switchTo g id) := by
  unfold Session.switchTo
  dsimp only
  split
  · exact h
  · exact { h with control := hid }

theorem get_set_normal {m : ElementMap Status} {f : Element} (hf : m.get f = .normal) (e : Element) :
    (m.set e .normal).get f = .normal := by
  by_cases hne : e = f
  · subst hne
    by_cases hholds : m.holds e
    · exact m.get_set_self e .normal hholds
    · cases e <;> simp_all [ElementMap.holds, ElementMap.set, ElementMap.get]
  · rw [m.get_set_of_ne .normal hne, hf]

end OnPost

namespace OnGuard

variable {g : Graph Sentry} {s : Session Sentry τ ρ} {before : Sentry} {origin : List (Event Sentry)}

theorem change (h : OnGuard K before origin s) {f : State → State}
    (hcontrol : (f s.state).control = s.state.control) (hstatus : (f s.state).status = s.state.status)
    (hqueue : (f s.state).queue = s.state.queue) : OnGuard K before origin (s.change f) where
  toOnPost := h.toOnPost.change hcontrol hstatus hqueue
  orderly := h.orderly

theorem relax (h : OnGuard K before origin s) (flag : Flag) (e : Element) :
    OnGuard K before origin (s.change (State.relax g flag e)) where
  toOnPost := h.toOnPost.relax flag e
  orderly := h.orderly

theorem relaxOthers (h : OnGuard K before origin s) (id : NodeId) (n : Node Sentry) (chosen : Option Port) :
    OnGuard K before origin (s.change (State.relaxOthers g id n chosen)) :=
  State.relaxOthers_induction (P := fun a => OnGuard K before origin { s with state := a }) n chosen
    (fun a flag _ _ _ ha => relax (s := { s with state := a }) ha flag _) h

theorem record (h : OnGuard K before origin s) {e : Event Sentry} (hpermitted : Permitted s.context e)
    (hafter : contextAfter s.context [e] = s.context) : OnGuard K before origin (s.record e) where
  toOnPost := { h.toOnPost with }
  orderly := h.orderly.record e fun _ hevents => hevents.snoc hpermitted hafter

theorem still (h : OnGuard K before origin s) {e : Event Sentry} (he : e.still = true) :
    OnGuard K before origin (s.record e) where
  toOnPost := { h.toOnPost with }
  orderly := h.orderly.record e fun _ hevents => hevents.still he

/-- A call that is permitted where it happens, and keeps what is to be kept. -/
theorem called (h : OnGuard K before origin s) {call : Call} {context : Sentry} {outcome : Outcome}
    (hworld : K context) (hpermitted : Permitted s.context (.called call s.context context outcome)) :
    OnGuard K before origin ({ s with context }.record (.called call s.context context outcome)) where
  toOnPost := { h.toOnPost with world := hworld }
  orderly := Session.Adds.record (s := { s with context }) h.orderly _ fun _ hevents =>
    hevents.snoc hpermitted rfl

theorem switchTo (h : OnGuard K before origin s) {id : NodeId}
    (hid : id = entryNode ∨ id = Post.reloading.node)
    (hfull : id = entryNode → s.context.ammo = magazine) : OnGuard K before origin (s.switchTo g id) := by
  have honpost := h.toOnPost.switchTo (g := g) hid
  unfold Session.switchTo at honpost ⊢
  dsimp only at honpost ⊢
  split
  next => exact h
  next hne =>
    rw [if_neg hne] at honpost
    exact { toOnPost := honpost
            orderly := h.orderly.record _ fun _ hevents =>
              hevents.snoc (fun _ hentry => hfull hentry) rfl }

/-- Acting on a choice is no affair of control for posts that are no loops. -/
theorem commit (h : OnGuard K before origin s) {id : NodeId} {n : Node Sentry} (hn : n.kind ≠ .loop)
    (chosen : Option Port) : OnGuard K before origin (s.commit g id n chosen) := by
  rw [Session.commit_of_not_loop hn]
  exact (h.still rfl).relaxOthers id n chosen

theorem claimed (h : OnGuard K before origin s) {n : Node Sentry} (hn : n.kind = .loop) :
    OnGuard K before origin (s.commit g Post.reloading.node n (some .body)) := by
  have hchosen : OnGuard K before origin (s.record (.chose Post.reloading.node (some .body))) := h.still rfl
  have hswitched := hchosen.switchTo (g := g) (.inr rfl) nofun
  unfold Session.commit
  simp only [hn, ne_eq, not_true_eq_false, if_false, if_true]
  exact (hswitched.change (f := State.mark _) rfl rfl rfl).relaxOthers _ n _

theorem released (h : OnGuard K before origin s) {n : Node Sentry} (hn : n.kind = .loop)
    (hfull : s.context.ammo = magazine) :
    OnGuard K before origin (s.commit g Post.reloading.node n (some .finish)) := by
  have hchosen : OnGuard K before origin (s.record (.chose Post.reloading.node (some .finish))) := h.still rfl
  have hswitched := hchosen.switchTo (g := g) (.inl rfl) fun _ => hfull
  unfold Session.commit
  simp only [hn, ne_eq, not_true_eq_false, if_false, Option.some.injEq, reduceCtorEq]
  exact hswitched.relaxOthers _ n _

end OnGuard

/-! ## Acting on the posts -/

def Post.Ready : Post → Sentry → Prop
  | respond, s => s.intruder.isSome = true
  | fire, s => s.intruder.isSome = true ∧ s.ammo ≠ 0
  | _, _ => True

/-- The posts that a choice leads to may be gone to. -/
def Leading (p : Post) (port : Option Port) (context : Sentry) : Prop :=
  ∀ r ∈ routes, r.start = p → port = some r.port → r.finish.Ready context

theorem leading_of {p : Post} {port : Option Port} {context : Sentry}
    (hthreat : p = .threat → port = some .whenTrue → context.intruder.isSome = true)
    (hrespond : p = .respond → port = some (.branch 0) →
      context.intruder.isSome = true ∧ context.ammo ≠ 0) : Leading p port context := by
  intro r hr hstart hport
  simp only [routes, List.mem_cons, List.not_mem_nil, or_false] at hr
  rcases hr with rfl | rfl | rfl | rfl | rfl | rfl | rfl | rfl
  case inr.inl => exact hthreat hstart.symm hport
  case inr.inr.inr.inl => exact hrespond hstart.symm hport
  all_goals trivial

section Acting

variable {g : Graph Sentry} {s : Session Sentry τ ρ} {before : Sentry} {origin : List (Event Sentry)}
  (h : OnGuard K before origin s)
include h

def Acted (g : Graph Sentry) (K : Sentry → Prop) (before : Sentry) (origin : List (Event Sentry)) (p : Post)
    (port : Option Port) (s : Session Sentry τ ρ) : Prop :=
  OnGuard K before origin (s.commit g p.node p.asNode port) ∧ Leading p port s.context

/-- A post with an action that succeeds. -/
theorem OnGuard.leads_action [Platform] {p : Post} {callback : Callback Sentry Unit} {after : Sentry}
    (hp : p.behaviour = .action callback) (hthreat : p ≠ .threat) (hrespond : p ≠ .respond)
    (hinvoke : callback.invoke s.context = .ok (.ok ()) after) (hafter : K after)
    (hready : p = .fire → s.context.intruder.isSome = true ∧ s.context.ammo ≠ 0) :
    (Walk.choose p.node p.asNode).Leads s (Acted g K before origin p) fun _ => False := by
  have hkind : p.asNode.kind ≠ .loop := by simp [Node.kind, Post.asNode, Post.nodeAfter, hp, Behaviour.kind]
  have hpermitted : Permitted s.context (.called (.body p.node) s.context after .returned) := by
    intro hid
    obtain ⟨hpresent, hloaded⟩ := hready (node_inj hid)
    exact ⟨rfl, hpresent, hloaded, rfl⟩
  have hacted : Acted g K before origin p (some .out)
      ({ s with context := after }.record (.called (.body p.node) s.context after .returned)) :=
    ⟨(h.called hafter hpermitted).commit hkind _,
      leading_of (fun heq => (hthreat heq).elim) fun heq => (hrespond heq).elim⟩
  unfold Walk.choose
  rw [show p.asNode.behaviour = _ from hp]
  dsimp only
  rw [Walk.leads_bind]
  refine Walk.leads_invoke_answer _ _ (fun result context hanswer => ?_) fun message context hanswer => ?_
  · rw [hinvoke] at hanswer
    cases hanswer
    exact hacted
  · rw [hinvoke] at hanswer
    cases hanswer

/-- A question changes nothing, and is permitted at every post but the trigger. -/
theorem OnGuard.asked {p : Post} (hfire : p ≠ .fire) :
    OnGuard K before origin (s.record (.called (.body p.node) s.context s.context .returned)) :=
  h.record (fun hid => (hfire (node_inj hid)).elim) rfl

theorem OnGuard.leads_threat [Platform] :
    (Walk.choose Post.threat.node Post.threat.asNode).Leads s (Acted g K before origin .threat)
      fun _ => False := by
  have hasked := h.asked (p := .threat) (by decide)
  have hcommitted (port : Option Port) : OnGuard K before origin (Session.commit g Post.threat.node
      Post.threat.asNode port (s.record (.called (.body Post.threat.node) s.context s.context .returned))) :=
    hasked.commit (by decide) port
  refine ⟨hcommitted _, leading_of (fun _ hport => ?_) fun hpost => by cases hpost⟩
  show s.context.intruder.isSome = true
  by_cases hsees : s.context.seesThreat = true
  · unfold Sentry.seesThreat at hsees
    cases hi : s.context.intruder with
    | none => simp [hi] at hsees
    | some i => rfl
  · simp [hsees] at hport

theorem OnGuard.leads_respond [Platform] (hexp : 2.0 ≤ Platform.exp 1.0 ∧ Platform.exp 1.0 ≤ 3.0)
    (hpresent : s.context.intruder.isSome = true) :
    (Walk.choose Post.respond.node Post.respond.asNode).Leads s (Acted g K before origin .respond)
      fun _ => False := by
  have hfirst : OnGuard K before origin
      (s.record (.called (.scorer Post.respond.node 0) s.context s.context .returned)) :=
    h.record trivial rfl
  have hsecond : OnGuard K before origin
      ((s.record (.called (.scorer Post.respond.node 0) s.context s.context .returned)).record
        (.called (.scorer Post.respond.node 1) s.context s.context .returned)) :=
    hfirst.record trivial rfl
  rw [leads_choose_respond]
  refine ⟨hsecond.commit (by decide) _, leading_of (fun hpost => by cases hpost) fun _ hport => ?_⟩
  refine ⟨hpresent, fun hempty => ?_⟩
  change s.context.ammo = 0 at hempty
  rw [hempty, weigh_empty hexp] at hport
  cases hport

theorem OnGuard.leads_reloading [Platform] (hammo : s.context.ammo ≤ magazine) :
    (Walk.choose Post.reloading.node Post.reloading.asNode).Leads s (Acted g K before origin .reloading)
      fun _ => False := by
  have hasked := h.asked (p := .reloading) (by decide)
  have hleading (port : Option Port) : Leading .reloading port s.context :=
    leading_of (fun hpost => by cases hpost) fun hpost => by cases hpost
  show Acted g K before origin .reloading
    (some (if (decide (s.context.ammo < magazine) != false) = true then .body else .finish)) (s.record _)
  by_cases hshort : s.context.ammo < magazine
  · rw [if_pos (by simp [hshort])]
    exact ⟨hasked.claimed rfl, hleading _⟩
  · rw [if_neg (by simp [hshort])]
    have hfull : s.context.ammo = magazine := UInt32.le_antisymm hammo (UInt32.not_lt.mp hshort)
    exact ⟨hasked.released rfl hfull, hleading _⟩

theorem OnGuard.leads_entry [Platform] :
    (Walk.choose Post.entry.node Post.entry.asNode).Leads s (Acted g K before origin .entry)
      fun _ => False :=
  ⟨h.commit (by decide) _, leading_of (fun hpost => by cases hpost) fun hpost => by cases hpost⟩

end Acting

/-- With a round and a target a shot succeeds. -/
theorem fire_of_ready {s : Sentry} (hpresent : s.intruder.isSome = true) (hammo : s.ammo ≠ 0) :
    ∃ s', s.fire = .ok s' := by
  unfold Sentry.fire
  rw [if_neg hammo]
  cases hi : s.intruder with
  | none => simp [hi] at hpresent
  | some i => exact ⟨_, rfl⟩

theorem attempt_of_ok {change : Sentry → Except CallbackError Sentry} {s s' : Sentry}
    (h : change s = .ok s') : (attempt change).invoke s = .ok (.ok ()) s' := by
  unfold attempt Callback.invoke
  dsimp only
  rw [h]

/-- Every post that the sentry is ready for acts, and leads only to posts that it is ready for then. -/
theorem OnGuard.leads_acted [Platform] (hexp : 2.0 ≤ Platform.exp 1.0 ∧ Platform.exp 1.0 ≤ 3.0)
    {g : Graph Sentry} {s : Session Sentry τ ρ} {before : Sentry} {origin : List (Event Sentry)}
    (h : OnGuard K before origin s) (hK : Kept K) (p : Post)
    (hready : p.Ready s.context) :
    (Walk.choose p.node p.asNode).Leads s (Acted g K before origin p) fun _ => False := by
  cases p with
  | entry => exact h.leads_entry
  | threat => exact h.leads_threat
  | respond => exact h.leads_respond hexp hready
  | fire =>
      obtain ⟨after, hfire⟩ := fire_of_ready hready.1 hready.2
      exact h.leads_action rfl (by decide) (by decide) (attempt_of_ok hfire) (hK.fire _ _ h.world hfire)
        fun _ => hready
  | reloading => exact h.leads_reloading (hK.ammo_le _ h.world)
  | load => exact h.leads_action rfl (by decide) (by decide) rfl (hK.loadRound _ h.world) nofun
  | ready => exact h.leads_action rfl (by decide) (by decide) rfl h.world nofun
  | walk => exact h.leads_action rfl (by decide) (by decide) rfl (hK.walk _ h.world) nofun
  | glance => exact h.leads_action rfl (by decide) (by decide) rfl (hK.glance _ h.world) nofun

/-! ## Ticks -/

section Tick

def Prepared (id : NodeId) (context : Sentry) : Prop := ∀ p : Post, id = p.node → p.Ready context

theorem prepared_control {s : Session Sentry τ Xoshiro} (h : OnPost K s) :
    Prepared s.state.control s.context := by
  intro p hp
  rcases h.control with hcontrol | hcontrol
  · obtain rfl : p = .entry := node_inj (hp.symm.trans hcontrol)
    trivial
  · obtain rfl : p = .reloading := node_inj (hp.symm.trans hcontrol)
    trivial

variable [Clock Sentry τ] {config : Config} {before : Sentry} {origin : List (Event Sentry)}

theorem escort [Platform] (hexp : 2.0 ≤ Platform.exp 1.0 ∧ Platform.exp 1.0 ≤ 3.0) (hK : Kept K) :
    Walk.Escort (sentryGraph config) (OnGuard K before origin : Session Sentry τ Xoshiro → Prop)
      Prepared where
  passage s _ _ hs := { hs with }
  record _ _ he hs := hs.still he
  mark _ _ hs := hs.change rfl rfl rfl
  relax _ flag e hs := hs.relax flag e
  setNormal s id hs := { hs with trigger := get_set_normal hs.trigger _ }
  setFiring _ _ _ hs := hs.change rfl rfl rfl
  setDepth _ _ hs := hs.change rfl rfl rfl
  acts id n s hn hs hsafe := by
    obtain ⟨p, rfl, rfl⟩ := node_of_post hn
    refine (hs.leads_acted hexp (g := sentryGraph config) hK p (hsafe p rfl)).imp
      (fun port s' hacted => ?_) fun _ hb => hb
    refine ⟨hacted.1, fun q t tr hport ht htr => ?_⟩
    subst hport
    obtain ⟨r, hr, hstart, hq, hfinish⟩ := route_of_exit ht htr
    rw [hfinish]
    intro p' hp'
    obtain rfl := node_inj hp'
    exact hacted.2 r (List.mem_of_getElem? hr) hstart (congrArg some hq.symm)
  rolls t tr s htr := leads_rolls s htr
  single := exits_single

/-- The hand-offs that are due only send the sentry to reload. -/
theorem OnPost.walkStart {g : Graph Sentry} {s : Session Sentry τ Xoshiro} (h : OnPost K s) :
    OnGuard K s.context s.journal.toList (s.walkStart g) := by
  have hstart : OnGuard K s.context s.journal.toList s := { h with orderly := .nil .nil }
  have hdue : ∀ id ∈ (s.state.queue.drainDue s.reading).1, id = Post.reloading.node := by
    intro id hid
    obtain ⟨e, he, rfl⟩ := List.mem_map.mp hid
    exact h.scheduled e (List.mem_of_mem_take he)
  have hdrained : OnGuard K s.context s.journal.toList
      { s with
        clock := (Clock.read s.context s.clock).2
        state := { s.state.sweep with queue := (s.state.queue.drainDue s.reading).2 } } :=
    { hstart with scheduled := fun e he => h.scheduled e (List.mem_of_mem_drop he) }
  have hhanded := List.foldlRecOn (motive := OnGuard K s.context s.journal.toList)
    (s.state.queue.drainDue s.reading).1 (fun s id => s.switchTo g id) hdrained
    fun s' hs' id hid => hs'.switchTo (.inr (hdue id hid)) fun hentry => by
      rw [hdue id hid] at hentry
      cases hentry
  exact (hhanded.still (e := .reported (.tickStarted _)) rfl).change (f := fun a => { a with depth := 0 })
    rfl rfl rfl

/-- A tick of a sentry on post is done, and orderly from beginning to end. -/
theorem OnPost.perform_tick [Platform] (hexp : 2.0 ≤ Platform.exp 1.0 ∧ Platform.exp 1.0 ≤ 3.0)
    {s : Session Sentry τ Xoshiro} (h : OnPost K s) (hK : Kept K) (config : Config) :
    ∃ s', s.perform (sentryGraph config) .tick = (.done, s') ∧
      OnGuard K s.context s.journal.toList s' := by
  have hstart := h.walkStart (g := sentryGraph config)
  have htick : (Walk.tick (sentryGraph config)).Leads s
      (fun _ => OnGuard K s.context s.journal.toList) fun _ => False := by
    rw [Walk.leads_tick]
    refine ((escort hexp hK).leads_visit sentryGraph_bare _ _ hstart
      (prepared_control hstart.toOnPost)).imp (fun _ s' hs' => ?_) fun _ hb => hb
    exact (hs'.change (f := State.sweep) rfl rfl rfl).still rfl
  unfold Session.perform Session.run
  unfold Walk.Leads at htick
  split at htick
  next s' hrun =>
    rw [hrun]
    exact ⟨s', rfl, htick⟩
  next => exact htick.elim

end Tick

end Patrol

end BehaviourGraph
