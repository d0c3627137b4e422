import BehaviourGraph.Patrol.Watch
import BehaviourGraph.Proofs.Sampling
import BehaviourGraph.Proofs.Walk.Escort

/-!
# The posts of the sentry's graph

The sentry's graph has a node for each post and a transition for each route, whatever its configuration:
every step of building is carried out, and the graph is what it has led to.  Its ports have one route each,
and its windows can all be sampled.
-/

namespace BehaviourGraph.Patrol

open BehaviourGraph (Walk)

def posts : List Post := .entry :: Post.added

def Route.asTransition (r : Route) : Transition Sentry :=
  { r.spec with start := r.start.node, port := r.port, finish := r.finish.node }

namespace Post

/-- Which of some routes leave a post, with their ports. -/
def departures (rs : List Route) (p : Post) : List (Option Port × TransitionId) :=
  (rs.zipIdx.filter fun r => r.1.start = p).map fun r => (some r.1.port, ⟨r.2⟩)

/-- The node of a post once some routes are connected. -/
def nodeAfter (rs : List Route) (p : Post) : Node Sentry where
  label := p.label
  behaviour := p.behaviour
  outgoing := (p.departures rs).map Prod.snd
  exits := .ofList (p.departures rs)

def asNode (p : Post) : Node Sentry := p.nodeAfter routes

theorem departures_snoc (rs : List Route) (r : Route) (p : Post) :
    p.departures (rs ++ [r]) =
      p.departures rs ++ if r.start = p then [(some r.port, ⟨rs.length⟩)] else [] := by
  by_cases hstart : r.start = p <;> simp [departures, List.zipIdx_append, hstart]

theorem nodeAfter_snoc_self (rs : List Route) (r : Route) :
    r.start.nodeAfter (rs ++ [r]) =
      { r.start.nodeAfter rs with
        outgoing := (r.start.nodeAfter rs).outgoing ++ [⟨rs.length⟩]
        exits := (r.start.nodeAfter rs).exits.enter r.port ⟨rs.length⟩ } := by
  simp [nodeAfter, departures_snoc, Index.ofList, Index.enter?]

theorem nodeAfter_snoc_of_ne (rs : List Route) {r : Route} {p : Post} (hne : r.start ≠ p) :
    p.nodeAfter (rs ++ [r]) = p.nodeAfter rs := by
  simp [nodeAfter, departures_snoc, hne]

end Post

/-! ## Building the graph -/

theorem node_inj {p q : Post} (h : p.node = q.node) : p = q := by
  cases p <;> cases q <;> first | rfl | cases h

theorem posts_node (p : Post) : posts[p.node.index]? = some p := by cases p <;> rfl

theorem node_of_posts {i : Nat} {p : Post} (h : posts[i]? = some p) : p.node = ⟨i⟩ := by
  have hplace : ∀ i : Fin posts.length, (posts[i]).node = ⟨i⟩ := by decide
  obtain ⟨hlt, rfl⟩ := List.getElem?_eq_some_iff.mp h
  exact hplace ⟨i, hlt⟩

/-- All posts, and some of the routes between them. -/
def sentryBuilder (config : Config) (rs : List Route) : Builder Sentry where
  nodes := (posts.map (Post.nodeAfter rs)).toArray
  transitions := (rs.map Route.asTransition).toArray
  config := config
  onReset := some (EStateM.pure ())

section Build

variable {config : Config} {rs : List Route}

theorem getElem?_nodes_sentryBuilder (config : Config) (rs : List Route) (i : Nat) :
    (sentryBuilder config rs).nodes[i]? = posts[i]?.map (Post.nodeAfter rs) := by
  rw [sentryBuilder, List.getElem?_toArray, List.getElem?_map]

theorem node_sentryBuilder (p : Post) :
    (sentryBuilder config rs).nodes[p.node.index]? = some (p.nodeAfter rs) := by
  rw [getElem?_nodes_sentryBuilder, posts_node]
  rfl

theorem enrol_sentryBuilder (r : Route) :
    (sentryBuilder config rs).enrol ⟨rs.length⟩ r.asTransition = sentryBuilder config (rs ++ [r]) := by
  have hnodes : ((sentryBuilder config rs).enrol ⟨rs.length⟩ r.asTransition).nodes =
      (sentryBuilder config (rs ++ [r])).nodes := by
    refine Array.ext_getElem? fun i => ?_
    rw [Builder.nodes_enrol, Array.getElem?_modify, getElem?_nodes_sentryBuilder,
      getElem?_nodes_sentryBuilder]
    cases hp : posts[i]? with
    | none => simp
    | some p =>
        have hplace := node_of_posts hp
        by_cases hstart : r.start = p
        · subst hstart
          simp [Route.asTransition, hplace, Post.nodeAfter_snoc_self]
        · have hne : r.asTransition.start.index ≠ i := fun heq =>
            hstart (node_inj (hplace.symm ▸ congrArg NodeId.mk heq))
          simp [hne, Post.nodeAfter_snoc_of_ne rs hstart]
  have htransitions : ((sentryBuilder config rs).enrol ⟨rs.length⟩ r.asTransition).transitions =
      (sentryBuilder config (rs ++ [r])).transitions := by
    show (rs.map Route.asTransition).toArray.push r.asTransition = _
    simp [sentryBuilder]
  exact congrArg₂ (fun nodes transitions =>
    (⟨nodes, transitions, config, some (EStateM.pure ())⟩ : Builder Sentry)) hnodes htransitions

/-- A route can be connected, and its cooldown be sampled. -/
structure Route.Fits (r : Route) : Prop where
  port : r.start.behaviour.hasPort r.port = true
  suitable : r.asTransition.Suitable
  narrow : r.asTransition.cooldown.max - r.asTransition.cooldown.min < Xoshiro.widthLimit

theorem routes_fit {r : Route} (hr : r ∈ routes) : r.Fits := by
  have hall : ∀ r ∈ routes, r.start.behaviour.hasPort r.port = true ∧
      r.spec.probability.suits .probability = true ∧ r.spec.cooldown.suits .cooldown = true ∧
      r.spec.cooldown.max - r.spec.cooldown.min < Xoshiro.widthLimit := by decide +kernel
  obtain ⟨hport, hprobability, hcooldown, hnarrow⟩ := hall r hr
  exact ⟨hport, ⟨hprobability, hcooldown⟩, hnarrow⟩

theorem addRoutes_sentryBuilder {more : List Route} (hfit : ∀ r ∈ more, r.Fits)
    (hroom : rs.length + more.length ≤ identifierCount) :
    addRoutes more (sentryBuilder config rs) = .ok () (sentryBuilder config (rs ++ more)) := by
  induction more generalizing rs with
  | nil => rw [List.append_nil]; rfl
  | cons r more ih =>
      have hr := hfit r List.mem_cons_self
      rw [List.length_cons] at hroom
      have hnumber : TransitionId.ofNat? (sentryBuilder config rs).transitions.size = some ⟨rs.length⟩ := by
        simp [sentryBuilder, TransitionId.ofNat?]
        omega
      have hconnect : Builder.connect r.start.node r.port r.finish.node r.spec (sentryBuilder config rs) =
          .ok ⟨rs.length⟩ (sentryBuilder config (rs ++ [r])) :=
        Builder.connect_eq_ok_iff.mpr ⟨_, _, node_sentryBuilder r.start, node_sentryBuilder r.finish,
          hr.port, ⟨hr.suitable.probability, hr.suitable.cooldown⟩, hnumber, (enrol_sentryBuilder r).symm⟩
      have hrest : addRoutes more (sentryBuilder config (rs ++ [r])) =
          .ok () (sentryBuilder config (rs ++ [r] ++ more)) :=
        ih (fun r hr => hfit r (List.mem_cons_of_mem _ hr)) (by simp; omega)
      rw [List.append_assoc, List.singleton_append] at hrest
      exact Building.bind_eq_ok_iff.mpr ⟨_, _, hconnect, hrest⟩

end Build

def sentryGraph (config : Config) : Graph Sentry := (sentryBuilder config routes).graph

/-- Building the graph only checks the depth that ticks may have. -/
theorem graph_eq (config : Config) :
    graph config =
      if config.maxTickDepth = 0 then .error (.config .noDepth) else .ok (sentryGraph config) := by
  have hposts : addPosts Post.added { config, onReset := some (EStateM.pure ()) } =
      .ok () (sentryBuilder config []) := rfl
  have hroutes : addRoutes routes (sentryBuilder config []) = .ok () (sentryBuilder config routes) :=
    addRoutes_sentryBuilder (fun _ => routes_fit) (by decide)
  have hbuilt : (do addPosts Post.added; addRoutes routes : Building Sentry Unit)
      { config, onReset := some (EStateM.pure ()) } = .ok () (sentryBuilder config routes) :=
    Building.bind_eq_ok_iff.mpr ⟨_, _, hposts, hroutes⟩
  unfold graph
  rw [hbuilt]
  dsimp only
  unfold Builder.build Config.validate
  have hconfig : (sentryBuilder config routes).config = config := rfl
  have hutilities : nodesWhere (sentryBuilder config routes).nodes Builder.isEmptyUtility = [] := rfl
  rw [hconfig, hutilities]
  split
  next => rfl
  next => rfl

theorem eq_sentryGraph {config : Config} {g : Graph Sentry} (h : graph config = .ok g) :
    g = sentryGraph config := by
  rw [graph_eq] at h
  split at h
  · cases h
  · exact (Except.ok.inj h).symm

/-- The nodes list the routes that leave them. -/
theorem consistent_sentryBuilder (config : Config) (rs : List Route) :
    (sentryBuilder config rs).graph.Consistent := by
  induction rs using List.reverseRecOn with
  | nil =>
      have hnone {list : Node Sentry → List TransitionId} (hlist : ∀ p : Post, list (p.nodeAfter []) = [])
          (id : NodeId) : ((sentryBuilder config []).graph.node? id).elim [] list = [] := by
        have hnode : (sentryBuilder config []).graph.node? id =
            posts[id.index]?.map (Post.nodeAfter []) :=
          getElem?_nodes_sentryBuilder config _ id.index
        rw [hnode]
        cases posts[id.index]? with
        | none => rfl
        | some p => exact hlist p
      exact ⟨fun id => hnone (fun _ => rfl) id, fun id port => hnone (fun _ => rfl) id⟩
  | append_singleton rs r ih =>
      have hnumber : rs.length = (sentryBuilder config rs).transitions.size := by simp [sentryBuilder]
      have hstart : r.asTransition.start.index < (sentryBuilder config rs).nodes.size :=
        (Array.getElem?_eq_some_iff.mp (node_sentryBuilder r.start)).1
      rw [← enrol_sentryBuilder, hnumber]
      exact Builder.consistent_enrol ih hstart

theorem sentryGraph_consistent (config : Config) : (sentryGraph config).Consistent :=
  consistent_sentryBuilder config routes

section Wiring

variable {config : Config} {id : NodeId} {n : Node Sentry}

theorem node_of_post (h : (sentryGraph config).node? id = some n) :
    ∃ p : Post, id = p.node ∧ n = p.asNode := by
  have hmap : posts[id.index]?.map Post.asNode = some n :=
    (getElem?_nodes_sentryBuilder config _ id.index).symm.trans h
  obtain ⟨p, hp, rfl⟩ := Option.map_eq_some_iff.mp hmap
  exact ⟨p, (node_of_posts hp).symm, rfl⟩

theorem transition_of_route {t : TransitionId} {tr : Transition Sentry}
    (h : (sentryGraph config).transition? t = some tr) :
    ∃ r, routes[t.index]? = some r ∧ tr = r.asTransition := by
  have hmap : (routes.map Route.asTransition)[t.index]? = some tr := by
    simpa only [Graph.transition?, sentryGraph, Builder.graph, sentryBuilder, List.getElem?_toArray] using h
  rw [List.getElem?_map, Option.map_eq_some_iff] at hmap
  obtain ⟨r, hr, rfl⟩ := hmap
  exact ⟨r, hr, rfl⟩

theorem sentryGraph_bare : (sentryGraph config).Bare where
  preTick id n hn := by
    obtain ⟨p, _, rfl⟩ := node_of_post hn
    rfl
  postTick id n hn := by
    obtain ⟨p, _, rfl⟩ := node_of_post hn
    rfl
  modest id n hn := by
    obtain ⟨p, _, rfl⟩ := node_of_post hn
    rfl
  guardless t tr htr := by
    obtain ⟨r, hr, rfl⟩ := transition_of_route htr
    have hall : ∀ r ∈ routes, r.spec.guard.isNone = true := by decide
    exact Option.isNone_iff_eq_none.mp (hall r (List.mem_of_getElem? hr))
  plain t tr htr := by
    obtain ⟨r, hr, rfl⟩ := transition_of_route htr
    have hall : ∀ r ∈ routes, r.spec.capturesControl = false := by decide
    exact hall r (List.mem_of_getElem? hr)

/-- An exit of a post is one of its routes. -/
theorem route_of_exit {p : Post} {port : Port} {t : TransitionId} {tr : Transition Sentry}
    (ht : t ∈ (sentryGraph config).exits p.node port)
    (htr : (sentryGraph config).transition? t = some tr) :
    ∃ r, routes[t.index]? = some r ∧ r.start = p ∧ r.port = port ∧ tr.finish = r.finish.node := by
  obtain ⟨tr', htr', hstart, hport⟩ := (sentryGraph_consistent config).mem_exits.mp ht
  obtain rfl := Option.some.inj (htr.symm.trans htr')
  obtain ⟨r, hr, rfl⟩ := transition_of_route htr
  exact ⟨r, hr, node_inj hstart, hport, rfl⟩

theorem exits_single (id : NodeId) (port : Port) :
    ((sentryGraph config).exits id port).length ≤ 1 := by
  have hdistinct : ∀ i j : Fin routes.length, (routes[i]).start.node = (routes[j]).start.node →
      (routes[i]).port = (routes[j]).port → i = j := by decide
  have hplace (t : TransitionId) (ht : t ∈ (sentryGraph config).exits id port) :
      ∃ hlt : t.index < routes.length, (routes[t.index]).start.node = id ∧
        (routes[t.index]).port = port := by
    obtain ⟨tr, htr, hstart, hport⟩ := (sentryGraph_consistent config).mem_exits.mp ht
    obtain ⟨r, hr, rfl⟩ := transition_of_route htr
    obtain ⟨hlt, rfl⟩ := List.getElem?_eq_some_iff.mp hr
    exact ⟨hlt, hstart, hport⟩
  have hnodup : ((sentryGraph config).exits id port).Nodup := by
    rw [(sentryGraph_consistent config).exits]
    exact nodup_transitionsWhere _ _
  match hexits : (sentryGraph config).exits id port with
  | [] => exact Nat.zero_le 1
  | [t] => exact Nat.le_refl 1
  | t :: u :: rest =>
    obtain ⟨ht, hstart, hport⟩ := hplace t (by rw [hexits]; exact List.mem_cons_self)
    obtain ⟨hu, hstart', hport'⟩ := hplace u (by rw [hexits]; simp)
    have hsame := hdistinct ⟨t.index, ht⟩ ⟨u.index, hu⟩ (hstart.trans hstart'.symm)
      (hport.trans hport'.symm)
    rw [hexits] at hnodup
    have hne : t ≠ u := by
      rintro rfl
      simp at hnodup
    exact (hne (by cases t; cases u; simpa using hsame)).elim

/-- No window of the sentry's graph breaks a walk off. -/
theorem leads_rolls {τ : Type} [Clock Sentry τ] {t : TransitionId} {tr : Transition Sentry}
    (s : Session Sentry τ Xoshiro) (htr : (sentryGraph config).transition? t = some tr) :
    (Walk.rollGates t tr : Walk Sentry τ Xoshiro Bool).Leads s (fun _ _ => True) fun _ => False := by
  obtain ⟨r, hr, rfl⟩ := transition_of_route htr
  have hfits := routes_fit (List.mem_of_getElem? hr)
  exact leads_rollGates_narrow hfits.suitable hfits.narrow t

end Wiring

end BehaviourGraph.Patrol
