import BehaviourGraph.Proofs.Relaxation.Region

/-!
# Relaxing in any order

What an earlier descent has taken down, a later one cannot follow any more.  But whatever it would
have come to that way was in the region of the earlier one as well, so together they take down the
union of their regions, each told by the marking before both.  A list of requests to relax therefore
takes down what its members reach, however they are ordered and repeated.
-/

namespace BehaviourGraph

namespace Marking

variable {next : Element → List Element} {m : Marking} {e e' f : Element} {es es' : List Element}

/-- Outside the region of an element, relaxing it cuts no path. -/
theorem region_relax_iff (hf : ¬m.Region next e f) :
    (m.relax next e).Region next e' f ↔ m.Region next e' f := by
  refine ⟨fun h => h.mono (relax_below next e m), fun h => ?_⟩
  obtain ⟨he', hpath⟩ := h
  induction hpath with
  | refl => exact .self (has_relax_iff.mpr ⟨he', hf⟩)
  | tail _ hlast ih =>
      obtain ⟨hnext, hup⟩ := hlast
      -- a path that leaves the region would have to come back out of it
      have hbefore := ih fun hregion => hf (hregion.extend hnext hup)
      exact hbefore.extend hnext (has_relax_iff.mpr ⟨hup, hf⟩)

/-- Relaxing some elements in turn takes down the flags of their regions. -/
theorem has_foldl_relax_iff :
    (es.foldl (fun m e => m.relax next e) m).has f = true ↔
      m.has f = true ∧ ∀ e ∈ es, ¬m.Region next e f := by
  induction es generalizing m with
  | nil => simp
  | cons e es ih =>
      rw [List.foldl_cons, ih, has_relax_iff, List.forall_mem_cons, and_assoc]
      refine and_congr_right fun _ => and_congr_right fun hf => ?_
      exact forall₂_congr fun e' _ => not_congr (region_relax_iff hf)

/-- A raised element keeps its flag if something that comes right after it does. -/
theorem has_foldl_relax_of_next (he : m.has e = true) (hf : f ∈ next e)
    (h : (es.foldl (fun m e => m.relax next e) m).has f = true) :
    (es.foldl (fun m e => m.relax next e) m).has e = true := by
  obtain ⟨hup, hregion⟩ := has_foldl_relax_iff.mp h
  exact has_foldl_relax_iff.mpr ⟨he, fun e' he' h => hregion e' he' (h.extend hf hup)⟩

theorem foldl_relax_congr (hsame : ∀ e, e ∈ es ↔ e ∈ es') :
    es.foldl (fun m e => m.relax next e) m = es'.foldl (fun m e => m.relax next e) m := by
  have hbelow (es : List Element) : (es.foldl (fun m e => m.relax next e) m).Below m :=
    foldl_below (fun m e => relax_below next e m) es m
  have hle (es es' : List Element) (hsub : ∀ e, e ∈ es' → e ∈ es) :
      (es.foldl (fun m e => m.relax next e) m).Below
        (es'.foldl (fun m e => m.relax next e) m) := by
    refine ⟨fun f hf => ?_, ?_, ?_⟩
    · obtain ⟨hup, hregion⟩ := has_foldl_relax_iff.mp hf
      exact has_foldl_relax_iff.mpr ⟨hup, fun e he => hregion e (hsub e he)⟩
    · rw [(hbelow es).nodes, (hbelow es').nodes]
    · rw [(hbelow es).transitions, (hbelow es').transitions]
  exact (hle es es' fun e => (hsame e).mpr).antisymm (hle es' es fun e => (hsame e).mp)

end Marking

/-! ## Ports that are not chosen -/

section Choices

variable {κ : Type} {g : Graph κ} {s : State} {id : NodeId} {n : Node κ} {chosen : Option Port}

def Graph.excluded (g : Graph κ) (id : NodeId) (n : Node κ) (chosen : Option Port) :
    List TransitionId :=
  (n.behaviour.ports.filter fun port => some port ≠ chosen).flatMap (g.exits id)

theorem Graph.mem_excluded {t : TransitionId} :
    t ∈ g.excluded id n chosen ↔
      ∃ port, t ∈ g.exits id port ∧ port ∈ n.behaviour.ports ∧ chosen ≠ some port := by
  simp only [excluded, List.mem_flatMap, List.mem_filter, decide_eq_true_eq]
  constructor
  · rintro ⟨port, ⟨hport, hne⟩, ht⟩
    exact ⟨port, ht, hport, hne.symm⟩
  · rintro ⟨port, ht, hport, hne⟩
    exact ⟨port, ⟨hport, hne.symm⟩, ht⟩

theorem State.marking_relaxPort (flag : Flag) (port : Port) :
    (s.relaxPort g id port).marking flag =
      ((g.exits id port).map .transition).foldl (fun m e => m.relax g.next e) (s.marking flag) := by
  rw [List.foldl_map]
  refine (List.foldl_hom (fun s : State => s.marking flag) fun s t => ?_).symm
  cases flag <;> rfl

/-- A choice relaxes the transitions that it excludes, each flag for itself. -/
theorem State.marking_relaxOthers (flag : Flag) :
    (s.relaxOthers g id n chosen).marking flag =
      ((g.excluded id n chosen).map .transition).foldl (fun m e => m.relax g.next e)
        (s.marking flag) := by
  unfold relaxOthers Graph.excluded
  generalize n.behaviour.ports.filter _ = ports
  induction ports generalizing s with
  | nil => rfl
  | cons port ports ih =>
      rw [List.foldl_cons, ih, marking_relaxPort, List.flatMap_cons, List.map_append,
        List.foldl_append]

end Choices

/-! ## Lists of requests -/

section Requests

variable {κ τ ρ : Type} [Clock κ τ] [RandomSource ρ]

/-- Perform requests in order, whether or not some are refused. -/
def Session.performAll (g : Graph κ) (operations : List Operation) (s : Session κ τ ρ) :
    Session κ τ ρ :=
  operations.foldl (fun s operation => (s.perform g operation).2) s

def Graph.relaxedBy (g : Graph κ) (flag : Flag) (requests : List (Flag × Element)) : List Element :=
  requests.filterMap fun r => if r.1 = flag ∧ g.hasElement r.2 = true then some r.2 else none

theorem Graph.mem_relaxedBy {g : Graph κ} {flag : Flag} {requests : List (Flag × Element)}
    {e : Element} :
    e ∈ g.relaxedBy flag requests ↔ (flag, e) ∈ requests ∧ g.hasElement e = true := by
  simp only [relaxedBy, List.mem_filterMap, Option.ite_none_right_eq_some, Option.some.injEq]
  constructor
  · rintro ⟨⟨flag', e'⟩, hmem, ⟨rfl, hhas⟩, rfl⟩
    exact ⟨hmem, hhas⟩
  · rintro ⟨hmem, hhas⟩
    exact ⟨(flag, e), hmem, ⟨rfl, hhas⟩, rfl⟩

/-- Requests to relax come down to relaxing each of the two markings. -/
theorem Session.performAll_relax (g : Graph κ) (requests : List (Flag × Element))
    (s : Session κ τ ρ) :
    s.performAll g (requests.map fun r => .relax r.1 r.2) =
      s.change fun a =>
        { a with
          active := (g.relaxedBy .active requests).foldl (fun m e => m.relax g.next e) a.active
          visited := (g.relaxedBy .visited requests).foldl (fun m e => m.relax g.next e) a.visited } := by
  induction requests generalizing s with
  | nil => rfl
  | cons r requests ih =>
      obtain ⟨flag, e⟩ := r
      have hfirst : s.performAll g (((flag, e) :: requests).map fun r => .relax r.1 r.2) =
          (s.perform g (.relax flag e)).2.performAll g (requests.map fun r => .relax r.1 r.2) := rfl
      rw [hfirst, ih]
      cases hhas : g.hasElement e with
      | false => simp [Session.perform, Session.provided, Graph.relaxedBy, hhas]
      | true =>
          cases flag <;>
            simp [Session.perform, Session.provided, Graph.relaxedBy, hhas, Session.change, State.relax]

/-- Lists of requests to relax that have the same members end in the same session. -/
theorem performAll_relax_congr (g : Graph κ) (s : Session κ τ ρ)
    (requests requests' : List (Flag × Element)) (hsame : ∀ r, r ∈ requests ↔ r ∈ requests') :
    s.performAll g (requests.map fun r => .relax r.1 r.2) =
      s.performAll g (requests'.map fun r => .relax r.1 r.2) := by
  have hmembers (flag : Flag) (e : Element) :
      e ∈ g.relaxedBy flag requests ↔ e ∈ g.relaxedBy flag requests' := by
    rw [Graph.mem_relaxedBy, Graph.mem_relaxedBy, hsame]
  have hmarking (flag : Flag) (m : Marking) :
      (g.relaxedBy flag requests).foldl (fun m e => m.relax g.next e) m =
        (g.relaxedBy flag requests').foldl (fun m e => m.relax g.next e) m :=
    Marking.foldl_relax_congr (hmembers flag)
  rw [Session.performAll_relax, Session.performAll_relax]
  simp only [hmarking]

end Requests

/-- From the transition into the ring, from inside the ring, and of an unknown node. -/
def ringRequests : List (Flag × Element) :=
  [(.active, .transition ⟨0⟩), (.active, .node ⟨2⟩), (.active, .node ⟨7⟩)]

def ringRequestsAgain : List (Flag × Element) :=
  [(.active, .node ⟨2⟩), (.active, .node ⟨7⟩), (.active, .transition ⟨0⟩), (.active, .node ⟨2⟩)]

theorem ring_relaxed_either_way :
    (∀ r, r ∈ ringRequests ↔ r ∈ ringRequestsAgain) ∧
      ringed.performAll ringGraph (ringRequests.map fun r => .relax r.1 r.2) =
        ringed.performAll ringGraph (ringRequestsAgain.map fun r => .relax r.1 r.2) ∧
      ringed.state.has .active (.node ⟨1⟩) = true ∧
      (ringed.performAll ringGraph (ringRequests.map fun r => .relax r.1 r.2)).state.has .active
        (.node ⟨1⟩) = false := by
  have hsame (r : Flag × Element) : r ∈ ringRequests ↔ r ∈ ringRequestsAgain := by
    simp only [ringRequests, ringRequestsAgain, List.mem_cons, List.not_mem_nil, or_false]
    grind
  exact ⟨hsame, performAll_relax_congr ringGraph ringed _ _ hsame, by decide +kernel,
    by decide +kernel⟩

end BehaviourGraph
