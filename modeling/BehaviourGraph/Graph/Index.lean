/-!
# Indexes

An index groups identifiers by key: the elements of a graph by label, the transitions of a node by port.
Keys need not differ: a group lists all identifiers with its key, in the order in which they were entered.
What has no key is in no group.
-/

namespace BehaviourGraph

variable {ι α β : Type}

/-! ## Entries -/

/-- What an array holds, each with its label and with the identifier that has the number of its
place. -/
def placed (id : Nat → α) (label? : β → Option ι) (xs : Array β) : List (Option ι × α) :=
  (xs.toList.map label?).zipIdx.map fun (label, i) => (label, id i)

section Placed

variable {id : Nat → α} {number : α → Nat} {label? : β → Option ι} {xs : Array β}

theorem placed_push (x : β) :
    placed id label? (xs.push x) = placed id label? xs ++ [(label? x, id xs.size)] := by
  simp [placed, List.zipIdx_append]

/-- Only the labels matter of what an array holds. -/
theorem placed_modify {i : Nat} {f : β → β} (hlabel : ∀ x, xs[i]? = some x → label? (f x) = label? x) :
    placed id label? (xs.modify i f) = placed id label? xs := by
  have hlabels : (xs.modify i f).toList.map label? = xs.toList.map label? := by
    refine List.ext_getElem? fun j => ?_
    rw [List.getElem?_map, List.getElem?_map, Array.getElem?_toList, Array.getElem?_toList,
      Array.getElem?_modify]
    split
    next hij =>
      subst hij
      cases hx : xs[i]? with
      | none => rfl
      | some x => exact congrArg some (hlabel x hx)
    next => rfl
  rw [placed, hlabels, placed]

theorem mem_placed (hid : ∀ a, id (number a) = a) (hnumber : ∀ i, number (id i) = i)
    {label : Option ι} {a : α} :
    (label, a) ∈ placed id label? xs ↔ xs[number a]?.map label? = some label := by
  simp only [placed, List.mem_map, Prod.exists, Prod.mk.injEq, List.mem_zipIdx_iff_getElem?,
    List.getElem?_map, Array.getElem?_toList]
  constructor
  · rintro ⟨_, i, hi, rfl, rfl⟩
    rwa [hnumber]
  · intro ha
    exact ⟨label, number a, ha, rfl, hid a⟩

end Placed

variable [DecidableEq ι]

/-- The identifiers that entries give a label, in order. -/
def labelled (label : ι) (entries : List (Option ι × α)) : List α :=
  (entries.filter fun e => e.1 = some label).map Prod.snd

theorem mem_labelled {label : ι} {entries : List (Option ι × α)} {id : α} :
    id ∈ labelled label entries ↔ (some label, id) ∈ entries := by
  simp only [labelled, List.mem_map, List.mem_filter, decide_eq_true_eq]
  constructor
  · rintro ⟨⟨_, _⟩, ⟨he, rfl⟩, rfl⟩
    exact he
  · intro he
    exact ⟨_, ⟨he, rfl⟩, rfl⟩

/-- Numbers are in increasing order under every label. -/
theorem pairwise_labelled_placed {id : Nat → α} {number : α → Nat} {label? : β → Option ι}
    {xs : Array β} (hnumber : ∀ i, number (id i) = i) (label : ι) :
    (labelled label (placed id label? xs)).Pairwise fun a b => number a < number b := by
  have hplaces : ((xs.toList.map label?).zipIdx.map Prod.snd).Pairwise (· < ·) := by
    rw [List.zipIdx_map_snd]
    exact List.pairwise_lt_range'
  have hall : (placed id label? xs).Pairwise fun e f => number e.2 < number f.2 :=
    List.Pairwise.map _ (fun _ _ hlt => by rwa [hnumber, hnumber]) (List.pairwise_map.mp hplaces)
  exact List.pairwise_map.mpr (hall.filter _)

/-! ## Groups -/

structure Index (ι α : Type) where
  /-- One group for each key that has been entered. -/
  groups : List (ι × List α) := []

namespace Index

def findGroup (key : ι) : List (ι × List α) → List α
  | [] => []
  | (other, ids) :: groups => if key = other then ids else findGroup key groups

/-- Put an identifier at the end of the group of a key, which is a new one if there was none. -/
def enterGroup (key : ι) (id : α) : List (ι × List α) → List (ι × List α)
  | [] => [(key, [id])]
  | (other, ids) :: groups =>
    if key = other then (other, ids ++ [id]) :: groups
    else (other, ids) :: enterGroup key id groups

theorem findGroup_enterGroup (key entered : ι) (id : α) (groups : List (ι × List α)) :
    findGroup key (enterGroup entered id groups) =
      findGroup key groups ++ if entered = key then [id] else [] := by
  induction groups with
  | nil => simp [findGroup, enterGroup, eq_comm]
  | cons group groups ih =>
      obtain ⟨other, ids⟩ := group
      by_cases hentered : entered = other
      · subst hentered
        by_cases hkey : key = entered
        · simp [findGroup, enterGroup, hkey]
        · simp [findGroup, enterGroup, hkey, Ne.symm hkey]
      · by_cases hkey : key = other
        · simp [findGroup, enterGroup, hentered, hkey]
        · simp [findGroup, enterGroup, hentered, hkey, ih]

def find (index : Index ι α) (key : ι) : List α := findGroup key index.groups

def enter (key : ι) (id : α) (index : Index ι α) : Index ι α :=
  ⟨enterGroup key id index.groups⟩

theorem find_enter (key entered : ι) (id : α) (index : Index ι α) :
    (index.enter entered id).find key = index.find key ++ if entered = key then [id] else [] :=
  findGroup_enterGroup key entered id index.groups

/-- Enter an identifier, if it has a key. -/
def enter? (index : Index ι α) : Option ι × α → Index ι α
  | (some key, id) => index.enter key id
  | (none, _) => index

def ofList (entries : List (Option ι × α)) : Index ι α := entries.foldl enter? {}

theorem find_foldl (key : ι) (entries : List (Option ι × α)) (index : Index ι α) :
    (entries.foldl enter? index).find key = index.find key ++ labelled key entries := by
  induction entries generalizing index with
  | nil => exact (List.append_nil _).symm
  | cons e entries ih =>
      obtain ⟨key?, id⟩ := e
      rw [List.foldl_cons, ih]
      cases key? with
      | none => simp [enter?, labelled]
      | some entered => by_cases h : entered = key <;> simp [enter?, find_enter, labelled, h]

/-- A group holds what has its key, in the order of the entries. -/
theorem find_ofList (key : ι) (entries : List (Option ι × α)) :
    (ofList entries).find key = labelled key entries := find_foldl key entries {}

end Index

end BehaviourGraph
