import RoadRunner.Basic
import RoadRunner.Lib.Trie

/-!
# Trees of fields

The model of the trees of `http/handler/parse.go`: the name of a field is split into indexes, and its
values are mounted at that path of a tree. A failed type assertion is `none`.

* `Name`: a field name, as the runes that `range` yields (U+FFFD for a byte that is no UTF-8).
* `address`, `mount_eq_place`: a field is a leaf at its address, the indexes without a trailing empty
  one.
* `Under`, `pushAll_eq_none_iff`: pushing the fields in an order fails exactly if one is under an
  earlier one.
-/

namespace RoadRunner.Http

/-- A field name, or one index of it. -/
abbrev Name := List Char

/-- The state of the loop of `FetchIndexes`: `keys` is `init` and `last`. -/
structure Indexes where
  pos : Nat := 0
  init : List Name := []
  last : Name := []

namespace Indexes

/-- `keys = append(keys, "")`. -/
def grow (s : Indexes) : Indexes := { s with init := s.init ++ [s.last], last := [] }

/-- The body of the loop, for the rune `c`. -/
def step (s : Indexes) (c : Char) : Indexes :=
  if c = ' ' then s
  else if c = '[' then { s with pos := 1 }
  else if c = ']' then
    let s := if s.pos = 1 then s.grow else s
    { s with pos := 2 }
  else
    let s := if s.pos = 1 ∨ s.pos = 2 then s.grow else s
    { s with last := s.last ++ [c], pos := 0 }

/-- The indexes found so far. -/
def keys (s : Indexes) : List Name := s.init ++ [s.last]

end Indexes

/-- `FetchIndexes`. -/
def fetchIndexes (s : Name) : List Name := (s.foldl Indexes.step {}).keys

/-- `MaxLevel`. -/
def maxLevel : Nat := 127

/-- A leaf of a tree: the value of a scalar field, or the values of an array. -/
inductive Leaf (α : Type) where
  | scalar (a : α)
  | array (as : List α)
  deriving DecidableEq

/-- `dataTree` and `fileTree`. -/
abbrev Tree (α : Type) := List (Name × Trie Name (Leaf α))

section

variable {α : Type} (pick : List α → Option α)

/-- `mount`, where `pick` is the value of a scalar field. -/
def mount : List Name → List α → Tree α → Option (Tree α)
  | [], _, _ => none
  | [k], v, d => (pick v).map fun a => Trie.insert k (.leaf (.scalar a)) d
  | k :: k' :: i, v, d =>
    if i = [] ∧ k' = [] then some (Trie.insert k (.leaf (.array v)) d)
    else
      match Trie.find k d with
      -- `p.(dataTree)` fails
      | some (.leaf _) => none
      | some (.node t) => (mount (k' :: i) v t).map fun t => Trie.insert k (.node t) d
      | none => (mount (k' :: i) v []).map fun t => Trie.insert k (.node t) d

/-- `push`: a name with more than `MaxLevel` indexes is left out. -/
def push (d : Tree α) (f : Name × List α) : Option (Tree α) :=
  if (fetchIndexes f.1).length ≤ maxLevel then mount pick (fetchIndexes f.1) f.2 d else some d

end

/-- `dataTree.push`: the last value of a scalar field. -/
def dataTreePush : Tree Bytes → Name × List Bytes → Option (Tree Bytes) := push List.getLast?

/-- `fileTree.push`: the first file of a scalar field. -/
def fileTreePush {α : Type} : Tree α → Name × List α → Option (Tree α) := push List.head?

/-! ## Addresses -/

/-- The path of the leaf of a field: the indexes, without a trailing empty one if there are others. -/
def address (i : List Name) : List Name :=
  if 2 ≤ i.length ∧ i.getLast? = some [] then i.dropLast else i

/-- What is mounted there: an array if the trailing index is empty, else one of the values. -/
def leafOf {α : Type} (pick : List α → Option α) (i : List Name) (v : List α) : Option (Leaf α) :=
  if 2 ≤ i.length ∧ i.getLast? = some [] then some (.array v) else (pick v).map .scalar

/-- A trailing empty index is the same one in the tail of the indexes. -/
theorem trailing_cons {k k' : Name} {i : List Name} (h : ¬ (i = [] ∧ k' = [])) :
    2 ≤ (k :: k' :: i).length ∧ (k :: k' :: i).getLast? = some [] ↔
      2 ≤ (k' :: i).length ∧ (k' :: i).getLast? = some [] := by
  cases i with
  | nil => simpa using h
  | cons k'' i => simp

theorem address_cons {k k' : Name} {i : List Name} (h : ¬ (i = [] ∧ k' = [])) :
    address (k :: k' :: i) = k :: address (k' :: i) := by
  simp only [address, trailing_cons h]
  split <;> rfl

theorem address_ne_nil {i : List Name} (h : i ≠ []) : address i ≠ [] := by
  unfold address
  split
  · rename_i hi
    intro hd
    have := congrArg List.length hd
    rw [List.length_dropLast, List.length_nil] at this
    omega
  · exact h

theorem fetchIndexes_ne_nil (s : Name) : fetchIndexes s ≠ [] := by
  simp [fetchIndexes, Indexes.keys]

/-- Mounting a field places a leaf at its address. -/
theorem mount_eq_place {α : Type} (pick : List α → Option α) {i : List Name} (hi : i ≠ []) (v : List α)
    (d : Tree α) :
    mount pick i v d = (leafOf pick i v).bind fun l => Trie.place (address i) l d := by
  induction i generalizing d with
  | nil => exact absurd rfl hi
  | cons k i ih =>
    cases i with
    | nil => cases hv : pick v <;> simp [mount, leafOf, address, Trie.place, hv]
    | cons k' i =>
      by_cases h : i = [] ∧ k' = []
      · obtain ⟨rfl, rfl⟩ := h
        simp [mount, leafOf, address, Trie.place]
      · have hleaf : leafOf pick (k :: k' :: i) v = leafOf pick (k' :: i) v := by
          simp only [leafOf, trailing_cons h]
        obtain ⟨k'', p, hp⟩ := List.exists_cons_of_ne_nil (address_ne_nil (List.cons_ne_nil k' i))
        rw [mount, if_neg h, hleaf, address_cons h, hp]
        simp only [ih (List.cons_ne_nil k' i), hp, Trie.place]
        cases leafOf pick (k' :: i) v with
        | none => rcases Trie.find k d with _ | _ | _ <;> rfl
        | some l => rcases Trie.find k d with _ | _ | _ <;> rfl

/-! ## Fields that are in each other's way -/

/-- The path of the field `k'` leads through the leaf of `k`, and neither is left out. -/
def Under (k k' : Name) : Prop :=
  (fetchIndexes k).length ≤ maxLevel ∧ (fetchIndexes k').length ≤ maxLevel ∧
    Trie.Through (address (fetchIndexes k)) (address (fetchIndexes k'))

instance (k k' : Name) : Decidable (Under k k') :=
  inferInstanceAs (Decidable ((fetchIndexes k).length ≤ maxLevel ∧
    (fetchIndexes k').length ≤ maxLevel ∧
    Trie.Through (address (fetchIndexes k)) (address (fetchIndexes k'))))

theorem not_under_self (k : Name) : ¬ Under k k := fun h => h.2.2.2 rfl

section

variable {α : Type} (pick : List α → Option α)

/-- The leaf of a field and its address, unless the field is left out. -/
def placed (f : Name × List α) : Option (List Name × Leaf α) :=
  if (fetchIndexes f.1).length ≤ maxLevel then
    (leafOf pick (fetchIndexes f.1) f.2).map fun l => (address (fetchIndexes f.1), l)
  else none

variable {pick} (hpick : ∀ v, v ≠ [] → pick v ≠ none)

include hpick

theorem leafOf_isSome (i : List Name) {v : List α} (hv : v ≠ []) : ∃ l, leafOf pick i v = some l := by
  unfold leafOf
  split
  · exact ⟨_, rfl⟩
  · obtain ⟨a, ha⟩ := Option.ne_none_iff_exists'.mp (hpick v hv)
    exact ⟨.scalar a, by rw [ha]; rfl⟩

/-- Pushing a field with values places its leaf, if it has one. -/
theorem push_eq (d : Tree α) {f : Name × List α} (hf : f.2 ≠ []) :
    push pick d f = match placed pick f with
      | some p => Trie.place p.1 p.2 d
      | none => some d := by
  obtain ⟨l, hl⟩ := leafOf_isSome hpick (fetchIndexes f.1) hf
  unfold push placed
  split
  · rw [mount_eq_place pick (fetchIndexes_ne_nil f.1), hl]
    rfl
  · rfl

theorem pushAll_eq_placeAll {fs : List (Name × List α)} (hfs : ∀ f ∈ fs, f.2 ≠ []) (d : Tree α) :
    fs.foldlM (push pick) d = Trie.placeAll (fs.filterMap (placed pick)) d := by
  induction fs generalizing d with
  | nil => rfl
  | cons f fs ih =>
    have ih := ih fun g hg => hfs g (List.mem_cons_of_mem f hg)
    rw [List.foldlM_cons, push_eq hpick d (hfs f List.mem_cons_self)]
    cases hp : placed pick f with
    | none =>
      rw [List.filterMap_cons_none hp]
      exact ih d
    | some p =>
      rw [List.filterMap_cons_some hp, Trie.placeAll, List.foldlM_cons]
      exact bind_congr ih

theorem through_placed {f g : Name × List α} (hf : f.2 ≠ []) (hg : g.2 ≠ []) :
    (∀ p ∈ placed pick f, ∀ q ∈ placed pick g, ¬ Trie.Through p.1 q.1) ↔ ¬ Under f.1 g.1 := by
  obtain ⟨l, hl⟩ := leafOf_isSome hpick (fetchIndexes f.1) hf
  obtain ⟨m, hm⟩ := leafOf_isSome hpick (fetchIndexes g.1) hg
  unfold placed Under
  by_cases hlf : (fetchIndexes f.1).length ≤ maxLevel <;>
    by_cases hlg : (fetchIndexes g.1).length ≤ maxLevel <;> simp [hlf, hlg, hl, hm]

/-- Pushing the fields in an order fails exactly if one is under an earlier one. -/
theorem pushAll_eq_none_iff {fs : List (Name × List α)} (hfs : ∀ f ∈ fs, f.2 ≠ []) :
    fs.foldlM (push pick) [] = none ↔ ¬ (fs.map Prod.fst).Pairwise fun k k' => ¬ Under k k' := by
  have hne : ∀ p ∈ fs.filterMap (placed pick), p.1 ≠ [] := by
    intro p hp
    obtain ⟨f, -, hf⟩ := List.mem_filterMap.mp hp
    unfold placed at hf
    split at hf
    · obtain ⟨l, -, rfl⟩ := Option.map_eq_some_iff.mp hf
      exact address_ne_nil (fetchIndexes_ne_nil f.1)
    · cases hf
  rw [pushAll_eq_placeAll hpick hfs, Trie.placeAll_eq_none_iff hne, List.pairwise_filterMap]
  rw [or_iff_right fun ⟨f, _, hb⟩ => Trie.not_blocked_nil _ hb]
  rw [List.pairwise_map]
  refine not_congr (List.Pairwise.iff_of_mem fun hf hg => ?_)
  exact through_placed hpick (hfs _ hf) (hfs _ hg)

end

end RoadRunner.Http
