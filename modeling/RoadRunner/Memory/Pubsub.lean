import RoadRunner.Basic

/-!
# The in-memory pub/sub driver

The model of `memory/memorypubsub`. Its storage is the interface `bst.Storage` of another module, so it is a parameter,
and what is assumed of it stands where it is used.

* `Bst`: the methods that the driver calls. `LawfulBst`: `Insert` and `Remove` change the pair that they are called for
  and no other one.
* `subscribe`, `unsubscribe`, `connections`: the driver's methods. Their loops over the topics are folds, and
  `mem_subscribe`, `mem_unsubscribe` say what a lawful storage lists after them.
-/

namespace RoadRunner.Memory

/-- `bst.Storage`. -/
class Bst (S : Type) where
  /-- `NewBST`. -/
  new : S
  /-- `Insert(uuid, topic)`. -/
  insert : S → Bytes → Bytes → S
  /-- `Remove(uuid, topic)`. -/
  remove : S → Bytes → Bytes → S
  /-- `Get`: the ids under a topic. -/
  get : S → Bytes → Finset Bytes
  /-- `Contains`: the storage has the topic. -/
  contains : S → Bytes → Bool

/-- The storage is a set of pairs of an id and a topic. -/
class LawfulBst (S : Type) [Bst S] : Prop where
  mem_insert : ∀ (s : S) (id topic i t : Bytes),
    i ∈ Bst.get (Bst.insert s id topic) t ↔ i ∈ Bst.get s t ∨ i = id ∧ t = topic
  mem_remove : ∀ (s : S) (id topic i t : Bytes),
    i ∈ Bst.get (Bst.remove s id topic) t ↔ i ∈ Bst.get s t ∧ ¬ (i = id ∧ t = topic)

/-- `Contains` finds the topics under which `Get` finds an id. -/
class ConsistentBst (S : Type) [Bst S] : Prop where
  contains_of_mem : ∀ {s : S} {id topic : Bytes}, id ∈ Bst.get s topic → Bst.contains s topic = true

section

variable {S : Type} [Bst S]

/-- `Subscribe`. -/
def subscribe (s : S) (connectionID : Bytes) (topics : List Bytes) : S :=
  topics.foldl (fun s topic => Bst.insert s connectionID topic) s

/-- `Unsubscribe`. -/
def unsubscribe (s : S) (connectionID : Bytes) (topics : List Bytes) : S :=
  topics.foldl (fun s topic => Bst.remove s connectionID topic) s

/-- `Connections`. -/
def connections (s : S) (topic : Bytes) (res : Finset Bytes) : Finset Bytes := res ∪ Bst.get s topic

@[simp] theorem connections_empty (s : S) (topic : Bytes) : connections s topic ∅ = Bst.get s topic :=
  Finset.empty_union _

variable [LawfulBst S] {s : S} {connectionID i t : Bytes} {topics : List Bytes}

theorem mem_subscribe :
    i ∈ Bst.get (subscribe s connectionID topics) t ↔ i ∈ Bst.get s t ∨ i = connectionID ∧ t ∈ topics := by
  induction topics generalizing s with
  | nil => simp [subscribe]
  | cons topic topics ih =>
    have hrest := @ih (Bst.insert s connectionID topic)
    simp only [subscribe, List.foldl_cons, LawfulBst.mem_insert, List.mem_cons] at hrest ⊢
    rw [hrest, and_or_left, or_assoc]

theorem mem_unsubscribe :
    i ∈ Bst.get (unsubscribe s connectionID topics) t ↔ i ∈ Bst.get s t ∧ ¬ (i = connectionID ∧ t ∈ topics) := by
  induction topics generalizing s with
  | nil => simp [unsubscribe]
  | cons topic topics ih =>
    have hrest := @ih (Bst.remove s connectionID topic)
    simp only [unsubscribe, List.foldl_cons, LawfulBst.mem_remove, List.mem_cons] at hrest ⊢
    rw [hrest, and_or_left, not_or, and_assoc]

end

/-- The set of the pairs. -/
abbrev PairSet := Finset (Bytes × Bytes)

instance PairSet.bst : Bst PairSet where
  new := ∅
  insert s id topic := Insert.insert (id, topic) s
  remove s id topic := s.erase (id, topic)
  get s topic := (s.filter fun p => p.2 = topic).image Prod.fst
  contains s topic := topic ∈ s.image Prod.snd

instance PairSet.lawful : LawfulBst PairSet where
  mem_insert s id topic i t := by simp [Bst.get, Bst.insert, or_comm]
  mem_remove s id topic i t := by simp [Bst.get, Bst.remove, and_comm]

instance PairSet.consistent : ConsistentBst PairSet where
  contains_of_mem {s id topic} h := by
    obtain ⟨p, hp, -⟩ := Finset.mem_image.mp h
    obtain ⟨hmem, rfl⟩ := Finset.mem_filter.mp hp
    exact decide_eq_true (Finset.mem_image_of_mem Prod.snd hmem)

end RoadRunner.Memory
