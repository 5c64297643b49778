/-!
# Pools of recycled objects

A pool hands out idle objects again instead of making new ones. Which idle object a `get` returns,
or that it makes a new one although there are idle ones, is up to the runtime: `pick` is its
choice, and a proof is about every choice. An object that the runtime drops is one that is never
picked again.

* `Pool.get_empty`: a pool without idle objects makes a new one.
* `Pool.All P p`: every idle object meets `P`.
* `Pool.get_all`: if the new object and every idle one meet `P`, so do the object handed out and
  the objects left.
-/

/-- The idle objects of a pool. -/
structure Pool (α : Type) where
  idle : List α
  deriving DecidableEq

namespace Pool

variable {α : Type}

/-- The pool without idle objects. -/
def empty : Pool α := ⟨[]⟩

/-- Take the idle object that the runtime picks, or a new one. -/
def get (new : α) (pick : Option Nat) (p : Pool α) : α × Pool α :=
  match pick with
  | none => (new, p)
  | some n =>
    match p.idle[n]? with
    | none => (new, p)
    | some a => (a, ⟨p.idle.eraseIdx n⟩)

/-- Give an object back. -/
def put (a : α) (p : Pool α) : Pool α := ⟨a :: p.idle⟩

@[simp] theorem get_empty (new : α) (pick : Option Nat) : empty.get new pick = (new, empty) := by
  cases pick <;> rfl

/-- Every idle object meets `P`. -/
def All (P : α → Prop) (p : Pool α) : Prop := ∀ a ∈ p.idle, P a

@[simp] theorem all_empty (P : α → Prop) : All P empty := fun _ h => absurd h List.not_mem_nil

theorem All.put {P : α → Prop} {p : Pool α} {a : α} (hp : p.All P) (ha : P a) :
    (p.put a).All P := by
  intro b hb
  rcases List.mem_cons.mp hb with rfl | hb
  · exact ha
  · exact hp b hb

/-- What holds of a new object and of every idle one holds of the object handed out and of the
idle ones left. -/
theorem get_all {P : α → Prop} {new : α} {p : Pool α} (hp : p.All P) (hnew : P new)
    (pick : Option Nat) : P (p.get new pick).1 ∧ (p.get new pick).2.All P := by
  unfold get
  split
  · exact ⟨hnew, hp⟩
  · rename_i n
    split
    · exact ⟨hnew, hp⟩
    · rename_i a ha
      exact ⟨hp a (List.mem_of_getElem? ha), fun b hb => hp b (List.mem_of_mem_eraseIdx hb)⟩

end Pool
