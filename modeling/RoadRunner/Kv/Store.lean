import RoadRunner.Boltkv.Driver

/-!
# Stores with an expiry

What the key-value drivers for redis and memcached share. The server keeps, with a value, the time from which it
is not read any more; a time is in nanoseconds since 1970.

* `setLoop`: the loop of `Set`, with what the drivers have of their own: the error for a nil item, the expiration
  that they hand to the client, and what the server makes of it.
-/

namespace RoadRunner.Kv

open Boltkv (Item)

/-- An entry of a server. -/
structure Entry where
  value : Bytes
  /-- The time from which the key is not read any more, if there is one. -/
  expiry : Option Int
  deriving DecidableEq

/-- The entries of a server, by their keys. -/
abbrev Store := Bytes → Option Entry

/-- The key is read at the time `now`. -/
def Entry.Readable (now : Int) (e : Entry) : Prop := ∀ t ∈ e.expiry, now < t

instance (now : Int) (e : Entry) : Decidable (e.Readable now) :=
  match h : e.expiry with
  | none => .isTrue (by simp [Entry.Readable, h])
  | some t => decidable_of_iff (now < t) (by simp [Entry.Readable, h])

/-- The timeout `t` is honoured at the time `now` of the call: if it is over, the key is not read; otherwise the
key expires less than a second from `t`. -/
def Honours (now t : Int) (e : Entry) : Prop :=
  if t ≤ now then ¬ e.Readable now else ∃ x ∈ e.expiry, x < t + 1000000000 ∧ t < x + 1000000000

theorem not_honours_of_never {now t : Int} {e : Entry} (h : e.expiry = none) : ¬ Honours now t e := by
  unfold Honours
  split
  · exact fun hread => hread (by simp [Entry.Readable, h])
  · simp [h]

theorem honours_of_expiry {now t x : Int} {e : Entry} (h : e.expiry = some x) :
    Honours now t e ↔ (t ≤ now ∧ x ≤ now) ∨ (now < t ∧ x < t + 1000000000 ∧ t < x + 1000000000) := by
  unfold Honours Entry.Readable
  rw [h]
  split
  · simp only [Option.mem_def, Option.some.injEq, forall_eq']
    omega
  · simp only [Option.mem_def, Option.some.injEq, exists_eq_left']
    omega

section

variable {X : Type} (nilItem : Err) (expiration : Item → Except Err X) (put : X → Item → Store → Store)
  (fails : Nat → Bool)

/-- The loop of `Set` from the item `i` on; `fails i` if the client's call for it does. -/
def setLoop : Nat → List (Option Item) → Store → Option Err × Store
  | _, [], s => (none, s)
  | _, none :: _, s => (some nilItem, s)
  | i, some item :: items, s =>
    match expiration item with
    | .error err => (some err, s)
    | .ok x =>
      if fails i then (some (.lib "Set"), s)
      else setLoop (i + 1) items (put x item s)

/-- An iteration of a call that succeeds. -/
theorem setLoop_cons {i : Nat} {item : Option Item} {items : List (Option Item)} {s : Store}
    (h : (setLoop nilItem expiration put fails i (item :: items) s).1 = none) :
    ∃ it x, item = some it ∧ expiration it = .ok x ∧
      setLoop nilItem expiration put fails i (item :: items) s =
        setLoop nilItem expiration put fails (i + 1) items (put x it s) := by
  cases item with
  | none => cases h
  | some it =>
    rw [setLoop] at h ⊢
    cases hx : expiration it with
    | error err => rw [hx] at h; cases h
    | ok x =>
      simp only [hx] at h ⊢
      split at h
      · cases h
      · rename_i hfails
        exact ⟨it, x, rfl, hx, if_neg hfails⟩

variable (hput : ∀ x item s k, k ≠ item.key → put x item s k = s k)

include hput in
/-- A call leaves a key that it does not name. -/
theorem setLoop_of_not_named {i : Nat} {items : List (Option Item)} {s : Store} {k : Bytes}
    (hk : ∀ item, some item ∈ items → item.key ≠ k)
    (h : (setLoop nilItem expiration put fails i items s).1 = none) :
    (setLoop nilItem expiration put fails i items s).2 k = s k := by
  induction items generalizing i s with
  | nil => rfl
  | cons item items ih =>
    obtain ⟨it, x, rfl, -, heq⟩ := setLoop_cons nilItem expiration put fails h
    rw [heq] at h ⊢
    rw [ih (fun j hj => hk j (List.mem_cons_of_mem _ hj)) h]
    exact hput x it s k (hk it List.mem_cons_self).symm

include hput in
/-- After a call that succeeds a key has what was put for the last item with the key. -/
theorem setLoop_last {i : Nat} {pre post : List (Option Item)} {item : Item} {s : Store}
    (hlast : ∀ other, some other ∈ post → other.key ≠ item.key)
    (h : (setLoop nilItem expiration put fails i (pre ++ some item :: post) s).1 = none) :
    ∃ x s', expiration item = .ok x ∧
      (setLoop nilItem expiration put fails i (pre ++ some item :: post) s).2 item.key =
        put x item s' item.key := by
  induction pre generalizing i s with
  | nil =>
    obtain ⟨it, x, hit, hx, heq⟩ := setLoop_cons nilItem expiration put fails h
    cases hit
    rw [List.nil_append, heq] at h ⊢
    exact ⟨x, s, hx, setLoop_of_not_named nilItem expiration put fails hput hlast h⟩
  | cons j pre ih =>
    rw [List.cons_append] at h ⊢
    obtain ⟨it, x, -, -, heq⟩ := setLoop_cons nilItem expiration put fails h
    rw [heq] at h ⊢
    exact ih h

end

end RoadRunner.Kv
