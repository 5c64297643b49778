import RoadRunner.Boltkv.Expiry

/-!
# What a failing Set leaves behind

`Set` of the boltdb driver puts item after item into a transaction, checks the timeout of an item after its `Put`, and
stores it in the map. The deferred call commits the transaction on every return, and its error is not returned.

* `puts`, `timed`: the items that are put, and those whose timeout is stored, before `Set` returns. `Passes`: the loop
  gets to its end.
* `setItems_spec`: what the loop comes to, in these terms. `set_spec`: what `Set` comes to.
* `set_atomic_iff`: which calls are atomic, whatever the file has.
-/

namespace RoadRunner.Boltkv

variable {V : Type} (env : Env V)

/-- The bucket with the items, in their order. -/
def storeAll (items : List Item) (b : Bucket Bytes V) : Bucket Bytes V :=
  (items.map fun item => (item.key, env.encode item.value)).foldl (fun b e => b.put e.1 e.2) b

/-- The map with the timeouts of the items. -/
def timeAll (items : List Item) (gc : Bucket Bytes Bytes) : Bucket Bytes Bytes :=
  (items.map fun item => (item.key, item.timeout)).foldl (fun gc e => gc.put e.1 e.2) gc

/-- The timeout of the item is no time. -/
def Untimely (item : Item) : Prop := item.timeout ≠ [] ∧ env.parse item.timeout = none

instance (item : Item) : Decidable (Untimely env item) := inferInstanceAs (Decidable (_ ∧ _))

/-- The `i`-th item is not put. -/
def Faults.Refuses (f : Faults) (i : Nat) : Prop := f.encode = some i ∨ f.put = some i

instance (f : Faults) (i : Nat) : Decidable (f.Refuses i) := inferInstanceAs (Decidable (_ ∨ _))

/-- The loop of `Set`, from the item `i` on, gets to its end. -/
def Passes (f : Faults) : Nat → List Item → Prop
  | _, [] => True
  | i, item :: items => ¬ f.Refuses i ∧ ¬ Untimely env item ∧ Passes f (i + 1) items

instance Passes.decidable (f : Faults) : (i : Nat) → (items : List Item) → Decidable (Passes env f i items)
  | _, [] => inferInstanceAs (Decidable True)
  | i, item :: items =>
    have := Passes.decidable f (i + 1) items
    inferInstanceAs (Decidable (¬ f.Refuses i ∧ ¬ Untimely env item ∧ Passes env f (i + 1) items))

/-- The items that the loop puts. -/
def puts (f : Faults) : Nat → List Item → List Item
  | _, [] => []
  | i, item :: items =>
    if f.Refuses i then [] else item :: if Untimely env item then [] else puts f (i + 1) items

/-- The items whose timeout the loop stores. -/
def timed (f : Faults) : Nat → List Item → List Item
  | _, [] => []
  | i, item :: items =>
    if f.Refuses i ∨ Untimely env item then []
    else if item.timeout = [] then timed f (i + 1) items else item :: timed f (i + 1) items

variable {env}

theorem setItems_spec (f : Faults) (i : Nat) (items : List Item) (d : Driver V) :
    ((d.setItems env f i items).1 = none ↔ Passes env f i items) ∧
      (d.setItems env f i items).2 =
        ⟨storeAll env (puts env f i items) d.bucket, timeAll (timed env f i items) d.gc⟩ := by
  induction items generalizing i d with
  | nil => exact ⟨iff_of_true rfl trivial, rfl⟩
  | cons item items ih =>
    rw [Driver.setItems, Passes, puts, timed]
    by_cases hencode : f.encode = some i
    · have hrefuses : f.Refuses i := .inl hencode
      simp only [hencode, hrefuses, ↓reduceIte, true_or]
      exact ⟨iff_of_false (fun h => by cases h) fun h => h.1 trivial, rfl⟩
    by_cases hput : f.put = some i
    · have hrefuses : f.Refuses i := .inr hput
      simp only [hencode, hput, hrefuses, ↓reduceIte, true_or]
      exact ⟨iff_of_false (fun h => by cases h) fun h => h.1 trivial, rfl⟩
    have hrefuses : ¬ f.Refuses i := not_or.mpr ⟨hencode, hput⟩
    simp only [hencode, hput, hrefuses, ↓reduceIte, not_false_eq_true, true_and, false_or]
    by_cases ht : item.timeout = []
    · have htimely : ¬ Untimely env item := fun h => h.1 ht
      simp only [ht, htimely, ↓reduceIte, not_false_eq_true, true_and]
      exact ih (i + 1) _
    cases hparse : env.parse item.timeout with
    | none =>
      have huntimely : Untimely env item := ⟨ht, hparse⟩
      simp only [ht, huntimely, ↓reduceIte, not_true_eq_false, false_and, iff_false]
      exact ⟨(fun h => by cases h), rfl⟩
    | some t =>
      have htimely : ¬ Untimely env item := fun h => by cases hparse.symm.trans h.2
      simp only [ht, htimely, ↓reduceIte, not_false_eq_true, true_and]
      exact ih (i + 1) _

theorem puts_of_passes {f : Faults} {i : Nat} {items : List Item} (h : Passes env f i items) :
    puts env f i items = items := by
  induction items generalizing i with
  | nil => rfl
  | cons item items ih => rw [puts, if_neg h.1, if_neg h.2.1, ih h.2.2]

variable (env) in
/-- A call of `Set` that gets its transaction. -/
theorem set_spec {f : Faults} (hbegin : f.beginTx = false) (items : List Item) (d : Driver V) :
    ((d.set env (some items) f).1 = none ↔ Passes env f 0 items) ∧
      (d.set env (some items) f).2 =
        ⟨if f.commit then d.bucket else storeAll env (puts env f 0 items) d.bucket,
          timeAll (timed env f 0 items) d.gc⟩ := by
  obtain ⟨herr, hout⟩ := setItems_spec f 0 items d
  rw [Driver.set]
  simp only [hbegin, Bool.false_eq_true, ↓reduceIte]
  refine ⟨herr, ?_⟩
  rw [hout]

/-- Items change the empty bucket. -/
theorem storeAll_empty_iff {items : List Item} : storeAll env items .empty = .empty ↔ items = [] := by
  rw [storeAll, Bucket.foldl_put_empty_iff, List.map_eq_nil_iff]

theorem timeAll_empty_iff {items : List Item} : timeAll items .empty = .empty ↔ items = [] := by
  rw [timeAll, Bucket.foldl_put_empty_iff, List.map_eq_nil_iff]

/-- The call either fails and changes nothing, or returns nil and has committed all items. -/
def Atomic (env : Env V) (items : Option (List Item)) (f : Faults) (d : Driver V) : Prop :=
  ((d.set env items f).1 ≠ none → (d.set env items f).2 = d) ∧
    ((d.set env items f).1 = none → (d.set env items f).2.bucket = storeAll env (items.getD []) d.bucket)

/-- A call without a transaction, or without items. -/
theorem atomic_of_unbegun {items : Option (List Item)} {f : Faults} (h : ∀ is, items = some is → f.beginTx = true)
    (d : Driver V) : Atomic env items f d := by
  cases items with
  | none => exact ⟨fun _ => rfl, fun h => by cases h⟩
  | some is =>
    have hset : d.set env (some is) f = (some (.op "boltdb_driver_set" (.lib "Begin")), d) := by
      simp only [Driver.set, h is rfl, ↓reduceIte]
    unfold Atomic
    rw [hset]
    exact ⟨fun _ => rfl, fun h => by cases h⟩

/-- A call with a transaction, by what its loop comes to. -/
theorem atomic_begun_iff {f : Faults} (hbegin : f.beginTx = false) (is : List Item) (d : Driver V) :
    Atomic env (some is) f d ↔
      (Passes env f 0 is → f.commit = true → storeAll env is d.bucket = d.bucket) ∧
        (¬ Passes env f 0 is → timeAll (timed env f 0 is) d.gc = d.gc ∧
          (f.commit = true ∨ storeAll env (puts env f 0 is) d.bucket = d.bucket)) := by
  obtain ⟨herr, hout⟩ := set_spec env hbegin is d
  obtain ⟨bucket, gc⟩ := d
  unfold Atomic
  rw [hout, ne_eq, herr, Option.getD_some, and_comm]
  refine and_congr (imp_congr_right fun hpasses => ?_) (imp_congr_right fun _ => ?_)
  · rw [puts_of_passes hpasses]
    cases f.commit <;> simp [eq_comm]
  · rw [Driver.mk.injEq, and_comm]
    cases f.commit <;> simp

/-- **Which calls of `Set` are atomic.** Whatever the file has, a call changes nothing if it fails and has committed
all items if it does not, exactly if: with no failure in the loop, the commit does not fail or there is nothing to
commit; with a failure, no timeout was stored before it, and no item was put or the commit fails as well. -/
theorem set_atomic_iff (env : Env V) (items : Option (List Item)) (f : Faults) :
    (∀ d : Driver V, Atomic env items f d) ↔
      ∀ is, items = some is → f.beginTx = false →
        (Passes env f 0 is → f.commit = true → is = []) ∧
          (¬ Passes env f 0 is → timed env f 0 is = [] ∧ (f.commit = true ∨ puts env f 0 is = [])) := by
  constructor
  · rintro h is rfl hbegin
    -- on an empty file every change shows
    have hatomic := (atomic_begun_iff hbegin is ⟨.empty, .empty⟩).mp (h ⟨.empty, .empty⟩)
    simpa only [storeAll_empty_iff, timeAll_empty_iff] using hatomic
  · intro h d
    by_cases hunbegun : ∀ is, items = some is → f.beginTx = true
    · exact atomic_of_unbegun hunbegun d
    · obtain ⟨is, rfl, hbegin⟩ : ∃ is, items = some is ∧ f.beginTx = false := by simpa using hunbegun
      obtain ⟨hnil, hfails⟩ := h is rfl hbegin
      refine (atomic_begun_iff hbegin is d).mpr ⟨fun hpasses hcommit => ?_, fun hf => ?_⟩
      · rw [hnil hpasses hcommit]
        rfl
      · obtain ⟨htimed, hputs⟩ := hfails hf
        rw [htimed]
        exact ⟨rfl, hputs.imp_right fun hputs => by rw [hputs]; rfl⟩

/-- The second timeout is no time: `Set` fails, and both items are committed and the first timeout is stored. If the
commit fails, `Set` returns nil and nothing is committed. -/
theorem set_torn :
    let items : List Item := [⟨ascii "a", ascii "1", newYear⟩, ⟨ascii "b", ascii "2", ascii "tomorrow"⟩]
    let torn := Driver.set newYearEnv (some items) {} ⟨.empty, .empty⟩
    let lost := Driver.set newYearEnv (some [⟨ascii "a", ascii "1", []⟩]) { commit := true } ⟨.empty, .empty⟩
    (torn.1 = some (.op "boltdb_driver_set" (.lib "Parse")) ∧ torn.2.bucket.get (ascii "a") = some (ascii "1") ∧
        torn.2.bucket.get (ascii "b") = some (ascii "2") ∧ torn.2.gc.get (ascii "a") = some newYear) ∧
      lost.1 = none ∧ lost.2.bucket.get (ascii "a") = none := by
  decide +kernel

end RoadRunner.Boltkv
