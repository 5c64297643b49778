import RoadRunner.Boltkv.Driver
import RoadRunner.Lib.Run

/-!
# Timeouts of stored keys

Runs of the key-value driver in which no call fails, with the timeout that each key was last given.

* `Exact`: a tick at any time removes a stored key exactly if its timeout is over. `exact_iff_agrees`: that is,
  if the map has that timeout.
* `gcPass_after`, `store_gc_of_last`, `expire_gc_of_last`: what the operations do to the timeout of one key.
* `exact_everywhere_iff`: which runs are exact.
-/

namespace RoadRunner.Boltkv

variable {V : Type} (env : Env V)

/-- The driver with the timeouts that the keys were last given. -/
structure Kv (V : Type) where
  driver : Driver V
  timeouts : Bytes → Option Bytes

/-- A call of the driver, or a tick of `startGCLoop`. -/
inductive Op where
  | set (items : Option (List Item)) (f : Faults)
  | mExpire (items : List Item)
  | delete (keys : Option (List Bytes)) (f : Faults)
  | clear (fails : Bool)
  | gc (now : Int) (order : List Bytes) (fails : Bytes → Bool)

/-- The timeout that an item gives its key. -/
def Item.given (item : Item) : Option Bytes := if item.timeout = [] then none else some item.timeout

/-- The timeouts after some items. -/
def given (items : List Item) (timeouts : Bytes → Option Bytes) : Bytes → Option Bytes :=
  items.foldl (fun t item => Function.update t item.key item.given) timeouts

/-- One operation. -/
def step (s : Kv V) : Op → Kv V
  | .set items f => ⟨(s.driver.set env items f).2, given (items.getD []) s.timeouts⟩
  | .mExpire items => ⟨(s.driver.mExpire env items).2, given items s.timeouts⟩
  | .delete keys f => { s with driver := (s.driver.delete env keys f).2 }
  | .clear fails => { s with driver := (s.driver.clear fails).2 }
  | .gc now order fails => { s with driver := s.driver.gcPass env now fails order }

/-! ## What is to hold -/

/-- The timeout is over at `now`. -/
def Over (now : Int) (timeout : Option Bytes) : Prop := ∃ t, timeout.bind env.parse = some t ∧ t < now

/-- A tick at any time, in any order, removes a stored key exactly if its timeout is over. -/
def Exact (s : Kv V) : Prop :=
  ∀ now order, order.Perm s.driver.gc.keys → ∀ k ∈ s.driver.bucket.keys,
    k ∉ (s.driver.gcPass env now (fun _ => false) order).bucket.keys ↔ Over env now (s.timeouts k)

/-- The timeout of the last item for the key `k`. -/
def lastTimeout (items : List Item) (k : Bytes) : Option Bytes :=
  (items.filter fun item => item.key = k).getLast?.map Item.timeout

/-- No call fails, the keys are not blank and the timeouts are times. -/
def Valid (s : Kv V) : Op → Prop
  | .set items f => f = {} ∧ ∃ is, items = some is ∧ ∀ item ∈ is, item.timeout = [] ∨ (env.parse item.timeout).isSome
  | .mExpire items => ∀ item ∈ items,
      item.timeout ≠ [] ∧ env.blank item.key = false ∧ (env.parse item.timeout).isSome
  | .delete keys f => f = {} ∧ ∃ ks, keys = some ks ∧ ∀ k ∈ ks, env.blank k = false
  | .clear fails => fails = false
  | .gc _ order fails => order.Perm s.driver.gc.keys ∧ fails = fun _ => false

/-- A key that a `Set` leaves without a timeout has none in the map, and is given none by the `Set`. -/
def Fresh (s : Kv V) : Op → Prop
  | .set items _ => ∀ item ∈ items.getD [], lastTimeout (items.getD []) item.key = some [] →
      s.driver.gc.get item.key = none ∧ ∀ other ∈ items.getD [], other.key = item.key → other.timeout = []
  | _ => True

/-- Every timeout in the map is a time. -/
def Parsed (d : Driver V) : Prop := ∀ k timeout, d.gc.get k = some timeout → (env.parse timeout).isSome

/-- The map has the timeouts of the stored keys. -/
def Agrees (s : Kv V) : Prop :=
  ∀ k ∈ s.driver.bucket.keys, (s.driver.gc.get k).bind env.parse = (s.timeouts k).bind env.parse

/-! ## Ticks -/

variable {env} {d : Driver V} {now : Int}

@[simp] theorem not_over_none : ¬ Over env now none := by rintro ⟨t, h, -⟩; cases h

theorem over_iff {timeout : Bytes} {t : Int} (h : env.parse timeout = some t) :
    Over env now (some timeout) ↔ t < now := by
  simp [Over, h]

/-- A key that is not over is passed by. -/
theorem over_cons {order : List Bytes} {j k : Bytes} (h : ¬ Over env now (d.gc.get j)) :
    k ∈ j :: order ∧ Over env now (d.gc.get k) ↔ k ∈ order ∧ Over env now (d.gc.get k) := by
  rw [List.mem_cons, or_and_right, or_iff_right_iff_imp]
  rintro ⟨rfl, hover⟩
  exact absurd hover h

/-- What a tick does to one key. -/
structure Ticked (env : Env V) (now : Int) (order : List Bytes) (d d' : Driver V) (k : Bytes) : Prop where
  bucket : k ∈ d'.bucket.keys ↔ k ∈ d.bucket.keys ∧ ¬ (k ∈ order ∧ Over env now (d.gc.get k))
  expired : k ∈ order ∧ Over env now (d.gc.get k) → d'.gc.get k = none
  other : ¬ (k ∈ order ∧ Over env now (d.gc.get k)) → d'.gc.get k = d.gc.get k

theorem gcPass_after {order : List Bytes} (hnodup : order.Nodup)
    (hparse : Parsed env d) (k : Bytes) :
    Ticked env now order d (d.gcPass env now (fun _ => false) order) k := by
  induction order generalizing d with
  | nil => exact ⟨by simp [Driver.gcPass], by simp, fun _ => rfl⟩
  | cons j order ih =>
    obtain ⟨hj, hnodup⟩ := List.nodup_cons.mp hnodup
    have hskip : ¬ Over env now (d.gc.get j) →
        Ticked env now (j :: order) d (d.gcPass env now (fun _ => false) order) k := fun hnot => by
      obtain ⟨hbucket, hover, hother⟩ := ih hnodup hparse
      rw [← over_cons hnot] at hbucket hover hother
      exact ⟨hbucket, hover, hother⟩
    rw [Driver.gcPass]
    cases hget : d.gc.get j with
    | none => exact hskip (hget ▸ not_over_none)
    | some timeout =>
      obtain ⟨t, ht⟩ := Option.isSome_iff_exists.mp (hparse j timeout hget)
      have hover : Over env now (d.gc.get j) ↔ t < now := hget ▸ over_iff ht
      simp only [ht]
      by_cases hlt : t < now
      · simp only [hlt, ↓reduceIte, Bool.false_eq_true]
        have hparse' : Parsed env (⟨d.bucket.delete j, d.gc.delete j⟩ : Driver V) := by
          intro k timeout h
          rw [Bucket.get_delete] at h
          split at h
          · cases h
          · exact hparse k timeout h
        obtain ⟨hbucket, hov, hother⟩ := ih hnodup hparse'
        simp only [Bucket.mem_keys_delete, Bucket.get_delete] at hbucket hov hother
        by_cases hk : k = j
        · subst hk
          simp only [↓reduceIte, not_over_none, and_false, not_false_eq_true, forall_const] at hother
          refine ⟨by simp [hbucket, hover.mpr hlt], fun _ => hother, fun h => ?_⟩
          exact absurd ⟨List.mem_cons_self, hover.mpr hlt⟩ h
        · simp only [hk, ↓reduceIte, ne_eq, not_false_eq_true, true_and] at hbucket hov hother
          exact ⟨by simp [hbucket, hk], by simpa [hk] using hov, by simpa [hk] using hother⟩
      · simp only [hlt, ↓reduceIte]
        exact hskip (mt hover.mp hlt)

/-- A tick over the whole map. -/
theorem gcPass_all (now : Int) {order : List Bytes} (horder : order.Perm d.gc.keys)
    (hparse : Parsed env d) (k : Bytes) :
    (k ∈ (d.gcPass env now (fun _ => false) order).bucket.keys ↔
        k ∈ d.bucket.keys ∧ ¬ Over env now (d.gc.get k)) ∧
      (Over env now (d.gc.get k) → (d.gcPass env now (fun _ => false) order).gc.get k = none) ∧
      (¬ Over env now (d.gc.get k) →
        (d.gcPass env now (fun _ => false) order).gc.get k = d.gc.get k) := by
  have hmem : k ∈ order ∧ Over env now (d.gc.get k) ↔ Over env now (d.gc.get k) := by
    rw [and_iff_right_iff_imp]
    intro hover
    by_contra hk
    rw [Bucket.get_eq_none.mpr (mt horder.mem_iff.mpr hk)] at hover
    exact not_over_none hover
  have hticked : Ticked env now order d (d.gcPass env now (fun _ => false) order) k :=
    gcPass_after (horder.nodup_iff.mpr d.gc.keys_nodup) hparse k
  obtain ⟨hbucket, hover, hother⟩ := hticked
  rw [hmem] at hbucket hover hother
  exact ⟨hbucket, hover, hother⟩

/-- Two timeouts that are over at the same times are the same time. -/
theorem over_congr_iff {a b : Option Bytes} :
    (∀ now, Over env now a ↔ Over env now b) ↔ a.bind env.parse = b.bind env.parse := by
  constructor
  · intro h
    have hle : ∀ {a b : Option Bytes}, (∀ now, Over env now a → Over env now b) →
        ∀ t, a.bind env.parse = some t → ∃ u ≤ t, b.bind env.parse = some u := by
      intro a b h t ht
      obtain ⟨u, hu, hlt⟩ := h (t + 1) ⟨t, ht, by omega⟩
      exact ⟨u, by omega, hu⟩
    have hab := hle fun now => (h now).mp
    have hba := hle fun now => (h now).mpr
    cases ha : a.bind env.parse with
    | none =>
      cases hb : b.bind env.parse with
      | none => rfl
      | some u =>
        obtain ⟨t, -, ht⟩ := hba u hb
        cases ha.symm.trans ht
    | some t =>
      obtain ⟨u, hut, hu⟩ := hab t ha
      obtain ⟨t', htu, ht'⟩ := hba u hu
      cases ha.symm.trans ht'
      rw [hu, Int.le_antisymm htu hut]
  · intro h now
    rw [Over, h, Over]

theorem exact_iff_agrees {s : Kv V} (hparse : Parsed env s.driver) : Exact env s ↔ Agrees env s := by
  constructor
  · intro h k hk
    rw [← over_congr_iff]
    intro now
    rw [← h now _ (.refl _) k hk, (gcPass_all now (.refl _) hparse k).1, not_and, not_not]
    exact ⟨fun hover _ => hover, fun hover => hover hk⟩
  · intro h now order horder k hk
    rw [(gcPass_all now horder hparse k).1, not_and, not_not, ← over_congr_iff.mpr (h k hk) now]
    exact ⟨fun hover => hover hk, fun hover _ => hover⟩

/-! ## The other operations -/

/-- One iteration of `Set` in which nothing fails. -/
def Driver.store (env : Env V) (d : Driver V) (item : Item) : Driver V :=
  ⟨d.bucket.put item.key (env.encode item.value),
    if item.timeout = [] then d.gc else d.gc.put item.key item.timeout⟩

/-- One iteration of `MExpire` in which nothing fails. -/
def Driver.expire (d : Driver V) (item : Item) : Driver V :=
  { d with gc := d.gc.put item.key item.timeout }

theorem setItems_eq {items : List Item}
    (h : ∀ item ∈ items, item.timeout = [] ∨ (env.parse item.timeout).isSome) (i : Nat) :
    d.setItems env {} i items = (none, items.foldl (Driver.store env) d) := by
  induction items generalizing d i with
  | nil => rfl
  | cons item items ih =>
    obtain ⟨hitem, hitems⟩ := List.forall_mem_cons.mp h
    rw [Driver.setItems, List.foldl_cons, Driver.store]
    simp only [reduceCtorEq, ↓reduceIte]
    by_cases ht : item.timeout = []
    · simp only [ht, ↓reduceIte]
      exact ih hitems _
    · obtain ⟨t, hparse⟩ := Option.isSome_iff_exists.mp (hitem.resolve_left ht)
      simp only [ht, ↓reduceIte, hparse]
      exact ih hitems _

theorem mExpire_eq {items : List Item} (h : ∀ item ∈ items,
      item.timeout ≠ [] ∧ env.blank item.key = false ∧ (env.parse item.timeout).isSome) :
    d.mExpire env items = (none, items.foldl Driver.expire d) := by
  induction items generalizing d with
  | nil => rfl
  | cons item items ih =>
    obtain ⟨⟨ht, hblank, hsome⟩, hitems⟩ := List.forall_mem_cons.mp h
    obtain ⟨t, hparse⟩ := Option.isSome_iff_exists.mp hsome
    rw [Driver.mExpire, List.foldl_cons]
    simp only [ht, hblank, Bool.false_eq_true, or_self, ↓reduceIte, hparse]
    exact ih hitems

theorem deleteKeys_eq (keys : List Bytes) (i : Nat) :
    d.deleteKeys {} i keys = (none, { d with bucket := keys.foldl Bucket.delete d.bucket }) := by
  induction keys generalizing d i with
  | nil => rfl
  | cons key keys ih =>
    rw [Driver.deleteKeys, List.foldl_cons]
    simp only [reduceCtorEq, ↓reduceIte]
    exact ih _

theorem mem_keys_foldl_delete {K W : Type} [LinearOrder K] {b : Bucket K W} {keys : List K} {k : K}
    (h : k ∈ (keys.foldl Bucket.delete b).keys) : k ∈ b.keys := by
  induction keys generalizing b with
  | nil => exact h
  | cons key keys ih => exact (Bucket.mem_keys_delete.mp (ih h)).2

theorem mem_keys_foldl_store {items : List Item} {k : Bytes} :
    k ∈ (items.foldl (Driver.store env) d).bucket.keys ↔
      k ∈ d.bucket.keys ∨ ∃ item ∈ items, item.key = k := by
  induction items generalizing d with
  | nil => simp
  | cons item items ih =>
    rw [List.foldl_cons, ih, List.exists_mem_cons_iff, ← or_assoc]
    refine or_congr_left ?_
    rw [Driver.store, Bucket.mem_keys_put, or_comm, eq_comm]

theorem expire_bucket (items : List Item) : (items.foldl Driver.expire d).bucket = d.bucket := by
  induction items generalizing d with
  | nil => rfl
  | cons item items ih => exact ih

theorem Parsed.put (h : Parsed env d) {item : Item} (ht : (env.parse item.timeout).isSome)
    (bucket : Bucket Bytes V) :
    Parsed env (⟨bucket, d.gc.put item.key item.timeout⟩ : Driver V) := by
  intro k timeout hk
  rw [Bucket.get_put] at hk
  split at hk
  · cases hk
    exact ht
  · exact h k timeout hk

theorem Parsed.store {items : List Item} (h : Parsed env d)
    (hitems : ∀ item ∈ items, item.timeout = [] ∨ (env.parse item.timeout).isSome) :
    Parsed env (items.foldl (Driver.store env) d) := by
  induction items generalizing d with
  | nil => exact h
  | cons item items ih =>
    obtain ⟨hitem, hrest⟩ := List.forall_mem_cons.mp hitems
    refine ih ?_ hrest
    rw [Driver.store]
    split
    case isTrue => exact h
    case isFalse ht => exact h.put (hitem.resolve_left ht) _

theorem Parsed.expire {items : List Item} (h : Parsed env d)
    (hitems : ∀ item ∈ items, (env.parse item.timeout).isSome) :
    Parsed env (items.foldl Driver.expire d) := by
  induction items generalizing d with
  | nil => exact h
  | cons item items ih =>
    obtain ⟨hitem, hrest⟩ := List.forall_mem_cons.mp hitems
    exact ih (h.put hitem _) hrest

theorem lastTimeout_eq_none_iff {items : List Item} {k : Bytes} :
    lastTimeout items k = none ↔ ¬ ∃ item ∈ items, item.key = k := by
  simp [lastTimeout]

/-! The last item for a key decides, so these inductions are from the end. -/

theorem lastTimeout_concat (items : List Item) (item : Item) (k : Bytes) :
    lastTimeout (items ++ [item]) k = if item.key = k then some item.timeout else lastTimeout items k := by
  unfold lastTimeout
  split
  case isTrue h => simp [h]
  case isFalse h => simp [h]

theorem given_eq (items : List Item) (timeouts : Bytes → Option Bytes) (k : Bytes) :
    given items timeouts k =
      (lastTimeout items k).elim (timeouts k) fun t => if t = [] then none else some t := by
  induction items using List.reverseRecOn with
  | nil => rfl
  | append_singleton items item ih =>
    rw [given, List.foldl_append, List.foldl_cons, List.foldl_nil, lastTimeout_concat]
    by_cases hk : item.key = k
    · subst hk
      rw [Function.update_self, if_pos rfl]
      rfl
    · rw [Function.update_of_ne (Ne.symm hk), if_neg hk]
      exact ih

theorem store_gc_of_last (items : List Item) (k : Bytes) :
    (lastTimeout items k = none → (items.foldl (Driver.store env) d).gc.get k = d.gc.get k) ∧
      ∀ t, lastTimeout items k = some t → t ≠ [] →
        (items.foldl (Driver.store env) d).gc.get k = some t := by
  induction items using List.reverseRecOn with
  | nil => exact ⟨fun _ => rfl, nofun⟩
  | append_singleton items item ih =>
    rw [lastTimeout_concat, List.foldl_append, List.foldl_cons, List.foldl_nil, Driver.store]
    by_cases hk : item.key = k
    · subst hk
      simp only [↓reduceIte, reduceCtorEq, false_implies, Option.some.injEq, true_and]
      rintro t rfl ht
      rw [if_neg ht, Bucket.get_put, if_pos rfl]
    · simp only [hk, ↓reduceIte]
      split
      · exact ih
      · rw [Bucket.get_put, if_neg (Ne.symm hk)]
        exact ih

theorem store_gc_none_iff (items : List Item) (k : Bytes) :
    (items.foldl (Driver.store env) d).gc.get k = none ↔
      d.gc.get k = none ∧ ∀ item ∈ items, item.key = k → item.timeout = [] := by
  induction items generalizing d with
  | nil => simp
  | cons item items ih =>
    rw [List.foldl_cons, ih, List.forall_mem_cons, Driver.store]
    split
    case isTrue ht => simp [ht]
    case isFalse ht =>
      by_cases hk : item.key = k
      · simp [Bucket.get_put, hk, ht]
      · simp [Bucket.get_put, hk, Ne.symm hk]

theorem expire_gc_of_last (items : List Item) (k : Bytes) :
    (items.foldl Driver.expire d).gc.get k = (lastTimeout items k).elim (d.gc.get k) some := by
  induction items using List.reverseRecOn with
  | nil => rfl
  | append_singleton items item ih =>
    rw [lastTimeout_concat, List.foldl_append, List.foldl_cons, List.foldl_nil, Driver.expire,
      Bucket.get_put]
    by_cases hk : item.key = k
    · simp [hk]
    · simp only [Ne.symm hk, hk, ↓reduceIte]
      exact ih

/-! ## Steps and runs -/

variable {s : Kv V}

/-- A timeout of the map is none exactly if the map has no entry. -/
theorem Parsed.bind_eq_none (h : Parsed env d) (k : Bytes) :
    (d.gc.get k).bind env.parse = none ↔ d.gc.get k = none := by
  cases hk : d.gc.get k with
  | none => simp
  | some timeout =>
    obtain ⟨t, ht⟩ := Option.isSome_iff_exists.mp (h k timeout hk)
    simp [ht]

/-- After a `Set` the map has the right timeouts exactly if the `Set` was fresh. -/
theorem agrees_set_iff {items : List Item} (hparse : Parsed env s.driver) (h : Agrees env s)
    (hitems : ∀ item ∈ items, item.timeout = [] ∨ (env.parse item.timeout).isSome) :
    Agrees env ⟨items.foldl (Driver.store env) s.driver, given items s.timeouts⟩ ↔
      ∀ item ∈ items, lastTimeout items item.key = some [] →
        s.driver.gc.get item.key = none ∧ ∀ other ∈ items, other.key = item.key → other.timeout = [] := by
  have hparse' := hparse.store hitems
  -- one key whose last item has no timeout
  have huntimed : ∀ k, lastTimeout items k = some [] →
      (((items.foldl (Driver.store env) s.driver).gc.get k).bind env.parse =
          (given items s.timeouts k).bind env.parse ↔
        s.driver.gc.get k = none ∧ ∀ item ∈ items, item.key = k → item.timeout = []) := by
    intro k hlast
    rw [given_eq, hlast, ← store_gc_none_iff, ← hparse'.bind_eq_none]
    rfl
  constructor
  · intro h' item hitem hlast
    exact (huntimed _ hlast).mp (h' _ (mem_keys_foldl_store.mpr (.inr ⟨item, hitem, rfl⟩)))
  · intro hfresh k hk
    show ((items.foldl (Driver.store env) s.driver).gc.get k).bind env.parse =
      (given items s.timeouts k).bind env.parse
    cases hlast : lastTimeout items k with
    | none =>
      have hstored : k ∈ s.driver.bucket.keys :=
        (mem_keys_foldl_store.mp hk).resolve_right (lastTimeout_eq_none_iff.mp hlast)
      rw [given_eq, hlast, (store_gc_of_last items k).1 hlast]
      exact h k hstored
    | some t =>
      by_cases ht : t = []
      · subst ht
        obtain ⟨item, hitem, rfl⟩ : ∃ item ∈ items, item.key = k := by
          by_contra hnone
          cases (lastTimeout_eq_none_iff.mpr hnone).symm.trans hlast
        exact (huntimed _ hlast).mpr (hfresh item hitem hlast)
      · rw [given_eq, hlast, (store_gc_of_last items k).2 t hlast ht, Option.elim_some, if_neg ht]

theorem agrees_mExpire {items : List Item} (h : Agrees env s) (hitems : ∀ item ∈ items, item.timeout ≠ []) :
    Agrees env ⟨items.foldl Driver.expire s.driver, given items s.timeouts⟩ := by
  intro k hk
  have hstored : k ∈ s.driver.bucket.keys := expire_bucket (d := s.driver) items ▸ hk
  simp only [expire_gc_of_last, given_eq]
  cases hlast : lastTimeout items k with
  | none => exact h k hstored
  | some t =>
    obtain ⟨item, hitem, rfl⟩ : ∃ item ∈ items, item.timeout = t := by
      obtain ⟨item, hfind, rfl⟩ := Option.map_eq_some_iff.mp hlast
      exact ⟨item, (List.mem_filter.mp (List.mem_of_getLast? hfind)).1, rfl⟩
    rw [Option.elim_some, Option.elim_some, if_neg (hitems item hitem)]

/-- What the valid operations do. -/
theorem step_set {items : List Item} (h : ∀ item ∈ items, item.timeout = [] ∨ (env.parse item.timeout).isSome) :
    step env s (.set (some items) {}) = ⟨items.foldl (Driver.store env) s.driver, given items s.timeouts⟩ := by
  simp only [step, Driver.set, Bool.false_eq_true, ↓reduceIte, setItems_eq h, Option.getD_some]

theorem step_mExpire {items : List Item} (h : Valid env s (.mExpire items)) :
    step env s (.mExpire items) = ⟨items.foldl Driver.expire s.driver, given items s.timeouts⟩ := by
  simp only [step, mExpire_eq h]

theorem step_delete {keys : List Bytes} (h : ∀ k ∈ keys, env.blank k = false) :
    step env s (.delete (some keys) {}) =
      { s with driver := { s.driver with bucket := keys.foldl Bucket.delete s.driver.bucket } } := by
  have hany : keys.any env.blank = false := by simpa using h
  simp only [step, Driver.delete, hany, Bool.false_eq_true, ↓reduceIte, deleteKeys_eq]

/-- What a valid step keeps. -/
theorem step_parsed {op : Op} (hvalid : Valid env s op) (hparse : Parsed env s.driver) :
    Parsed env (step env s op).driver := by
  cases op with
  | set items f =>
    obtain ⟨rfl, is, rfl, his⟩ := hvalid
    rw [step_set his]
    exact hparse.store his
  | mExpire items =>
    rw [step_mExpire hvalid]
    exact hparse.expire fun item hi => (hvalid item hi).2.2
  | delete keys f =>
    obtain ⟨rfl, ks, rfl, hks⟩ := hvalid
    rw [step_delete hks]
    exact hparse
  | clear fails =>
    obtain rfl : fails = false := hvalid
    exact fun k timeout h => by cases h
  | gc now order fails =>
    obtain ⟨horder, rfl⟩ := hvalid
    intro k timeout h
    obtain ⟨-, hover, hother⟩ := gcPass_all now horder hparse k
    by_cases ho : Over env now (s.driver.gc.get k)
    · cases (hover ho).symm.trans h
    · exact hparse k timeout ((hother ho).symm.trans h)

theorem step_agrees_iff {op : Op} (hvalid : Valid env s op) (hparse : Parsed env s.driver)
    (h : Agrees env s) : Agrees env (step env s op) ↔ Fresh s op := by
  cases op with
  | set items f =>
    obtain ⟨rfl, is, rfl, his⟩ := hvalid
    rw [step_set his]
    exact agrees_set_iff hparse h his
  | mExpire items =>
    refine iff_of_true ?_ trivial
    rw [step_mExpire hvalid]
    exact agrees_mExpire h fun item hi => (hvalid item hi).1
  | delete keys f =>
    obtain ⟨rfl, ks, rfl, hks⟩ := hvalid
    refine iff_of_true ?_ trivial
    rw [step_delete hks]
    exact fun k hk => h k (mem_keys_foldl_delete hk)
  | clear fails =>
    obtain rfl : fails = false := hvalid
    exact iff_of_true (fun k hk => absurd hk List.not_mem_nil) trivial
  | gc now order fails =>
    obtain ⟨horder, rfl⟩ := hvalid
    refine iff_of_true (fun k hk => ?_) trivial
    obtain ⟨hbucket, -, hother⟩ := gcPass_all now horder hparse k
    obtain ⟨hstored, hnot⟩ := hbucket.mp hk
    exact (congrArg (Option.bind · env.parse) (hother hnot)).trans (h k hstored)

/-- In every run of valid operations on a file with any content: a tick removes a stored key exactly if
its timeout is over, in every state, if and only if no `Set` leaves a key without a timeout that the map
has one for. -/
theorem exact_everywhere_iff (bucket : Bucket Bytes V) (ops : List Op)
    (hvalid : Run.Along (step env) (Valid env) ⟨⟨bucket, .empty⟩, fun _ => none⟩ ops) :
    (∀ pre post, ops = pre ++ post →
        Exact env (Run.exec (step env) ⟨⟨bucket, .empty⟩, fun _ => none⟩ pre)) ↔
      Run.Along (step env) Fresh ⟨⟨bucket, .empty⟩, fun _ => none⟩ ops := by
  have hparse : Parsed env (⟨bucket, .empty⟩ : Driver V) := fun k timeout h => by cases h
  refine Run.Along.everywhere_iff (I := fun s => Parsed env s.driver) ?_ ?_ hparse
    ((exact_iff_agrees hparse).mpr fun k _ => rfl) hvalid
  · intro s op hparse hexact hop hfresh
    have hparse' := step_parsed hop hparse
    refine ⟨hparse', (exact_iff_agrees hparse').mpr ?_⟩
    exact (step_agrees_iff hop hparse ((exact_iff_agrees hparse).mp hexact)).mpr hfresh
  · intro s op hparse hexact hop hexact'
    have hparse' := step_parsed hop hparse
    exact (step_agrees_iff hop hparse ((exact_iff_agrees hparse).mp hexact)).mp
      ((exact_iff_agrees hparse').mp hexact')

/-- Timeouts of one moment, and values that are stored as they are. -/
def newYear : Bytes := ascii "2022-01-01T00:00:00Z"

/-- An environment that parses `newYear`. -/
def newYearEnv : Env Bytes where
  parse t := if t = newYear then some 1640995200000000000 else none
  blank k := k.all (· = 32)
  encode := id

/-- A key with a timeout and one without, and a tick after it. -/
def keptAndExpired : List Op :=
  [.set (some [⟨ascii "a", ascii "1", newYear⟩, ⟨ascii "b", ascii "2", []⟩]) {},
    .gc 1640995200000000001 [ascii "a"] fun _ => false]

theorem exact_kept_and_expired :
    Exact newYearEnv (Run.exec (step newYearEnv) ⟨⟨.empty, .empty⟩, fun _ => none⟩ keptAndExpired) := by
  refine (exact_everywhere_iff .empty keptAndExpired ?_).mpr ⟨?_, trivial, trivial⟩ keptAndExpired []
    (List.append_nil _).symm
  · exact ⟨⟨rfl, _, rfl, by decide +kernel⟩, ⟨by decide +kernel, rfl⟩, trivial⟩
  · simp only [Fresh, Option.getD_some]
    decide +kernel

/-- A key is set with a timeout and then without one: a tick after the first timeout removes it. -/
theorem untimed_key_removed :
    let s := Run.exec (step newYearEnv) ⟨⟨.empty, .empty⟩, fun _ => none⟩
      [.set (some [⟨ascii "a", ascii "1", newYear⟩]) {}, .set (some [⟨ascii "a", ascii "2", []⟩]) {}]
    s.timeouts (ascii "a") = none ∧ s.driver.bucket.get (ascii "a") = some (ascii "2") ∧
      (s.driver.gcPass newYearEnv 1640995200000000001 (fun _ => false) [ascii "a"]).bucket.get (ascii "a") = none := by
  decide +kernel

end RoadRunner.Boltkv
