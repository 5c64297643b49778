import RoadRunner.Memorykv.Driver
import RoadRunner.Lib.Run
import RoadRunner.Lib.Update

/-!
# Expiry in the in-memory key-value driver

A pass of `gc` ranges over the map in any order and stops at the first timeout that it cannot parse. `Set` and
`MExpire` store no such timeout, so a pass looks at every key and removes exactly those that have expired.

* `Op`, `step`: the operations, run one after another. An order of `Range` is any list of the stored keys.
* `Record`, `current`: what a key should hold after a run, told from the operations alone: the value and the
  timeout of its last `Set`, the timeout of a later `MExpire`.
* `expiry`: what is left of every key after a pass.
-/

namespace RoadRunner.Memorykv

open Boltkv (Item)

/-- A call of the driver, or a tick of `gc`. -/
inductive Op where
  | set (items : Option (List (Option Item)))
  | mExpire (items : List (Option Item))
  | delete (keys : Option (List Bytes))
  | clear
  | gc (now : Int) (order : List Bytes)

variable (env : Env)

/-- One operation. -/
def step (h : Heap) : Op → Heap
  | .set items => (set env items h).2
  | .mExpire items => (mExpire env items h).2
  | .delete keys => (delete env keys h).2
  | .clear => clear h
  | .gc now order => gcPass env now order h

/-- The order of a `Range` has the stored keys. -/
def Lists (order : List Bytes) (h : Heap) : Prop := ∀ k, k ∈ order ↔ (h k).isSome

/-- `MExpire` is called with timeouts that are times, and a pass ranges over the map. -/
def Allowed (h : Heap) : Op → Prop
  | .mExpire items => ∀ item ∈ items.reduceOption, (env.parse item.timeout).isSome
  | .gc _ order => Lists order h
  | _ => True

/-! ## What a key should hold -/

/-- A value, and its timeout. -/
structure Record where
  value : Bytes
  timeout : Bytes
  deriving DecidableEq

/-- A timeout at the time `now`: it is empty, or a time that is not before `now`. -/
def Live (now : Int) (timeout : Bytes) : Prop := timeout = [] ∨ ∃ t ∈ env.parse timeout, now ≤ t

instance (now : Int) (timeout : Bytes) : Decidable (Live env now timeout) :=
  decidable_of_iff (timeout = [] ∨ (env.parse timeout).any (now ≤ ·) = true) (by simp [Live, Option.any_eq_true])

/-- The last item with the key. -/
def latest (k : Bytes) (items : List Item) : Option Item := items.reverse.find? (·.key = k)

/-- What the operation makes of the record of `k`. A `Set` is over at the first timeout that is no time, and an
`MExpire` at the first item without a timeout or a key. -/
def Op.after (k : Bytes) (cur : Option Record) : Op → Option Record
  | .set none => cur
  | .set (some items) =>
    ((latest k (items.reduceOption.takeWhile fun i => ¬ Untimely env i)).map fun i => ⟨i.value, i.timeout⟩).or cur
  | .mExpire items =>
    cur.map fun r =>
      match latest k (items.reduceOption.takeWhile fun i => ¬ Missing env i) with
      | some i => { r with timeout := i.timeout }
      | none => r
  | .delete none => cur
  | .delete (some keys) => if keys.any env.blank then cur else if k ∈ keys then none else cur
  | .clear => none
  | .gc now _ => cur.filter fun r => Live env now r.timeout

/-- What the key should hold after a run from the empty map. -/
def current (k : Bytes) (ops : List Op) : Option Record := Run.exec (fun cur op => op.after env k cur) none ops

/-- What the key holds. -/
def view (h : Heap) (k : Bytes) : Option Record := (h k).map fun i => ⟨i.value, i.timeout⟩

/-- Every stored timeout is empty or a time. -/
def Timed (h : Heap) : Prop := ∀ k i, h k = some i → ¬ Untimely env i

/-! ## What the operations do -/

section

variable {env}

theorem latest_cons (k : Bytes) (i : Item) (items : List Item) :
    latest k (i :: items) = (latest k items).or (if i.key = k then some i else none) := by
  unfold latest
  rw [List.reverse_cons, List.find?_append]
  congr 1
  by_cases hk : i.key = k <;> simp [hk]

/-- The items of a `Set` one by one. -/
theorem after_set_cons {item : Item} (hu : ¬ Untimely env item) (items : List (Option Item)) (k : Bytes)
    (cur : Option Record) :
    Op.after env k cur (.set (some (some item :: items))) =
      Op.after env k (if item.key = k then some ⟨item.value, item.timeout⟩ else cur) (.set (some items)) := by
  simp only [Op.after, List.reduceOption_cons_of_some, List.takeWhile_cons, hu, not_false_eq_true, decide_true,
    ↓reduceIte, latest_cons]
  by_cases hk : item.key = k <;> cases latest k _ <;> simp [hk]

/-- The items of an `MExpire` one by one. -/
theorem after_mExpire_cons {item : Item} (hm : ¬ Missing env item) (items : List (Option Item)) (k : Bytes)
    (cur : Option Record) :
    Op.after env k cur (.mExpire (some item :: items)) =
      Op.after env k (if item.key = k then cur.map fun r => { r with timeout := item.timeout } else cur)
        (.mExpire items) := by
  simp only [Op.after, List.reduceOption_cons_of_some, List.takeWhile_cons, hm, not_false_eq_true, decide_true,
    ↓reduceIte, latest_cons]
  by_cases hk : item.key = k <;> cases latest k _ <;> cases cur <;> simp [hk]

@[simp] theorem view_update (h : Heap) (j : Bytes) (i : Option Item) (k : Bytes) :
    view (Function.update h j i) k = if j = k then i.map fun i => ⟨i.value, i.timeout⟩ else view h k := by
  unfold view
  by_cases hk : j = k
  · subst hk
    simp
  · rw [if_neg hk, Function.update_of_ne (Ne.symm hk)]

theorem Timed.update {h : Heap} (hh : Timed env h) (k : Bytes) {i : Option Item} (hi : ∀ x ∈ i, ¬ Untimely env x) :
    Timed env (Function.update h k i) := by
  intro j x hx
  rcases Update.of_update hx with ⟨-, hnew⟩ | ⟨-, hold⟩
  · exact hi x hnew
  · exact hh j x hold

theorem setItems_view (items : List (Option Item)) {h : Heap} (hh : Timed env h) :
    Timed env (setItems env items h).2 ∧
      ∀ k, view (setItems env items h).2 k = Op.after env k (view h k) (.set (some items)) := by
  induction items generalizing h with
  | nil => exact ⟨hh, fun k => rfl⟩
  | cons item items ih =>
    cases item with
    | none => exact ih hh
    | some item =>
      rw [setItems]
      by_cases hu : Untimely env item
      · rw [if_pos hu]
        refine ⟨hh, fun k => ?_⟩
        simp [Op.after, List.reduceOption_cons_of_some, hu, latest]
      · rw [if_neg hu]
        obtain ⟨htimed, hview⟩ := ih (hh.update item.key (i := some item) (by simpa using hu))
        refine ⟨htimed, fun k => ?_⟩
        rw [hview k, view_update, after_set_cons hu]
        rfl

theorem mExpire_view (items : List (Option Item)) {h : Heap} (hh : Timed env h)
    (hvalid : ∀ item ∈ items.reduceOption, (env.parse item.timeout).isSome) :
    Timed env (mExpire env items h).2 ∧
      ∀ k, view (mExpire env items h).2 k = Op.after env k (view h k) (.mExpire items) := by
  induction items generalizing h with
  | nil => exact ⟨hh, fun k => Option.map_id'.symm⟩
  | cons item items ih =>
    cases item with
    | none => exact ih hh hvalid
    | some item =>
      rw [List.reduceOption_cons_of_some] at hvalid
      obtain ⟨hitem, hvalid⟩ := List.forall_mem_cons.mp hvalid
      rw [mExpire]
      by_cases hm : Missing env item
      · rw [if_pos hm]
        refine ⟨hh, fun k => ?_⟩
        simp [Op.after, List.reduceOption_cons_of_some, hm, latest]
      · rw [if_neg hm]
        obtain ⟨t, ht⟩ := Option.isSome_iff_exists.mp hitem
        cases hstored : h item.key with
        | none =>
          obtain ⟨htimed, hview⟩ := ih hh hvalid
          refine ⟨htimed, fun k => ?_⟩
          -- the key is not stored, so the item changes nothing
          rw [hview k, after_mExpire_cons hm]
          by_cases hk : item.key = k
          · subst hk
            simp [view, hstored]
          · rw [if_neg hk]
        | some p =>
          have hnew : ¬ Untimely env ⟨item.key, p.value, item.timeout⟩ := by simp [Untimely, ht]
          obtain ⟨htimed, hview⟩ := ih ((hh.update item.key (i := none) (by simp)).update item.key
            (i := some ⟨item.key, p.value, item.timeout⟩) (by simpa using hnew)) hvalid
          simp only [ht]
          refine ⟨htimed, fun k => ?_⟩
          rw [hview k, after_mExpire_cons hm, view_update, view_update]
          by_cases hk : item.key = k
          · subst hk
            simp [view, hstored]
          · rw [if_neg hk, if_neg hk, if_neg hk]

/-- A pass over timeouts that are all times removes the visited keys that have expired, and nothing else. -/
theorem gcPass_eq (now : Int) (order : List Bytes) {h : Heap} (hh : Timed env h) (k : Bytes) :
    gcPass env now order h k = if k ∈ order then (h k).filter fun i => Live env now i.timeout else h k := by
  induction order generalizing h with
  | nil => simp [gcPass]
  | cons j order ih =>
    -- a visit that leaves the map as it is, to a key that stays
    have hskip : ((h j).filter fun i => Live env now i.timeout) = h j → gcPass env now order h k =
        if k ∈ j :: order then (h k).filter fun i => Live env now i.timeout else h k := by
      intro hstays
      rw [ih hh]
      by_cases hk : k = j
      · subst hk
        rw [hstays, ite_self, ite_self]
      · simp only [List.mem_cons, hk, false_or]
    rw [gcPass]
    cases hj : h j with
    | none => exact hskip (by rw [hj]; rfl)
    | some v =>
      dsimp only
      split
      · rename_i hempty
        exact hskip (by rw [hj]; exact if_pos (decide_eq_true (.inl hempty)))
      rename_i hset
      cases ht : env.parse v.timeout with
      | none => exact absurd ⟨hset, ht⟩ (hh j v hj)
      | some t =>
        dsimp only
        split
        · rename_i hpast
          rw [ih (hh.update j (i := none) (by simp))]
          by_cases hk : k = j
          · subst hk
            have hdead : ¬ Live env now v.timeout := by simp [Live, hset, ht, hpast]
            simp [hj, Option.filter_some, hdead]
          · simp only [List.mem_cons, hk, false_or, Function.update_of_ne hk]
        · rename_i hfuture
          exact hskip (by rw [hj]; exact if_pos (decide_eq_true (.inr ⟨t, ht, by omega⟩)))

theorem foldl_update_none (keys : List Bytes) (h : Heap) (k : Bytes) :
    keys.foldl (fun h k => Function.update h k none) h k = if k ∈ keys then none else h k := by
  induction keys generalizing h with
  | nil => simp
  | cons j keys ih =>
    rw [List.foldl_cons, ih]
    by_cases hk : k = j
    · subst hk
      simp
    · simp [hk]

theorem delete_view (keys : List Bytes) {h : Heap} (hh : Timed env h) :
    Timed env (delete env (some keys) h).2 ∧
      ∀ k, view (delete env (some keys) h).2 k = Op.after env k (view h k) (.delete (some keys)) := by
  have hkeys := foldl_update_none keys h
  unfold delete Op.after
  dsimp only
  split
  · exact ⟨hh, fun k => rfl⟩
  · constructor
    · intro k i hi
      change keys.foldl (fun h k => Function.update h k none) h k = some i at hi
      rw [hkeys k] at hi
      split at hi
      · cases hi
      · exact hh k i hi
    · intro k
      simp only [view, hkeys k]
      split <;> rfl

/-- A pass over all keys. -/
theorem gcPass_all (now : Int) {order : List Bytes} {h : Heap} (hh : Timed env h) (horder : Lists order h)
    (k : Bytes) : gcPass env now order h k = (h k).filter fun i => Live env now i.timeout := by
  rw [gcPass_eq now order hh k]
  by_cases hk : k ∈ order
  · rw [if_pos hk]
  · have hnone : h k = none := by rwa [horder k, Option.not_isSome_iff_eq_none] at hk
    rw [if_neg hk, hnone]
    rfl

theorem gcPass_view (now : Int) {order : List Bytes} {h : Heap} (hh : Timed env h) (horder : Lists order h) :
    Timed env (gcPass env now order h) ∧
      ∀ k, view (gcPass env now order h) k = Op.after env k (view h k) (.gc now order) := by
  have hgc := gcPass_all now hh horder
  constructor
  · intro k i hi
    rw [hgc k] at hi
    exact hh k i (Option.filter_eq_some_iff.mp hi).1
  · intro k
    simp only [view, hgc k, Op.after]
    cases hk : h k with
    | none => rfl
    | some i => by_cases hlive : Live env now i.timeout <;> simp [Option.filter_some, hlive]

/-- A pass leaves a key exactly if it was there with a timeout that is live, and leaves its item as it is. -/
theorem gcPass_leaves (now : Int) {order : List Bytes} {h : Heap} (hh : Timed env h) (horder : Lists order h)
    (k : Bytes) :
    ((gcPass env now order h k).isSome ↔ (h k).isSome ∧ ∃ r ∈ view h k, Live env now r.timeout) ∧
      ∀ i, gcPass env now order h k = some i → h k = some i := by
  rw [gcPass_all now hh horder k, view]
  cases hk : h k with
  | none => simp
  | some i => by_cases hlive : Live env now i.timeout <;> simp [Option.filter_some, hlive]

/-- **One step.** The operation keeps every stored timeout a time, and makes of each key what `after` says. -/
theorem view_step {h : Heap} (hh : Timed env h) {op : Op} (hop : Allowed env h op) :
    Timed env (step env h op) ∧ ∀ k, view (step env h op) k = op.after env k (view h k) := by
  cases op with
  | set items =>
    cases items with
    | none => exact ⟨hh, fun k => rfl⟩
    | some items => exact setItems_view items hh
  | mExpire items => exact mExpire_view items hh hop
  | delete keys =>
    cases keys with
    | none => exact ⟨hh, fun k => rfl⟩
    | some keys => exact delete_view keys hh
  | clear => exact ⟨nofun, fun k => rfl⟩
  | gc now order => exact gcPass_view now hh hop

/-- **A run.** -/
theorem view_exec {h : Heap} (hh : Timed env h) {ops : List Op} (hops : Run.Along (step env) (Allowed env) h ops) :
    Timed env (Run.exec (step env) h ops) ∧
      ∀ k, view (Run.exec (step env) h ops) k = Run.exec (fun cur op => op.after env k cur) (view h k) ops := by
  induction ops generalizing h with
  | nil => exact ⟨hh, fun k => rfl⟩
  | cons op ops ih =>
    obtain ⟨htimed, hview⟩ := view_step hh hops.1
    obtain ⟨htimed', hview'⟩ := ih htimed hops.2
    refine ⟨htimed', fun k => ?_⟩
    rw [Run.exec_cons, Run.exec_cons, hview' k, hview k]

end

/-- **Expiry.** After every run from the empty map: each stored timeout is empty or a time, so that no pass stops
early; each key holds the value and the timeout of its last `Set`, or the timeout of a later `MExpire`; and a pass
in any order leaves a key exactly if it was there and its timeout is empty or not before `now`, and leaves its item
as it is. -/
theorem expiry (ops : List Op) (hops : Run.Along (step env) (Allowed env) (fun _ => none) ops) :
    let h := Run.exec (step env) (fun _ => none) ops
    (∀ k i, h k = some i → i.timeout = [] ∨ (env.parse i.timeout).isSome) ∧
      (∀ k, view h k = current env k ops) ∧
      ∀ now order, Lists order h → ∀ k,
        ((gcPass env now order h k).isSome ↔
          (h k).isSome ∧ ∃ r ∈ current env k ops, Live env now r.timeout) ∧
          ∀ i, gcPass env now order h k = some i → h k = some i := by
  intro h
  have hempty : Timed env fun _ => none := nofun
  obtain ⟨htimed, hview⟩ := view_exec hempty hops
  refine ⟨fun k i hi => ?_, hview, fun now order horder k => ?_⟩
  · rw [or_iff_not_imp_left, Option.isSome_iff_ne_none]
    exact fun hset hparse => htimed k i hi ⟨hset, hparse⟩
  · rw [show current env k ops = view h k from (hview k).symm]
    exact gcPass_leaves now htimed horder k

/-- A key with the timeout of a new year is there after a pass at that moment, and is not after a later one. -/
theorem expiry_at_new_year :
    let ops := [Op.set (some [some ⟨ascii "a", ascii "1", ascii "2022-01-01T00:00:00Z"⟩, none])]
    let h := Run.exec (step newYearEnv) (fun _ => none) ops
    Run.Along (step newYearEnv) (Allowed newYearEnv) (fun _ => none) ops ∧ Lists [ascii "a"] h ∧
      (gcPass newYearEnv 1640995200000000000 [ascii "a"] h (ascii "a")).isSome ∧
      ¬ (gcPass newYearEnv 1640995200000000001 [ascii "a"] h (ascii "a")).isSome := by
  intro ops h
  have hops : Run.Along (step newYearEnv) (Allowed newYearEnv) (fun _ => none) ops := ⟨trivial, trivial⟩
  have hlists : Lists [ascii "a"] h := by
    intro k
    by_cases hk : k = ascii "a"
    · subst hk
      decide
    · have hnone : h k = none := by
        simp [h, ops, step, set, setItems, Untimely, newYearEnv, hk]
      simp [hnone, hk]
  obtain ⟨-, -, hpass⟩ := expiry newYearEnv ops hops
  refine ⟨hops, hlists, (hpass _ _ hlists (ascii "a")).1.mpr ⟨by decide, _, rfl, by decide⟩, fun hsome => ?_⟩
  obtain ⟨-, r, hr, hlive⟩ := (hpass _ _ hlists (ascii "a")).1.mp hsome
  cases hr
  revert hlive
  decide

end RoadRunner.Memorykv
