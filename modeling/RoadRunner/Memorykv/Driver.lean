import RoadRunner.Boltkv.Driver

/-!
# The in-memory key-value driver

The model of `memory/memorykv/kv.go`. The heap is a `sync.Map` from keys to items, and an item of a call may be
nil.

* `mExpire_clean_iff`: which failing calls leave the keys and the values as they were.
-/

namespace RoadRunner.Memorykv

open Boltkv (Item)

/-- What the driver calls of the standard library. -/
structure Env where
  /-- `time.Parse(time.RFC3339, ·)`. -/
  parse : Bytes → Option Int
  /-- `strings.TrimSpace` leaves nothing of the key. -/
  blank : Bytes → Bool

/-- `heap`. -/
abbrev Heap := Bytes → Option Item

variable (env : Env)

/-- `Get`. No value is `nil`. -/
def get (key : Bytes) (h : Heap) : Except Err (Option Bytes) :=
  if env.blank key then .error (.op "in_memory_plugin_get" (.lib "errors.EmptyKey"))
  else .ok ((h key).map Item.value)

/-- `Set` returns at this item, since its timeout is no time. -/
def Untimely (item : Item) : Prop := item.timeout ≠ [] ∧ env.parse item.timeout = none

instance (item : Item) : Decidable (Untimely env item) := inferInstanceAs (Decidable (_ ∧ _))

/-- The loop of `Set`. -/
def setItems : List (Option Item) → Heap → Option Err × Heap
  | [], h => (none, h)
  | none :: items, h => setItems items h
  | some item :: items, h =>
    if Untimely env item then (some (.lib "Parse"), h)
    else setItems items (Function.update h item.key (some item))

/-- `Set`; `none` is a nil slice. -/
def set (items : Option (List (Option Item))) (h : Heap) : Option Err × Heap :=
  match items with
  | none => (some (.op "in_memory_plugin_set" (.lib "errors.NoKeys")), h)
  | some items => setItems env items h

/-- The item has no timeout or no key. -/
def Missing (item : Item) : Prop := item.timeout = [] ∨ env.blank item.key = true

instance (item : Item) : Decidable (Missing env item) := inferInstanceAs (Decidable (_ ∨ _))

/-- `Driver.MExpire`. -/
def mExpire : List (Option Item) → Heap → Option Err × Heap
  | [], h => (none, h)
  | none :: items, h => mExpire items h
  | some item :: items, h =>
    if Missing env item then
      (some (.op "in_memory_plugin_mexpire" (.str "should set timeout and at least one key")), h)
    else match h item.key with
      | none => mExpire items h
      | some pItem =>
        -- `LoadAndDelete` comes before the timeout is parsed
        let h := Function.update h item.key none
        match env.parse item.timeout with
        | none => (some (.op "in_memory_plugin_mexpire" (.lib "Parse")), h)
        | some _ => mExpire items (Function.update h item.key (some ⟨item.key, pItem.value, item.timeout⟩))

/-- `Delete`; `none` is a nil slice. -/
def delete (keys : Option (List Bytes)) (h : Heap) : Option Err × Heap :=
  match keys with
  | none => (some (.op "in_memory_plugin_delete" (.lib "errors.NoKeys")), h)
  | some keys =>
    if keys.any env.blank then (some (.op "in_memory_plugin_delete" (.lib "errors.EmptyKey")), h)
    else (none, keys.foldl (fun h k => Function.update h k none) h)

/-- `Driver.Clear`. -/
def clear (_ : Heap) : Heap := fun _ => none

/-- One tick of `gc` at the time `now`, with the order of `Range`. -/
def gcPass (now : Int) : List Bytes → Heap → Heap
  | [], h => h
  | k :: order, h =>
    match h k with
    | none => gcPass now order h
    | some v =>
      if v.timeout = [] then gcPass now order h
      else match env.parse v.timeout with
        | none => h
        | some t => if t < now then gcPass now order (Function.update h k none) else gcPass now order h

/-! ## Failing calls of MExpire -/

/-- The values of the stored keys. -/
def values (h : Heap) : Bytes → Option Bytes := fun k => (h k).map Item.value

/-- Why `MExpire` gives up at an item. -/
inductive Refusal where
  | missing
  | unparsable
  deriving DecidableEq

/-- The error of a refusal. -/
def Refusal.err : Refusal → Err
  | .missing => .op "in_memory_plugin_mexpire" (.str "should set timeout and at least one key")
  | .unparsable => .op "in_memory_plugin_mexpire" (.lib "Parse")

/-- A timeout is parsed only if the key is stored. -/
def refusal (stored : Bytes → Option Bytes) (item : Item) : Option Refusal :=
  if Missing env item then some .missing
  else if (stored item.key).isSome ∧ env.parse item.timeout = none then some .unparsable
  else none

/-- Why `MExpire` fails, if it does. -/
def firstRefusal (stored : Bytes → Option Bytes) (items : List (Option Item)) : Option Refusal :=
  items.reduceOption.findSome? (refusal env stored)

variable {env}

/-- A new timeout for a stored key changes no value. -/
theorem values_update {h : Heap} {k : Bytes} {item p : Item} (hp : h k = some p) (hv : item.value = p.value) :
    values (Function.update (Function.update h k none) k (some item)) = values h := by
  funext j
  unfold values
  by_cases hj : j = k
  · subst hj
    rw [Function.update_self, hp, Option.map_some, Option.map_some, hv]
  · rw [Function.update_of_ne hj, Function.update_of_ne hj]

variable (env) in
/-- What one call of `MExpire` comes to: the error is that of the first item that is refused, and the values are
the same unless a stored key has been taken out. -/
theorem mExpire_spec (items : List (Option Item)) (h : Heap) :
    (mExpire env items h).1 = (firstRefusal env (values h) items).map Refusal.err ∧
      (values (mExpire env items h).2 = values h ↔ firstRefusal env (values h) items ≠ some .unparsable) := by
  induction items generalizing h with
  | nil => exact ⟨rfl, iff_of_true rfl nofun⟩
  | cons item items ih =>
    cases item with
    | none => exact ih h
    | some item =>
      unfold firstRefusal at ih ⊢
      rw [List.reduceOption_cons_of_some, List.findSome?_cons, mExpire, refusal]
      by_cases hmissing : Missing env item
      · rw [if_pos hmissing, if_pos hmissing]
        exact ⟨rfl, iff_of_true rfl nofun⟩
      rw [if_neg hmissing, if_neg hmissing]
      cases hstored : h item.key with
      | none =>
        have hnot : ¬ ((values h item.key).isSome ∧ env.parse item.timeout = none) := by
          simp [values, hstored]
        rw [if_neg hnot]
        exact ih h
      | some p =>
        have hsome : (values h item.key).isSome := by simp [values, hstored]
        cases hparse : env.parse item.timeout with
        | none =>
          rw [if_pos ⟨hsome, rfl⟩]
          refine ⟨rfl, iff_of_false (fun heq => ?_) (fun hne => hne rfl)⟩
          -- the key that was taken out is missing
          have hkey : values (Function.update h item.key none) item.key = values h item.key := congrFun heq item.key
          rw [values, Function.update_self, values, hstored] at hkey
          cases hkey
        | some t =>
          rw [if_neg (fun hunparsable => nomatch hunparsable.2)]
          have hvalues : values (Function.update (Function.update h item.key none) item.key
              (some ⟨item.key, p.value, item.timeout⟩)) = values h := values_update hstored rfl
          have hrest := ih (Function.update (Function.update h item.key none) item.key
            (some ⟨item.key, p.value, item.timeout⟩))
          rw [hvalues] at hrest
          exact hrest

/-- **Failing calls of `MExpire`.** A call that fails has removed no key and changed no value, exactly if the first
item that it gives up at is one without a timeout or a key. If it is one whose timeout cannot be parsed, its key is
gone. -/
theorem mExpire_clean_iff (env : Env) (items : List (Option Item)) (h : Heap) :
    ((mExpire env items h).1 ≠ none → values (mExpire env items h).2 = values h) ↔
      firstRefusal env (values h) items ≠ some .unparsable := by
  obtain ⟨herr, hvalues⟩ := mExpire_spec env items h
  rw [← hvalues, herr]
  refine ⟨fun hclean => ?_, fun hsame _ => hsame⟩
  cases hfirst : firstRefusal env (values h) items with
  | none => exact hvalues.mpr (by rw [hfirst]; nofun)
  | some r => exact hclean (by rw [hfirst]; nofun)

/-- Timeouts of one moment. -/
def newYearEnv : Env where
  parse t := if t = ascii "2022-01-01T00:00:00Z" then some 1640995200000000000 else none
  blank k := k.all (· = 32)

/-- The second item has a timeout that is no time: its key is removed. -/
theorem mExpire_removes :
    let stored : Heap := fun k =>
      if k = ascii "a" then some ⟨ascii "a", ascii "1", []⟩
      else if k = ascii "b" then some ⟨ascii "b", ascii "2", []⟩ else none
    let out := mExpire newYearEnv
      [some ⟨ascii "a", [], ascii "2022-01-01T00:00:00Z"⟩, some ⟨ascii "b", [], ascii "tomorrow"⟩] stored
    out.1 = some (.op "in_memory_plugin_mexpire" (.lib "Parse")) ∧
      get newYearEnv (ascii "b") stored = .ok (some (ascii "2")) ∧
      get newYearEnv (ascii "a") out.2 = .ok (some (ascii "1")) ∧ get newYearEnv (ascii "b") out.2 = .ok none := by
  decide +kernel

end RoadRunner.Memorykv
