import RoadRunner.Memorykv.Driver
import RoadRunner.Lib.Run
import RoadRunner.Lib.Update

/-!
# Concurrent calls of the in-memory driver

`Set`, `MExpire`, `Delete` and the ticks of `gc` again, now as calls that run side by side. Each `Load`, `Store`,
`Delete` and `LoadAndDelete` of the map is one step, and so is a visit of `Range`, which loads one entry.

* `Progress`: a call by the step it takes next. `Progress.effect`: what that step does to the map, and
  `Progress.after`: the step it takes then. `alone_set`, `alone_mExpire`, `alone_gc`, `alone_delete`: the steps of
  a call that runs alone are the operations of `Memorykv/Driver.lean`.
* `Next`: how a call goes on, with what it has tested. The invariants of calls are read off it.
* `State.last`: the item that a key was last given by a `Set`, with the timeout that it was given since, as long as no
  other `Set` and no `Delete` of the key is issued.
* `Safe`: a step takes no such key out of the map, gives it no other value, and a `Set` has a key that `Get` takes.
* `Undisturbed`: what each kind of call has to find for that. `collected_of_unchanged`: a tick that deletes the entry it
  has tested is safe.
* `kept_iff_undisturbed`: the exact runs in which every state is `Kept`.
-/

namespace RoadRunner.Memorykv

open Boltkv (Item)

/-- A call in progress, by the step it takes next. -/
inductive Progress where
  /-- `Set`: `Store` of the next item. -/
  | set (items : List (Option Item))
  /-- `MExpire`: `LoadAndDelete` of the next key. -/
  | load (items : List (Option Item))
  /-- `MExpire`: `Store` of the key with its value and the new timeout. -/
  | store (item : Item) (items : List (Option Item))
  /-- A tick at the time `now`: `Range` visits the next key. -/
  | visit (now : Int) (order : List Bytes)
  /-- A tick: `Delete` of the key, which had the entry `v`. -/
  | collect (k : Bytes) (v : Item) (now : Int) (order : List Bytes)
  /-- `Delete`: `Delete` of the next key. -/
  | delete (keys : List Bytes)
  | returned
  deriving DecidableEq

/-- What a step does to the map. -/
inductive Effect where
  | idle
  | stored (item : Item)
  | taken (k : Bytes)
  | restored (item : Item)
  | collected (k : Bytes)
  | deleted (k : Bytes)
  deriving DecidableEq

/-- The map after an effect. -/
def Effect.heap (h : Heap) : Effect → Heap
  | .idle => h
  | .stored item | .restored item => Function.update h item.key (some item)
  | .taken k | .collected k | .deleted k => Function.update h k none

variable (env : Env)

namespace Progress

/-- What the next step of a call does to the map. -/
def effect (h : Heap) : Progress → Effect
  | .set (some item :: _) => if Untimely env item then .idle else .stored item
  | .load (some item :: _) =>
    if Missing env item then .idle
    else match h item.key with
      | none => .idle
      | some _ => .taken item.key
  | .store item _ => .restored item
  | .collect k _ _ _ => .collected k
  | .delete (k :: _) => .deleted k
  | _ => .idle

/-- Where a call is after its next step. -/
def after (h : Heap) : Progress → Progress
  | .set [] => .returned
  | .set (none :: items) => .set items
  | .set (some item :: items) => if Untimely env item then .returned else .set items
  | .load [] => .returned
  | .load (none :: items) => .load items
  | .load (some item :: items) =>
    if Missing env item then .returned
    else match h item.key with
      | none => .load items
      | some pItem =>
        match env.parse item.timeout with
        | none => .returned
        | some _ => .store ⟨item.key, pItem.value, item.timeout⟩ items
  | .store _ items => .load items
  | .visit _ [] => .returned
  | .visit now (k :: order) =>
    match h k with
    | none => .visit now order
    | some v =>
      if v.timeout = [] then .visit now order
      else match env.parse v.timeout with
        | none => .returned
        | some t => if t < now then .collect k v now order else .visit now order
  | .collect _ _ now order => .visit now order
  | .delete [] => .returned
  | .delete (_ :: keys) => .delete keys
  | .returned => .returned

end Progress

/-- How a call goes on, with what it has tested. -/
inductive Next : Progress → Progress → Prop where
  | returned (c : Progress) : Next c .returned
  | set (item : Option Item) (items : List (Option Item)) : Next (.set (item :: items)) (.set items)
  | load (item : Option Item) (items : List (Option Item)) : Next (.load (item :: items)) (.load items)
  | taken {item p : Item} {items : List (Option Item)} (hkey : ¬ Missing env item) :
      Next (.load (some item :: items)) (.store ⟨item.key, p.value, item.timeout⟩ items)
  | stored (item : Item) (items : List (Option Item)) : Next (.store item items) (.load items)
  | visit (now : Int) (k : Bytes) (order : List Bytes) : Next (.visit now (k :: order)) (.visit now order)
  | tested {now t : Int} {k : Bytes} {v : Item} {order : List Bytes} (hne : v.timeout ≠ [])
      (hparse : env.parse v.timeout = some t) (hlt : t < now) :
      Next (.visit now (k :: order)) (.collect k v now order)
  | collected (k : Bytes) (v : Item) (now : Int) (order : List Bytes) :
      Next (.collect k v now order) (.visit now order)
  | delete (k : Bytes) (keys : List Bytes) : Next (.delete (k :: keys)) (.delete keys)

theorem next_after (c : Progress) (h : Heap) : Next env c (c.after env h) := by
  cases c with
  | set items =>
    rcases items with _ | ⟨_ | item, items⟩
    · exact .returned _
    · exact .set none items
    · rw [Progress.after]
      split
      · exact .returned _
      · exact .set (some item) items
  | load items =>
    rcases items with _ | ⟨_ | item, items⟩
    · exact .returned _
    · exact .load none items
    · rw [Progress.after]
      split
      · exact .returned _
      · rename_i hkey
        cases h item.key with
        | none => exact .load (some item) items
        | some p =>
          cases env.parse item.timeout with
          | none => exact .returned _
          | some t => exact .taken hkey
  | store item items => exact .stored item items
  | visit now order =>
    cases order with
    | nil => exact .returned _
    | cons k order =>
      rw [Progress.after]
      cases h k with
      | none => exact .visit now k order
      | some v =>
        dsimp only
        split
        · exact .visit now k order
        · rename_i hne
          cases hparse : env.parse v.timeout with
          | none => exact .returned _
          | some t =>
            dsimp only
            split
            · rename_i hlt
              exact .tested hne hparse hlt
            · exact .visit now k order
  | collect k v now order => exact .collected k v now order
  | delete keys =>
    cases keys with
    | nil => exact .returned _
    | cons k keys => exact .delete k keys
  | returned => exact .returned _

/-- Only `MExpire` puts a key back. -/
theorem effect_restored {c : Progress} {h : Heap} {item : Item} (he : c.effect env h = .restored item) :
    ∃ items, c = .store item items := by
  unfold Progress.effect at he
  split at he
  · split at he <;> cases he
  · split at he
    · cases he
    · split at he <;> cases he
  · cases he
    exact ⟨_, rfl⟩
  all_goals cases he

/-! ## A call that runs alone -/

/-- The next step of a call that runs alone. -/
def act (x : Heap × Progress) : Heap × Progress := ((x.2.effect env x.1).heap x.1, x.2.after env x.1)

/-- From the call `c`, the steps of the call alone lead to the heap `h'`. -/
def Alone (h : Heap) (c : Progress) (h' : Heap) : Prop := ∃ n, (act env)^[n] (h, c) = (h', .returned)

variable {env}

theorem Alone.step {h h₁ h' : Heap} {c c₁ : Progress} (hact : act env (h, c) = (h₁, c₁))
    (hrest : Alone env h₁ c₁ h') : Alone env h c h' := by
  obtain ⟨n, hn⟩ := hrest
  exact ⟨n + 1, by rw [Function.iterate_succ_apply, hact, hn]⟩

theorem Alone.last {h h' : Heap} {c : Progress} (hact : act env (h, c) = (h', .returned)) : Alone env h c h' :=
  ⟨1, hact⟩

theorem alone_set (items : List (Option Item)) (h : Heap) : Alone env h (.set items) (setItems env items h).2 := by
  induction items generalizing h with
  | nil => exact .last rfl
  | cons item items ih =>
    cases item with
    | none => exact .step rfl (ih h)
    | some item =>
      rw [setItems]
      by_cases ht : Untimely env item
      · rw [if_pos ht]
        exact .last (by simp [act, Progress.effect, Progress.after, ht, Effect.heap])
      · rw [if_neg ht]
        exact .step (by simp [act, Progress.effect, Progress.after, ht, Effect.heap]) (ih _)

theorem alone_mExpire (items : List (Option Item)) (h : Heap) :
    Alone env h (.load items) (mExpire env items h).2 := by
  induction items generalizing h with
  | nil => exact .last rfl
  | cons item items ih =>
    cases item with
    | none => exact .step rfl (ih h)
    | some item =>
      rw [mExpire]
      by_cases hm : Missing env item
      · rw [if_pos hm]
        exact .last (by simp [act, Progress.effect, Progress.after, hm, Effect.heap])
      rw [if_neg hm]
      cases hstored : h item.key with
      | none => exact .step (by simp [act, Progress.effect, Progress.after, hm, hstored, Effect.heap]) (ih h)
      | some p =>
        cases hparse : env.parse item.timeout with
        | none => exact .last (by simp [act, Progress.effect, Progress.after, hm, hstored, hparse, Effect.heap])
        | some t =>
          have hremoved : act env (h, .load (some item :: items)) =
              (Function.update h item.key none, .store ⟨item.key, p.value, item.timeout⟩ items) := by
            simp [act, Progress.effect, Progress.after, hm, hstored, hparse, Effect.heap]
          exact .step hremoved (.step rfl (ih _))

theorem alone_gc (now : Int) (order : List Bytes) (h : Heap) :
    Alone env h (.visit now order) (gcPass env now order h) := by
  induction order generalizing h with
  | nil => exact .last rfl
  | cons k order ih =>
    rw [gcPass]
    cases hk : h k with
    | none => exact .step (by simp [act, Progress.effect, Progress.after, hk, Effect.heap]) (ih h)
    | some v =>
      by_cases hv : v.timeout = []
      · simp only [hv, ↓reduceIte]
        exact .step (by simp [act, Progress.effect, Progress.after, hk, hv, Effect.heap]) (ih h)
      simp only [hv, ↓reduceIte]
      cases hparse : env.parse v.timeout with
      | none => exact .last (by simp [act, Progress.effect, Progress.after, hk, hv, hparse, Effect.heap])
      | some t =>
        by_cases ht : t < now
        · simp only [ht, ↓reduceIte]
          have hseen : act env (h, .visit now (k :: order)) = (h, .collect k v now order) := by
            simp [act, Progress.effect, Progress.after, hk, hv, hparse, ht, Effect.heap]
          exact .step hseen (.step rfl (ih _))
        · simp only [ht, ↓reduceIte]
          exact .step (by simp [act, Progress.effect, Progress.after, hk, hv, hparse, ht, Effect.heap]) (ih h)

theorem alone_delete (keys : List Bytes) (h : Heap) :
    Alone env h (.delete keys) (keys.foldl (fun h k => Function.update h k none) h) := by
  induction keys generalizing h with
  | nil => exact .last rfl
  | cons k keys ih => exact .step rfl (ih _)

/-! ## Calls side by side -/

variable (env)

/-- There is no timeout, or it is after `now`. -/
def Future (now : Int) (timeout : Bytes) : Prop :=
  timeout = [] ∨ ∃ t ∈ env.parse timeout, now < t

instance (now : Int) (timeout : Bytes) : Decidable (Future env now timeout) :=
  inferInstanceAs (Decidable (_ ∨ ∃ t ∈ env.parse timeout, now < t))

/-- The map, with the calls in progress and the time. -/
structure State where
  heap : Heap
  now : Int
  calls : List Progress := []
  /-- The item of the last `Set` of a key, with the timeout that the key was given since. -/
  last : Bytes → Option Item := fun _ => none

/-- What can happen. -/
inductive Move where
  | set (items : List (Option Item))
  | mExpire (items : List (Option Item))
  | delete (keys : List Bytes)
  /-- A tick of `gc`, which may be late. -/
  | gc (late : Nat) (order : List Bytes)
  /-- Time passes. -/
  | wait (d : Nat)
  | next (i : Nat)
  deriving DecidableEq

/-- What a step makes of `last`. The promise of a `Set` whose timeout is over is none. -/
def Effect.last (now : Int) (last : Bytes → Option Item) : Effect → Bytes → Option Item
  | .stored item => Function.update last item.key (if Future env now item.timeout then some item else none)
  | .restored item =>
    Function.update last item.key ((last item.key).map fun it => { it with timeout := item.timeout })
  | .deleted k => Function.update last k none
  | .idle | .taken _ | .collected _ => last

/-- At the time `now`, the keys of `last` whose timeout is not over are read with their value. -/
def Keeps (now : Int) (heap : Heap) (last : Bytes → Option Item) : Prop :=
  ∀ k, ∀ item ∈ last k, Future env now item.timeout → get env k heap = .ok (some item.value)

/-- A call of `Set` or `Delete` is issued for these keys. -/
def issued (keys : List Bytes) (last : Bytes → Option Item) : Bytes → Option Item :=
  fun k => if k ∈ keys then none else last k

namespace State

/-- The `i`-th call takes its next step. -/
def next (s : State) (i : Nat) : State :=
  match s.calls[i]? with
  | none => s
  | some c =>
    { s with
      heap := (c.effect env s.heap).heap s.heap
      calls := s.calls.set i (c.after env s.heap)
      last := (c.effect env s.heap).last env s.now s.last }

/-- One move. -/
def step (s : State) : Move → State
  | .set items =>
    { s with calls := s.calls ++ [.set items], last := issued (items.reduceOption.map Item.key) s.last }
  | .mExpire items => { s with calls := s.calls ++ [.load items] }
  | .delete keys =>
    { s with
      calls := s.calls ++ [if keys.any env.blank then .returned else .delete keys]
      last := issued keys s.last }
  | .gc late order => { s with calls := s.calls ++ [.visit (s.now - late) order] }
  | .wait d => { s with now := s.now + d }
  | .next i => s.next env i

/-- A `Set` of the key is completed, no other one and no `Delete` is issued, and its timeout is not over. -/
def Live (s : State) (k : Bytes) : Prop := ∃ item ∈ s.last k, Future env s.now item.timeout

instance (s : State) (k : Bytes) : Decidable (s.Live env k) :=
  inferInstanceAs (Decidable (∃ item ∈ s.last k, Future env s.now item.timeout))

/-- Such a key is read with the value of that `Set`. -/
def Kept (s : State) : Prop := Keeps env s.now s.heap s.last

end State

/-- What a step does to the map is of no harm to the keys that are live. -/
def Effect.Safe (s : State) : Effect → Prop
  | .stored item => Future env s.now item.timeout → env.blank item.key = false
  | .taken k | .collected k => ¬ s.Live env k
  | .restored item => Future env s.now item.timeout → ∀ it ∈ s.last item.key, item.value = it.value
  | .idle | .deleted _ => True

/-- What the next step of the `i`-th call does to the map. -/
def State.effect (s : State) (i : Nat) : Effect := ((s.calls[i]?).map fun c => c.effect env s.heap).getD .idle

/-- The move does no harm to a live key. -/
def Safe (s : State) : Move → Prop
  | .next i => (s.effect env i).Safe env s
  | _ => True

/-- What a call has to find when it takes its next step: `Set` a key that `Get` takes; `MExpire` a key that is not live,
and when it stores, no other value that was set since; a tick, when it deletes, the entry that it has tested, or a
key that is not live. -/
def Progress.Undisturbed (s : State) : Progress → Prop
  | .set (some item :: _) => Future env s.now item.timeout → env.blank item.key = false
  | .load (some item :: _) => ¬ Missing env item → ¬ s.Live env item.key
  | .store item _ => Future env s.now item.timeout → ∀ it ∈ s.last item.key, item.value = it.value
  | .collect k v _ _ => s.heap k = some v ∨ ¬ s.Live env k
  | _ => True

/-- The call that takes the step is undisturbed. -/
def Undisturbed (s : State) : Move → Prop
  | .next i => ∀ c ∈ s.calls[i]?, c.Undisturbed env s
  | _ => True

variable {env}

theorem Future.mono {now later : Int} {timeout : Bytes} (h : Future env later timeout) (hle : now ≤ later) :
    Future env now timeout := by
  refine h.imp_right ?_
  rintro ⟨t, ht, hlt⟩
  exact ⟨t, ht, by omega⟩

theorem get_eq_ok_some {k : Bytes} {h : Heap} {v : Bytes} :
    get env k h = .ok (some v) ↔ env.blank k = false ∧ (h k).map Item.value = some v := by
  unfold get
  cases env.blank k <;> simp

/-! ## What a step keeps -/

/-- A key that `MExpire` puts back is one that `Get` takes. -/
def Progress.Checked (env : Env) : Progress → Prop
  | .store item _ => env.blank item.key = false
  | _ => True

/-- Every call in progress is checked. -/
def State.Checked (env : Env) (s : State) : Prop := ∀ c ∈ s.calls, c.Checked env

theorem Next.checked {c c' : Progress} (h : Next env c c') : c'.Checked env := by
  cases h with
  | taken hkey => exact Bool.eq_false_iff.mpr fun hblank => hkey (.inr hblank)
  | _ => trivial

theorem State.Checked.step {s : State} (hs : s.Checked env) (m : Move) : (s.step env m).Checked env := by
  cases m with
  | next i =>
    simp only [State.step, State.next]
    cases hc : s.calls[i]? with
    | none => exact hs
    | some c => exact Update.forall_set hs i (next_after env c s.heap).checked
  | wait d => exact hs
  | delete keys =>
    refine Update.forall_concat hs ?_
    split <;> trivial
  | _ => exact Update.forall_concat hs trivial

/-- What holds of the other keys makes no difference for a change of one. -/
theorem keeps_update_iff {now : Int} {heap : Heap} {last : Bytes → Option Item} (h : Keeps env now heap last)
    (k : Bytes) (entry promise : Option Item) :
    Keeps env now (Function.update heap k entry) (Function.update last k promise) ↔
      ∀ item ∈ promise, Future env now item.timeout →
        env.blank k = false ∧ entry.map Item.value = some item.value := by
  constructor
  · intro h' item hitem hfuture
    have hget := get_eq_ok_some.mp (h' k item (by rwa [Function.update_self]) hfuture)
    rwa [Function.update_self] at hget
  · intro h' j item hitem hfuture
    rw [get_eq_ok_some]
    by_cases hj : j = k
    · subst hj
      rw [Function.update_self] at hitem ⊢
      exact h' item hitem hfuture
    · rw [Function.update_of_ne hj] at hitem ⊢
      exact get_eq_ok_some.mp (h j item hitem hfuture)

/-- A key may be taken out of the map if it is not live. -/
theorem keeps_remove_iff {s : State} (h : s.Kept env) (k : Bytes) :
    Keeps env s.now (Function.update s.heap k none) s.last ↔ ¬ s.Live env k := by
  have hupdate := keeps_update_iff h k none (s.last k)
  rw [Function.update_eq_self] at hupdate
  rw [hupdate]
  constructor
  · rintro hnone ⟨item, hitem, hfuture⟩
    exact nomatch (hnone item hitem hfuture).2
  · intro hlive item hitem hfuture
    exact absurd ⟨item, hitem, hfuture⟩ hlive

/-- An effect keeps what is promised exactly if it is safe. -/
theorem effect_keeps_iff {s : State} (hkept : s.Kept env) {e : Effect}
    (he : ∀ item, e = .restored item → env.blank item.key = false) :
    Keeps env s.now (e.heap s.heap) (e.last env s.now s.last) ↔ e.Safe env s := by
  cases e with
  | idle => exact iff_of_true hkept trivial
  | stored item =>
    refine (keeps_update_iff hkept _ _ _).trans ?_
    by_cases hfuture : Future env s.now item.timeout
    · rw [if_pos hfuture]
      constructor
      · exact fun h _ => (h item rfl hfuture).1
      · rintro h it ⟨⟩ -
        exact ⟨h hfuture, rfl⟩
    · rw [if_neg hfuture]
      exact iff_of_true nofun fun h => absurd h hfuture
  | taken k => exact keeps_remove_iff hkept k
  | restored item =>
    -- the promise keeps its value and takes the timeout, so only the value that is put back can be wrong
    refine (keeps_update_iff hkept _ _ _).trans ?_
    constructor
    · intro h hfuture it hit
      have hit' : { it with timeout := item.timeout } ∈
          (s.last item.key).map fun it => { it with timeout := item.timeout } := Option.mem_map_of_mem _ hit
      exact Option.some.inj (h _ hit' hfuture).2
    · intro h it' hit' hfuture
      obtain ⟨it, hit, rfl⟩ := Option.map_eq_some_iff.mp hit'
      exact ⟨he item rfl, congrArg some (h hfuture it hit)⟩
  | collected k => exact keeps_remove_iff hkept k
  | deleted k => exact (keeps_update_iff hkept _ _ _).trans (iff_of_true nofun trivial)

theorem keeps_issued {now : Int} {heap : Heap} {last : Bytes → Option Item} (h : Keeps env now heap last)
    (keys : List Bytes) : Keeps env now heap (issued keys last) := by
  intro k item hitem hfuture
  unfold issued at hitem
  split at hitem
  · cases hitem
  · exact h k item hitem hfuture

/-- A step keeps what is promised exactly if it is safe. -/
theorem step_kept_iff {s : State} (hchecked : s.Checked env) (hkept : s.Kept env) (m : Move) :
    (s.step env m).Kept env ↔ Safe env s m := by
  cases m with
  | set items => exact iff_of_true (keeps_issued hkept _) trivial
  | mExpire items => exact iff_of_true hkept trivial
  | delete keys => exact iff_of_true (keeps_issued hkept _) trivial
  | gc late order => exact iff_of_true hkept trivial
  | wait d =>
    -- what is not over later is not over now
    refine iff_of_true (fun k item hitem hfuture => ?_) trivial
    exact hkept k item hitem (hfuture.mono (Int.le_add_of_nonneg_right (Int.natCast_nonneg d)))
  | next i =>
    simp only [State.step, State.next, Safe, State.effect]
    cases hc : s.calls[i]? with
    | none => exact iff_of_true hkept trivial
    | some c =>
      refine effect_keeps_iff hkept fun item hitem => ?_
      obtain ⟨items, rfl⟩ := effect_restored env hitem
      exact hchecked _ (List.mem_of_getElem? hc)

/-! ## Ticks -/

/-- The time of a tick has come, and an entry that it deletes was over then. -/
def Progress.Dated (env : Env) (now : Int) : Progress → Prop
  | .visit t _ => t ≤ now
  | .collect _ v t _ => t ≤ now ∧ ¬ Future env t v.timeout
  | _ => True

/-- The timeouts of the entries are those last given. -/
structure State.Dated (env : Env) (s : State) : Prop where
  /-- The entry of a key has the timeout that the key was last given. -/
  timeouts : ∀ k, ∀ entry ∈ s.heap k, ∀ item ∈ s.last k, entry.timeout = item.timeout
  ticks : ∀ c ∈ s.calls, c.Dated env s.now

theorem Next.dated {c c' : Progress} (h : Next env c c') {now : Int} (hc : c.Dated env now) : c'.Dated env now := by
  cases h with
  | visit t k order => exact hc
  | tested hne hparse hlt =>
    refine ⟨hc, ?_⟩
    rintro (hnil | ⟨u, hu, hlt'⟩)
    · exact hne hnil
    · cases hparse.symm.trans hu
      omega
  | collected k v t order => exact hc.1
  | _ => trivial

theorem timeouts_update {heap : Heap} {last : Bytes → Option Item}
    (h : ∀ k, ∀ entry ∈ heap k, ∀ item ∈ last k, entry.timeout = item.timeout) (k : Bytes) {entry promise : Option Item}
    (hk : ∀ e ∈ entry, ∀ item ∈ promise, e.timeout = item.timeout) :
    ∀ j, ∀ e ∈ Function.update heap k entry j, ∀ item ∈ Function.update last k promise j, e.timeout = item.timeout := by
  intro j
  by_cases hj : j = k
  · subst hj
    rw [Function.update_self, Function.update_self]
    exact hk
  · rw [Function.update_of_ne hj, Function.update_of_ne hj]
    exact h j

theorem Effect.timeouts {s : State} (h : s.Dated env) (e : Effect) :
    ∀ k, ∀ entry ∈ e.heap s.heap k, ∀ item ∈ e.last env s.now s.last k, entry.timeout = item.timeout := by
  have hremove : ∀ k j, ∀ entry ∈ Function.update s.heap k none j, ∀ item ∈ s.last j, entry.timeout = item.timeout := by
    intro k
    have hupdate : ∀ j, ∀ entry ∈ Function.update s.heap k none j,
        ∀ item ∈ Function.update s.last k (s.last k) j, entry.timeout = item.timeout :=
      timeouts_update h.timeouts k nofun
    rwa [Function.update_eq_self] at hupdate
  cases e with
  | idle => exact h.timeouts
  | stored item =>
    refine timeouts_update h.timeouts item.key ?_
    rintro _ ⟨⟩ it hit
    split at hit <;> cases hit
    rfl
  | taken k => exact hremove k
  | restored item =>
    refine timeouts_update h.timeouts item.key ?_
    rintro _ ⟨⟩ it' hit'
    obtain ⟨it, -, rfl⟩ := Option.map_eq_some_iff.mp hit'
    rfl
  | collected k => exact hremove k
  | deleted k => exact timeouts_update h.timeouts k nofun

theorem timeouts_issued {s : State} (h : s.Dated env) (keys : List Bytes) :
    ∀ k, ∀ entry ∈ s.heap k, ∀ item ∈ issued keys s.last k, entry.timeout = item.timeout := by
  intro k entry hentry item hitem
  unfold issued at hitem
  split at hitem
  · cases hitem
  · exact h.timeouts k entry hentry item hitem

theorem State.Dated.step {s : State} (h : s.Dated env) (m : Move) : (s.step env m).Dated env := by
  cases m with
  | set items => exact ⟨timeouts_issued h _, Update.forall_concat h.ticks trivial⟩
  | mExpire items => exact ⟨h.timeouts, Update.forall_concat h.ticks trivial⟩
  | delete keys =>
    refine ⟨timeouts_issued h _, Update.forall_concat h.ticks ?_⟩
    split <;> trivial
  | gc late order =>
    exact ⟨h.timeouts, Update.forall_concat h.ticks (Int.sub_le_self _ (Int.natCast_nonneg late))⟩
  | wait d =>
    refine ⟨h.timeouts, fun c hc => ?_⟩
    have hle : s.now ≤ s.now + d := Int.le_add_of_nonneg_right (Int.natCast_nonneg d)
    have hdated := h.ticks c hc
    cases c with
    | visit t order => exact Int.le_trans hdated hle
    | collect k v t order => exact ⟨Int.le_trans hdated.1 hle, hdated.2⟩
    | _ => trivial
  | next i =>
    simp only [State.step, State.next]
    cases hc : s.calls[i]? with
    | none => exact h
    | some c =>
      have hdated := h.ticks c (List.mem_of_getElem? hc)
      exact ⟨Effect.timeouts h _, Update.forall_set h.ticks i ((next_after env c s.heap).dated hdated)⟩

/-- A tick that finds the entry it has tested deletes no key that is live. -/
theorem collected_of_unchanged {s : State} (h : s.Dated env) {i : Nat} {k : Bytes} {v : Item} {t : Int}
    {order : List Bytes} (hc : s.calls[i]? = some (.collect k v t order)) (hk : s.heap k = some v) :
    ¬ s.Live env k := by
  rintro ⟨item, hitem, hfuture⟩
  obtain ⟨hle, hover⟩ := h.ticks _ (List.mem_of_getElem? hc)
  rw [← h.timeouts k v hk item hitem] at hfuture
  exact hover (hfuture.mono hle)

/-! ## Runs -/

theorem stored_of_live {s : State} (hkept : s.Kept env) {k : Bytes} (h : s.Live env k) : ∃ p, s.heap k = some p := by
  obtain ⟨item, hitem, hfuture⟩ := h
  obtain ⟨p, hp, -⟩ := Option.map_eq_some_iff.mp (get_eq_ok_some.mp (hkept k item hitem hfuture)).2
  exact ⟨p, hp⟩

/-- The next step of a call does no harm exactly if it is undisturbed. -/
theorem safe_effect_iff {s : State} (hdated : s.Dated env) (hkept : s.Kept env) {i : Nat} {c : Progress}
    (hc : s.calls[i]? = some c) : (c.effect env s.heap).Safe env s ↔ c.Undisturbed env s := by
  cases c with
  | set items =>
    rcases items with _ | ⟨_ | item, items⟩
    · exact Iff.rfl
    · exact Iff.rfl
    · rw [Progress.effect]
      split
      · rename_i huntimely
        refine iff_of_true trivial fun hfuture => ?_
        rcases hfuture with hnil | ⟨t, ht, -⟩
        · exact absurd hnil huntimely.1
        · exact nomatch huntimely.2.symm.trans ht
      · exact Iff.rfl
  | load items =>
    rcases items with _ | ⟨_ | item, items⟩
    · exact Iff.rfl
    · exact Iff.rfl
    · rw [Progress.effect]
      split
      · rename_i hmissing
        exact iff_of_true trivial fun h => absurd hmissing h
      · rename_i hmissing
        cases hheap : s.heap item.key with
        | none =>
          refine iff_of_true trivial fun _ hlive => ?_
          obtain ⟨p, hp⟩ := stored_of_live hkept hlive
          exact nomatch hheap.symm.trans hp
        | some p => exact ⟨fun h _ => h, fun h => h hmissing⟩
  | collect k v t order =>
    constructor
    · exact Or.inr
    · exact fun h => h.elim (collected_of_unchanged hdated hc) id
  | delete keys => cases keys <;> exact Iff.rfl
  | store | visit | returned => exact Iff.rfl

theorem safe_iff_undisturbed {s : State} (hdated : s.Dated env) (hkept : s.Kept env) (m : Move) :
    Safe env s m ↔ Undisturbed env s m := by
  cases m with
  | next i =>
    simp only [Safe, State.effect, Undisturbed]
    cases hc : s.calls[i]? with
    | none => exact iff_of_true trivial nofun
    | some c =>
      refine (safe_effect_iff hdated hkept hc).trans ?_
      exact ⟨fun h c' hc' => Option.some.inj hc' ▸ h, fun h => h c rfl⟩
  | _ => exact Iff.rfl

/-- **No update is lost.** In every run of any number of calls, from any content of the map: a key that was set and
whose timeout is not over is read with the value of its last `Set`, in every state, if and only if no such key is
blank; no `MExpire` takes such a key out, or stores the key with another value than was set since; and a tick deletes
the entry that it has tested, or else a key that is not such a one. -/
theorem kept_iff_undisturbed (env : Env) (heap : Heap) (now : Int) (ms : List Move) :
    (∀ pre post, ms = pre ++ post → ∀ k,
        let s := Run.exec (State.step env) { heap, now } pre
        ∀ item ∈ s.last k, Future env s.now item.timeout → get env k s.heap = .ok (some item.value)) ↔
      Run.Along (State.step env) (Undisturbed env) { heap, now } ms := by
  -- the invariant: blank keys are not put back, and timeouts in the map are those last given
  refine Run.Along.always_iff (I := fun s => s.Checked env ∧ s.Dated env) (P := State.Kept env) ?_ ?_
    ⟨List.forall_mem_nil _, fun k entry _ item hitem => (nomatch hitem), List.forall_mem_nil _⟩ nofun
  · rintro s m ⟨hchecked, hdated⟩ hkept hm
    refine ⟨⟨hchecked.step m, hdated.step m⟩, (step_kept_iff hchecked hkept m).mpr ?_⟩
    exact (safe_iff_undisturbed hdated hkept m).mpr hm
  · rintro s m ⟨hchecked, hdated⟩ hkept hkept'
    exact (safe_iff_undisturbed hdated hkept m).mp ((step_kept_iff hchecked hkept m).mp hkept')

/-- A tick tests the entry of a key, the key is set anew, and the tick deletes it. `MExpire` takes a value out, the key
is set anew, and `MExpire` puts the old value back. -/
theorem update_lost :
    let a := ascii "a"
    let old : Item := ⟨a, ascii "1", ascii "2022-01-01T00:00:00Z"⟩
    let new : Item := ⟨a, ascii "2", []⟩
    let start : State := { heap := fun _ => none, now := 0 }
    let collected := Run.exec (State.step newYearEnv) start
      [.set [some old], .next 0, .wait 1640995200000000001, .gc 0 [a], .next 1, .set [some new], .next 2, .next 1]
    let restored := Run.exec (State.step newYearEnv) start
      [.set [some old], .next 0, .mExpire [some old], .next 1, .set [some new], .next 2, .next 1]
    (collected.last a = some new ∧ collected.Live newYearEnv a ∧ get newYearEnv a collected.heap = .ok none) ∧
      restored.last a = some { new with timeout := old.timeout } ∧ restored.Live newYearEnv a ∧
        get newYearEnv a restored.heap = .ok (some old.value) := by
  decide +kernel

end RoadRunner.Memorykv
