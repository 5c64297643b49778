import RoadRunner.Kv.Store

/-!
# The key-value driver for redis

The model of `Set` of `redis/kv/kv.go`, and of the `SET` command as the client writes it.

* `Ttl`, `ttl`: the options of `SET` that the client makes of an expiration. A negative one, and 0, mean none;
  only -1 has a meaning of its own.
-/

namespace RoadRunner.Redis.Kv

open Boltkv (Item)
open RoadRunner.Kv

/-- `t.Sub(u)`: a difference that is no `time.Duration` is cut off. -/
def sub (t u : Int) : Int := max (-2 ^ 63) (min (2 ^ 63 - 1) (t - u))

/-- The options of the command `SET`. -/
inductive Ttl where
  | forever
  | keepttl
  | ex (sec : Int)
  | px (ms : Int)
  deriving DecidableEq

/-- What the client makes of an expiration. -/
def ttl (expiration : Int) : Ttl :=
  if 0 < expiration then
    if expiration < 1000000000 ∨ expiration % 1000000000 ≠ 0 then
      -- less than a millisecond is made one
      .px (if expiration < 1000000 then 1 else expiration / 1000000)
    else .ex (expiration / 1000000000)
  else if expiration = -1 then .keepttl
  else .forever

/-- The expiry that the command `SET` sets at the time `now`; `kept` is the one that the key has. -/
def expiryOf (now : Int) (kept : Option Int) : Ttl → Option Int
  | .forever => none
  | .keepttl => kept
  | .ex sec => some (now + sec * 1000000000)
  | .px ms => some (now + ms * 1000000)

/-- The command `SET`. A key that has expired has no expiry to keep. -/
def put (now : Int) (expiration : Int) (item : Item) (s : Store) : Store :=
  let kept := ((s item.key).filter fun e => e.Readable now).bind Entry.expiry
  Function.update s item.key (some ⟨item.value, expiryOf now kept (ttl expiration)⟩)

/-- The expiration of an item; `parse` is `time.Parse(time.RFC3339, ·)`. -/
def expiration (parse : Bytes → Option Int) (now : Int) (item : Item) : Except Err Int :=
  if item.timeout = [] then .ok 0
  else
    match parse item.timeout with
    | none => .error (.lib "Parse")
    | some t => .ok (sub t now)

/-- `Set`; `none` is a nil slice. -/
def set (parse : Bytes → Option Int) (now : Int) (fails : Nat → Bool) (items : Option (List (Option Item)))
    (s : Store) : Option Err × Store :=
  match items with
  | none => (some (.op "redis_driver_set" (.lib "errors.NoKeys")), s)
  | some items =>
    setLoop (.op "redis_driver_set" (.lib "errors.EmptyKey")) (expiration parse now) (put now) fails 0 items s

theorem put_of_ne (now d : Int) (item : Item) (s : Store) (k : Bytes) (hk : k ≠ item.key) :
    put now d item s k = s k := Function.update_of_ne hk _ _

/-- A positive expiration is cut to whole milliseconds, and one below a millisecond is made one. -/
theorem expiryOf_of_pos (now : Int) (kept : Option Int) {d : Int} (hd : 0 < d) :
    expiryOf now kept (ttl d) = some (now + if d < 1000000 then 1000000 else d / 1000000 * 1000000) := by
  rw [ttl, if_pos hd]
  split
  · rw [expiryOf]
    split <;> rfl
  · rw [expiryOf]
    congr 2
    split <;> omega

/-- Any other expiration leaves no expiry that is over. -/
theorem lt_expiryOf {now : Int} {kept : Option Int} (hkept : ∀ x ∈ kept, now < x) {d : Int} (hd : d ≤ 0) :
    ∀ x ∈ expiryOf now kept (ttl d), now < x := by
  rw [ttl, if_neg (by omega)]
  split
  · exact hkept
  · nofun

/-- The timeout `t` is honoured exactly if it is in the future and the difference is not cut off by more than
a second. -/
theorem honours_put_iff (now t : Int) (item : Item) (s : Store) :
    ∃ e, put now (sub t now) item s item.key = some e ∧ e.value = item.value ∧
      (Honours now t e ↔ now < t ∧ t < now + 9223372037854000000) := by
  refine ⟨_, Function.update_self _ _ _, rfl, ?_⟩
  by_cases hfuture : now < t
  · have hd : 0 < sub t now := by unfold sub; omega
    rw [honours_of_expiry (expiryOf_of_pos now _ hd)]
    unfold sub
    split <;> omega
  · refine iff_of_false (fun h => ?_) fun h => hfuture h.1
    -- nothing that the client sends makes the key expire by now
    have hd : sub t now ≤ 0 := by unfold sub; omega
    rw [Honours, if_pos (by omega)] at h
    refine h (lt_expiryOf (fun x hx => ?_) hd)
    obtain ⟨e, he, hex⟩ := Option.bind_eq_some_iff.mp hx
    exact of_decide_eq_true (Option.filter_eq_some_iff.mp he).2 x hex

/-- **Expiry of redis.** After a `Set` that returns nil the key of an item with the timeout `t`, the last one with
the key, has the item's value, and `t` is honoured exactly if it is in the future and less than 292 years away. -/
theorem honours_set_iff {parse : Bytes → Option Int} {now : Int} {fails : Nat → Bool}
    {pre post : List (Option Item)} {item : Item} {s : Store} {t : Int} (hset : item.timeout ≠ [])
    (ht : parse item.timeout = some t) (hlast : ∀ other, some other ∈ post → other.key ≠ item.key)
    (hok : (set parse now fails (some (pre ++ some item :: post)) s).1 = none) :
    ∃ e, (set parse now fails (some (pre ++ some item :: post)) s).2 item.key = some e ∧ e.value = item.value ∧
      (Honours now t e ↔ now < t ∧ t < now + 9223372037854000000) := by
  obtain ⟨d, s', hd, heq⟩ := setLoop_last _ _ _ _ (put_of_ne now) hlast hok
  rw [expiration, if_neg hset, ht] at hd
  cases hd
  obtain ⟨e, he, hvalue, hiff⟩ := honours_put_iff now t item s'
  exact ⟨e, heq.trans he, hvalue, hiff⟩

end RoadRunner.Redis.Kv
