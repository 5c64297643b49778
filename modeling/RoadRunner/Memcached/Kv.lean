import RoadRunner.Kv.Store

/-!
# The key-value driver for memcached

The model of `Set` of `memcached/memcachedkv/driver.go`, and of what the server makes of an expiration.

* `expiryOf`: 0 is never, a negative number is over, one up to 30 days is relative, another one is a Unix time.
-/

namespace RoadRunner.Memcached

open Boltkv (Item)
open RoadRunner.Kv

/-- `int32(t.Unix())`. -/
def unix32 (t : Int) : Int32 := Int32.ofInt (t / 1000000000)

/-- The expiration of an item; `parse` is `time.Parse(time.RFC3339, ·)`. -/
def expiration (parse : Bytes → Option Int) (item : Item) : Except Err Int32 :=
  if item.timeout = [] then .ok 0
  else
    match parse item.timeout with
    | none => .error (.lib "Parse")
    | some t => .ok (unix32 t)

/-- Seconds in 30 days: the longest relative expiration. -/
def relativeMax : Int := 2592000

/-- The expiry that the server sets at the time `now`. -/
def expiryOf (now : Int) (exptime : Int32) : Option Int :=
  if exptime.toInt = 0 then none
  else if exptime.toInt < 0 then some now
  else if exptime.toInt ≤ relativeMax then some (now + exptime.toInt * 1000000000)
  else some (exptime.toInt * 1000000000)

/-- The command `set` of the server. -/
def put (now : Int) (exptime : Int32) (item : Item) (s : Store) : Store :=
  Function.update s item.key (some ⟨item.value, expiryOf now exptime⟩)

/-- `Set`; `none` is a nil slice. -/
def set (parse : Bytes → Option Int) (now : Int) (fails : Nat → Bool) (items : Option (List (Option Item)))
    (s : Store) : Option Err × Store :=
  match items with
  | none => (some (.op "memcached_plugin_set" (.lib "errors.NoKeys")), s)
  | some items =>
    setLoop (.op "memcached_plugin_set" (.lib "errors.EmptyItem")) (expiration parse) (put now) fails 0 items s

/-- The timeouts that are honoured at `now`, with the Unix time `v` that is left of them in 32 bits: one that is
over, if `v` is negative or a Unix time that is over too; one in the future, if `v` is its Unix time and large
enough not to be relative, or if now or the relative time happens to be less than a second off. -/
def Honoured (now t : Int) : Prop :=
  let v := (unix32 t).toInt
  (t ≤ now ∧ (v < 0 ∨ relativeMax < v ∧ v * 1000000000 ≤ now)) ∨
    (now < t ∧ (relativeMax < v ∧ v = t / 1000000000 ∨ v < 0 ∧ t < now + 1000000000 ∨
      0 < v ∧ v ≤ relativeMax ∧ now + v * 1000000000 < t + 1000000000 ∧ t < now + v * 1000000000 + 1000000000))

instance (now t : Int) : Decidable (Honoured now t) := inferInstanceAs (Decidable (_ ∨ _))

theorem put_of_ne (now : Int) (exptime : Int32) (item : Item) (s : Store) (k : Bytes) (hk : k ≠ item.key) :
    put now exptime item s k = s k := Function.update_of_ne hk _ _

/-- What is left of a Unix time in 32 bits differs from it by a multiple of 2^32. -/
theorem unix32_spec (t : Int) :
    (unix32 t).toInt % 4294967296 = t / 1000000000 % 4294967296 ∧
      -2147483648 ≤ (unix32 t).toInt ∧ (unix32 t).toInt < 2147483648 := by
  refine ⟨?_, Int32.le_toInt _, Int32.toInt_lt _⟩
  rw [unix32, Int32.toInt_ofInt]
  exact Int.bmod_emod

/-- It is less than a second from the timeout only if nothing was cut off. -/
theorem unix32_near (t : Int) :
    (unix32 t).toInt * 1000000000 < t + 1000000000 ∧ t < (unix32 t).toInt * 1000000000 + 1000000000 ↔
      (unix32 t).toInt = t / 1000000000 := by
  obtain ⟨hv, -, -⟩ := unix32_spec t
  constructor
  · rintro ⟨hlo, hhi⟩
    have hclose : (unix32 t).toInt = t / 1000000000 ∨ (unix32 t).toInt = t / 1000000000 + 1 := by omega
    omega
  · intro heq
    omega

theorem honours_put_iff (now t : Int) (item : Item) (s : Store) :
    ∃ e, put now (unix32 t) item s item.key = some e ∧ e.value = item.value ∧
      (Honours now t e ↔ Honoured now t) := by
  refine ⟨_, Function.update_self _ _ _, rfl, ?_⟩
  have hnear := unix32_near t
  unfold Honoured expiryOf relativeMax
  generalize (unix32 t).toInt = v at *
  dsimp only
  by_cases hzero : v = 0
  · rw [if_pos hzero]
    exact iff_of_false (not_honours_of_never rfl) (by omega)
  rw [if_neg hzero]
  by_cases hneg : v < 0
  · -- over at once
    rw [if_pos hneg, honours_of_expiry rfl]
    omega
  rw [if_neg hneg]
  by_cases hrelative : v ≤ 2592000
  · rw [if_pos hrelative, honours_of_expiry rfl]
    omega
  · rw [if_neg hrelative, honours_of_expiry rfl, hnear]
    omega

/-- **Expiry of memcached.** After a `Set` that returns nil the key of an item with the timeout `t`, the last one
with the key, has the item's value, and `t` is honoured exactly in the cases of `Honoured`. -/
theorem honours_set_iff {parse : Bytes → Option Int} {now : Int} {fails : Nat → Bool}
    {pre post : List (Option Item)} {item : Item} {s : Store} {t : Int} (hset : item.timeout ≠ [])
    (ht : parse item.timeout = some t) (hlast : ∀ other, some other ∈ post → other.key ≠ item.key)
    (hok : (set parse now fails (some (pre ++ some item :: post)) s).1 = none) :
    ∃ e, (set parse now fails (some (pre ++ some item :: post)) s).2 item.key = some e ∧ e.value = item.value ∧
      (Honours now t e ↔ Honoured now t) := by
  obtain ⟨exptime, s', hexp, heq⟩ := setLoop_last _ _ _ _ (put_of_ne now) hlast hok
  rw [expiration, if_neg hset, ht] at hexp
  cases hexp
  obtain ⟨e, he, hvalue, hiff⟩ := honours_put_iff now t item s'
  exact ⟨e, heq.trans he, hvalue, hiff⟩

end RoadRunner.Memcached
