import RoadRunner.Redis.Kv
import RoadRunner.Memcached.Kv
import RoadRunner.Lib.Calendar

/-!
# Timeouts of the redis and memcached drivers

Both drivers turn the timeout of an item, an instant, into what their client takes: redis into the time that is
left, memcached into a Unix time of 32 bits. Either form has values with another meaning.

* `timeouts_honoured_iff`: for both drivers, which timeouts are honoured.
* `timeouts_not_honoured`: a timeout that is over makes a key of redis last for ever; for memcached a timeout after
  2038 is over at once, and one of January 1970 is relative or for ever.
-/

namespace RoadRunner.Kv

open Boltkv (Item)

/-- **Timeouts.** After a `Set` at `now` that returns nil, the key of an item with the timeout `t`, the last one
with the key, has its value. On redis `t` is honoured exactly if it is in the future and less than 292 years away;
on memcached exactly in the cases of `Memcached.Honoured`. -/
theorem timeouts_honoured_iff {parse : Bytes → Option Int} {pre post : List (Option Item)} {item : Item} {t : Int}
    (hset : item.timeout ≠ []) (ht : parse item.timeout = some t)
    (hlast : ∀ other, some other ∈ post → other.key ≠ item.key) (now : Int) (fails : Nat → Bool) (s : Store) :
    let items := some (pre ++ some item :: post)
    ((Redis.Kv.set parse now fails items s).1 = none →
        ∃ e, (Redis.Kv.set parse now fails items s).2 item.key = some e ∧ e.value = item.value ∧
          (Honours now t e ↔ now < t ∧ t < now + 9223372037854000000)) ∧
      ((Memcached.set parse now fails items s).1 = none →
        ∃ e, (Memcached.set parse now fails items s).2 item.key = some e ∧ e.value = item.value ∧
          (Honours now t e ↔ Memcached.Honoured now t)) := by
  intro items
  exact ⟨Redis.Kv.honours_set_iff hset ht hlast, Memcached.honours_set_iff hset ht hlast⟩

/-- `time.Parse(time.RFC3339, ·)` for texts in UTC without a fraction. -/
def parseUtc (b : Bytes) : Option Int :=
  if Calendar.rfc3339 (Calendar.unix b) = b then some (Calendar.unix b * 1000000000) else none

/-- A timeout in a minute is honoured by both. -/
theorem timeouts_honoured_in_a_minute :
    let now := 1640995140 * 1000000000
    let item : Item := ⟨ascii "a", ascii "1", ascii "2022-01-01T00:00:00Z"⟩
    let redis := Redis.Kv.set parseUtc now (fun _ => false) (some [some item]) fun _ => none
    let memcached := Memcached.set parseUtc now (fun _ => false) (some [some item]) fun _ => none
    (∃ e, redis.2 (ascii "a") = some e ∧ Honours now (1640995200 * 1000000000) e) ∧
      ∃ e, memcached.2 (ascii "a") = some e ∧ Honours now (1640995200 * 1000000000) e := by
  intro now item redis memcached
  have ht : parseUtc item.timeout = some (1640995200 * 1000000000) := by decide +kernel
  obtain ⟨hredis, hmemcached⟩ := @timeouts_honoured_iff parseUtc [] [] item _ (by decide) ht nofun now
    (fun _ => false) fun _ => none
  obtain ⟨e, he, -, hiff⟩ := hredis (by decide +kernel)
  obtain ⟨e', he', -, hiff'⟩ := hmemcached (by decide +kernel)
  exact ⟨⟨e, he, hiff.mpr (by decide)⟩, e', he', hiff'.mpr (by decide +kernel)⟩

/-- At the start of 2022: a key of redis whose timeout was a second ago never expires; a key of memcached is not
read although its timeout is in 2040, and one with the timeout 1970-01-01T00:00:00Z never expires. -/
theorem timeouts_not_honoured :
    let now := 1640995200 * 1000000000
    let item (timeout : String) : Item := ⟨ascii "a", ascii "1", ascii timeout⟩
    let redis := Redis.Kv.set parseUtc now (fun _ => false) (some [some (item "2021-12-31T23:59:59Z")]) fun _ => none
    let late := Memcached.set parseUtc now (fun _ => false) (some [some (item "2040-01-01T00:00:00Z")]) fun _ => none
    let epoch := Memcached.set parseUtc now (fun _ => false) (some [some (item "1970-01-01T00:00:00Z")]) fun _ => none
    redis.1 = none ∧ redis.2 (ascii "a") = some ⟨ascii "1", none⟩ ∧
      late.1 = none ∧ late.2 (ascii "a") = some ⟨ascii "1", some now⟩ ∧
      epoch.1 = none ∧ epoch.2 (ascii "a") = some ⟨ascii "1", none⟩ ∧
      ¬ Honours now (1640995199 * 1000000000) ⟨ascii "1", none⟩ ∧
      ¬ Honours now (2208988800 * 1000000000) ⟨ascii "1", some now⟩ ∧ ¬ Honours now 0 ⟨ascii "1", none⟩ := by
  intro now item redis late epoch
  refine ⟨by decide +kernel, by decide +kernel, by decide +kernel, by decide +kernel, by decide +kernel,
    by decide +kernel, not_honours_of_never rfl, ?_, not_honours_of_never rfl⟩
  rw [honours_of_expiry rfl]
  decide

end RoadRunner.Kv
