import RoadRunner.Boltkv.Reads

/-!
# Timeouts after a restart

The timeouts of the boltdb driver are in the map `gc`, which is in memory. A driver that is opened on the file of an
earlier one has the bucket of that file and an empty map.

* `timeoutOf`: the timeout that a history of operations has last given a key: by the last `Set` that was committed, or
  by a later `MExpire`, also where some of the operations fail.
* `expires_after_restart_iff`: a tick of the new driver removes the keys whose timeout is over exactly if there are
  none.
-/

namespace RoadRunner.Boltkv

variable {V : Type} (env : Env V)

/-- `MExpire` takes the item. -/
def Accepts (item : Item) : Prop :=
  item.timeout ≠ [] ∧ env.blank item.key = false ∧ (env.parse item.timeout).isSome

instance (item : Item) : Decidable (Accepts env item) := inferInstanceAs (Decidable (_ ∧ _ ∧ _))

/-- The items that give their keys a timeout, or none. -/
def Op.gives : Op → List Item
  | .set items f => committed env (items, f)
  | .mExpire items => items.takeWhile (Accepts env ·)
  | .delete _ _ | .clear _ | .gc _ _ _ => []

/-- The timeout that a key was last given. -/
def timeoutOf (ops : List Op) : Bytes → Option Bytes := given (ops.flatMap (Op.gives env)) fun _ => none

/-- A driver on a file with this bucket, after some operations. -/
def life (bucket : Bucket Bytes V) (ops : List Op) : Driver V :=
  (Run.exec (step env) ⟨⟨bucket, .empty⟩, fun _ => none⟩ ops).driver

/-- `NewBoltDBDriver` on the file of another driver. -/
def reopen (d : Driver V) : Driver V := ⟨d.bucket, .empty⟩

/-- **Timeouts do not survive a restart.** After any operations, whatever failed in them, and after the driver is
opened anew: a tick at the time `now` removes every stored key whose timeout lies before `now`, exactly if no stored
key has such a timeout. -/
theorem expires_after_restart_iff (bucket : Bucket Bytes V) (ops : List Op) (now : Int) (fails : Bytes → Bool) :
    let d := reopen (life env bucket ops)
    (∀ order, order.Perm d.gc.keys → ∀ k ∈ d.bucket.keys, Over env now (timeoutOf env ops k) →
        k ∉ (d.gcPass env now fails order).bucket.keys) ↔
      ∀ k ∈ d.bucket.keys, ¬ Over env now (timeoutOf env ops k) := by
  intro d
  constructor
  · intro h k hk hover
    -- the map is empty, and so is the order
    exact h [] (.refl _) k hk hover hk
  · intro h order _ k hk hover
    exact absurd hover (h k hk)

/-- The timeout of a stored key is over, and a tick of the new driver leaves it in the file. A tick of the old driver
removes it. -/
theorem outlives_restart :
    let ops : List Op := [.set (some [⟨ascii "a", ascii "1", newYear⟩]) {}]
    let d := life newYearEnv .empty ops
    let now := 1640995200000000001
    Over newYearEnv now (timeoutOf newYearEnv ops (ascii "a")) ∧ (reopen d).gc.keys = [] ∧
      ((reopen d).gcPass newYearEnv now (fun _ => false) []).bucket.get (ascii "a") = some (ascii "1") ∧
      d.gc.keys = [ascii "a"] ∧
      (d.gcPass newYearEnv now (fun _ => false) [ascii "a"]).bucket.get (ascii "a") = none := by
  refine ⟨⟨1640995200000000000, by decide +kernel, by decide⟩, ?_⟩
  decide +kernel

end RoadRunner.Boltkv
