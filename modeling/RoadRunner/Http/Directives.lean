import RoadRunner.Basic
import RoadRunner.Lib.Decimal

/-!
# Cache-Control of a request

The model of `http/middleware/cache/directives`: the directives of a request, read from the value of its
`Cache-Control` header into a struct that may have been used before.

* `Req`: the struct, with `Req.directive` for one part of the value and `Req.parseRequestCacheControl` for all.

What is logged for a bad part is left out.
-/

namespace RoadRunner.Http.Cache

/-- `directives.Req`. -/
structure Req where
  maxAge : Option UInt64 := none
  maxStale : Option UInt64 := none
  minFresh : Option UInt64 := none
  noCache : Bool := false
  noStore : Bool := false
  noTransform : Bool := false
  onlyIfCached : Bool := false
  deriving DecidableEq

/-- `strings.Trim(s, " ")`. -/
def trim (s : Bytes) : Bytes := ((s.dropWhile (· = 32)).reverse.dropWhile (· = 32)).reverse

/-- `strconv.ParseUint(val, 10, 64)`. -/
def parseUint (val : Bytes) : Option UInt64 :=
  (Decimal.parse val).bind fun n => if n < 2 ^ 64 then some (UInt64.ofNat n) else none

namespace Req

/-- `Reset`. -/
def reset (_ : Req) : Req :=
  { maxAge := none, maxStale := none, minFresh := none
    noCache := false, noStore := false, noTransform := false, onlyIfCached := false }

/-- A directive with a value. One that is no number is skipped. -/
def value (r : Req) (token val : Bytes) : Req :=
  if val = [] ∨ token = [] then r
  else if token = ascii "max-age" then { r with maxAge := (parseUint val).or r.maxAge }
  else if token = ascii "max-stale" then { r with maxStale := (parseUint val).or r.maxStale }
  else if token = ascii "min-fresh" then { r with minFresh := (parseUint val).or r.minFresh }
  else r

/-- A directive without a value. -/
def token (r : Req) (token : Bytes) : Req :=
  if token = ascii "no-cache" then { r with noCache := true }
  else if token = ascii "no-store" then { r with noStore := true }
  else if token = ascii "no-transform" then { r with noTransform := true }
  else if token = ascii "only-if-cached" then { r with onlyIfCached := true }
  else r

/-- One part of the header. -/
def directive (r : Req) (part : Bytes) : Req :=
  if 61 ∈ part then
    r.value (trim (part.takeWhile (· ≠ 61))) (trim ((part.dropWhile (· ≠ 61)).drop 1))
  else r.token (trim part)

/-- `ParseRequestCacheControl`. -/
def parseRequestCacheControl (r : Req) (directives : Bytes) : Req :=
  (directives.splitOn 44).foldl directive r

end Req

/-! ## Flags -/

/-- The directives without a value. -/
inductive Flag where
  | noCache
  | noStore
  | noTransform
  | onlyIfCached
  deriving DecidableEq

namespace Flag

/-- The name of a flag. -/
def name : Flag → Bytes
  | noCache => ascii "no-cache"
  | noStore => ascii "no-store"
  | noTransform => ascii "no-transform"
  | onlyIfCached => ascii "only-if-cached"

theorem name_injective {f g : Flag} (h : f.name = g.name) : f = g := by
  revert f g
  have hall : ∀ f ∈ [noCache, noStore, noTransform, onlyIfCached],
      ∀ g ∈ [noCache, noStore, noTransform, onlyIfCached], f.name = g.name → f = g := by decide +kernel
  intro f g h
  exact hall f (by cases f <;> simp) g (by cases g <;> simp) h

end Flag

/-- The field of a flag. -/
def Req.flag (r : Req) : Flag → Bool
  | .noCache => r.noCache
  | .noStore => r.noStore
  | .noTransform => r.noTransform
  | .onlyIfCached => r.onlyIfCached

/-- The directive is the flag. -/
def Flag.Is (f : Flag) (part : Bytes) : Prop := 61 ∉ part ∧ trim part = f.name

instance (f : Flag) (part : Bytes) : Decidable (f.Is part) := inferInstanceAs (Decidable (_ ∧ _))

theorem Req.flag_value (r : Req) (token val : Bytes) (f : Flag) : (r.value token val).flag f = r.flag f := by
  unfold Req.value
  split
  · rfl
  split
  · cases f <;> rfl
  split
  · cases f <;> rfl
  split
  · cases f <;> rfl
  · rfl

theorem Req.flag_token (r : Req) (t : Bytes) (f : Flag) :
    (r.token t).flag f = (r.flag f || decide (t = f.name)) := by
  -- a token is the name of one flag, or of none
  by_cases hg : ∃ g : Flag, t = g.name
  · obtain ⟨g, rfl⟩ := hg
    have hset : ∀ g : Flag, (r.token g.name).flag f = (r.flag f || decide (g = f)) := by
      intro g
      cases g <;> cases f <;> simp [Req.token, Req.flag, Flag.name, ascii]
    rw [hset, decide_eq_decide.mpr ⟨fun h => congrArg Flag.name h, Flag.name_injective⟩]
  · have hne : ∀ g : Flag, t ≠ g.name := fun g h => hg ⟨g, h⟩
    have hnoCache : t ≠ ascii "no-cache" := hne .noCache
    have hnoStore : t ≠ ascii "no-store" := hne .noStore
    have hnoTransform : t ≠ ascii "no-transform" := hne .noTransform
    have honlyIfCached : t ≠ ascii "only-if-cached" := hne .onlyIfCached
    rw [decide_eq_false (hne f), Bool.or_false, Req.token, if_neg hnoCache, if_neg hnoStore, if_neg hnoTransform,
      if_neg honlyIfCached]

theorem Req.flag_directive (r : Req) (part : Bytes) (f : Flag) :
    (r.directive part).flag f = (r.flag f || decide (f.Is part)) := by
  unfold Req.directive Flag.Is
  split
  case isTrue h => simp [Req.flag_value, h]
  case isFalse h => simp [Req.flag_token, h]

/-- A flag is set exactly if it is one of the parts of the header, wherever that is and whatever else there is. -/
theorem Req.flag_parse (r : Req) (directives : Bytes) (f : Flag) :
    (r.parseRequestCacheControl directives).flag f = true ↔
      r.flag f = true ∨ ∃ part ∈ directives.splitOn 44, f.Is part := by
  have hfold : ∀ (parts : List Bytes) (r : Req),
      (parts.foldl Req.directive r).flag f = true ↔ r.flag f = true ∨ ∃ part ∈ parts, f.Is part := by
    intro parts
    induction parts with
    | nil => simp
    | cons part parts ih =>
      intro r
      rw [List.foldl_cons, ih, Req.flag_directive, Bool.or_eq_true, decide_eq_true_eq, List.exists_mem_cons_iff,
        or_assoc]
  exact hfold _ r

/-- `no-store` with spaces around it, after a directive with a value. -/
example : (Req.parseRequestCacheControl {} (ascii "max-age=10,  no-store ")).noStore = true := by decide +kernel

end RoadRunner.Http.Cache
