import RoadRunner.Http.Directives
import RoadRunner.Lib.Cut

/-!
# Writing and reading Cache-Control

What a client may write for the directives of a request, and what `ParseRequestCacheControl` makes of it.

* `Spells`: a directive as text, with any spaces around its name, `=` and its value.
* `Writes`: the directives in the order of the list, with unknown ones anywhere between them.
* `Renders`: a header for a value: its directives in any order.
* `parse_renders`: reading two headers is reading the first and then the second, and reading a header for a value
  gives the value.
-/

namespace RoadRunner.Http.Cache

/-- A directive. -/
inductive Directive where
  | maxAge (n : UInt64)
  | maxStale (n : UInt64)
  | minFresh (n : UInt64)
  | flag (f : Flag)
  deriving DecidableEq

namespace Directive

/-- The name of a directive. -/
def name : Directive → Bytes
  | maxAge _ => ascii "max-age"
  | maxStale _ => ascii "max-stale"
  | minFresh _ => ascii "min-fresh"
  | flag f => f.name

/-- The number that a directive carries. -/
def value? : Directive → Option UInt64
  | maxAge n | maxStale n | minFresh n => some n
  | flag _ => none

end Directive

/-- All flags. -/
def Flag.all : List Flag := [.noCache, .noStore, .noTransform, .onlyIfCached]

/-- The directives of a value. -/
def Req.directives (r : Req) : List Directive :=
  (r.maxAge.map .maxAge).toList ++ (r.maxStale.map .maxStale).toList ++ (r.minFresh.map .minFresh).toList ++
    (Flag.all.filter r.flag).map .flag

/-- The names of the directives. -/
def names : List Bytes := [ascii "max-age", ascii "max-stale", ascii "min-fresh"] ++ Flag.all.map Flag.name

/-- `n` spaces. -/
def spaces (n : Nat) : Bytes := List.replicate n 32

/-- The text is the directive. -/
inductive Spells (d : Directive) : Bytes → Prop where
  | flag (h : d.value? = none) (i j : Nat) : Spells d (spaces i ++ d.name ++ spaces j)
  | valued {n : UInt64} (h : d.value? = some n) (i j k l : Nat) :
    Spells d (spaces i ++ d.name ++ spaces j ++ 61 :: (spaces k ++ Decimal.digits n.toNat ++ spaces l))

/-- The text is one directive, and its name is none of the seven. -/
def Unknown (part : Bytes) : Prop := 44 ∉ part ∧ trim (part.takeWhile (· ≠ 61)) ∉ names

instance (part : Bytes) : Decidable (Unknown part) := inferInstanceAs (Decidable (_ ∧ _))

/-- The parts of a header with these directives, and unknown ones between them. -/
inductive Writes : List Directive → List Bytes → Prop where
  | nil : Writes [] []
  | directive {d : Directive} {ds : List Directive} {part : Bytes} {parts : List Bytes} (hd : Spells d part)
      (h : Writes ds parts) : Writes (d :: ds) (part :: parts)
  | unknown {ds : List Directive} {part : Bytes} {parts : List Bytes} (hu : Unknown part)
      (h : Writes ds parts) : Writes ds (part :: parts)

/-- The header has the directives of the value, in some order. -/
def Renders (r : Req) (header : Bytes) : Prop :=
  ∃ ds parts, ds.Perm r.directives ∧ Writes ds parts ∧ header = [44].intercalate parts

/-! ## Texts -/

theorem mem_spaces {n : Nat} {b : UInt8} (h : b ∈ spaces n) : b = 32 := List.eq_of_mem_replicate h

theorem dropWhile_spaces (n : Nat) (t : Bytes) :
    (spaces n ++ t).dropWhile (· = 32) = t.dropWhile (· = 32) :=
  List.dropWhile_append_of_pos fun b hb => by simp [mem_spaces hb]

/-- A text without spaces, with spaces around it. -/
theorem trim_spaces {t : Bytes} (ht : 32 ∉ t) (i j : Nat) : trim (spaces i ++ t ++ spaces j) = t := by
  have hself : ∀ u : Bytes, 32 ∉ u → u.dropWhile (· = 32) = u := by
    intro u hu
    cases u with
    | nil => rfl
    | cons b u => exact List.dropWhile_cons_of_neg (by simpa using fun h : b = 32 => hu (h ▸ List.mem_cons_self))
  have hleft : (t ++ spaces j).dropWhile (· = 32) = if t = [] then [] else t ++ spaces j := by
    cases t with
    | nil =>
      have := dropWhile_spaces j []
      simpa using this
    | cons b t => exact List.dropWhile_cons_of_neg (by simpa using fun h : b = 32 => ht (h ▸ List.mem_cons_self))
  rw [trim, List.append_assoc, dropWhile_spaces, hleft]
  split
  · rename_i hnil
    rw [hnil]
    rfl
  · have hrev : (t ++ spaces j).reverse = spaces j ++ t.reverse := by simp [spaces]
    rw [hrev, dropWhile_spaces, hself _ (by simpa using ht), List.reverse_reverse]

theorem mem_digits {n : Nat} {b : UInt8} (h : b ∈ Decimal.digits n) : 48 ≤ b.toNat ∧ b.toNat ≤ 57 := by
  have := List.all_eq_true.mp (Decimal.all_isDigit_digits n) b h
  simpa [Decimal.isDigit] using this

theorem parseUint_digits (n : UInt64) : parseUint (Decimal.digits n.toNat) = some n := by
  rw [parseUint, Decimal.parse_digits, Option.bind_some, if_pos n.toNat_lt]
  simp

/-- A name has no space, comma or `=`. -/
theorem Directive.name_plain (d : Directive) : 32 ∉ d.name ∧ 44 ∉ d.name ∧ 61 ∉ d.name := by
  cases d with
  | flag f => cases f <;> decide +kernel
  | _ => simp only [name]; decide +kernel

theorem not_mem_padded {b : UInt8} (hb : b ≠ 32) {t : Bytes} (ht : b ∉ t) (i j : Nat) :
    b ∉ spaces i ++ t ++ spaces j := by
  simp only [List.mem_append, not_or]
  exact ⟨⟨fun h => hb (mem_spaces h), ht⟩, fun h => hb (mem_spaces h)⟩

/-! ## One part -/

/-- What a directive does to a value. -/
def Req.set (r : Req) : Directive → Req
  | .maxAge n => { r with maxAge := some n }
  | .maxStale n => { r with maxStale := some n }
  | .minFresh n => { r with minFresh := some n }
  | .flag .noCache => { r with noCache := true }
  | .flag .noStore => { r with noStore := true }
  | .flag .noTransform => { r with noTransform := true }
  | .flag .onlyIfCached => { r with onlyIfCached := true }

theorem Req.token_name (r : Req) (f : Flag) : r.token f.name = r.set (.flag f) := by
  cases f <;> simp [Req.token, Req.set, Flag.name, ascii]

theorem Req.value_name (r : Req) {d : Directive} {n : UInt64} (h : d.value? = some n) :
    r.value d.name (Decimal.digits n.toNat) = r.set d := by
  have hne := Decimal.digits_ne_nil n.toNat
  cases d with
  | flag f => cases h
  | _ =>
    cases h
    simp [Req.value, Req.set, Directive.name, parseUint_digits, hne, ascii]

theorem directive_of_eq (r : Req) {left right : Bytes} (h : 61 ∉ left) :
    r.directive (left ++ 61 :: right) = r.value (trim left) (trim right) := by
  rw [Req.directive, if_pos (by simp), Cut.takeWhile_append h, Cut.dropWhile_append h]
  rfl

theorem Spells.directive {d : Directive} {part : Bytes} (h : Spells d part) (r : Req) :
    r.directive part = r.set d := by
  obtain ⟨hspace, -, heq⟩ := d.name_plain
  cases h with
  | flag h i j =>
    obtain ⟨f, rfl⟩ : ∃ f, d = .flag f := by
      cases d with
      | flag f => exact ⟨f, rfl⟩
      | _ => cases h
    rw [Req.directive, if_neg (not_mem_padded (by decide) heq i j), trim_spaces hspace]
    exact r.token_name f
  | @valued n h i j k l =>
    have hdigits : 32 ∉ Decimal.digits n.toNat := fun hb => absurd (mem_digits hb) (by decide)
    rw [directive_of_eq r (not_mem_padded (by decide) heq i j), trim_spaces hspace, trim_spaces hdigits]
    exact r.value_name h

theorem Unknown.directive {part : Bytes} (h : Unknown part) (r : Req) : r.directive part = r := by
  obtain ⟨-, hname⟩ := h
  have hnot : ∀ n ∈ names, trim (part.takeWhile (· ≠ 61)) ≠ n := fun n hn => (ne_of_mem_of_not_mem hn hname).symm
  simp only [names, Flag.all, List.map_cons, List.map_nil, List.cons_append, List.nil_append,
    List.forall_mem_cons, Flag.name] at hnot
  obtain ⟨hmaxAge, hmaxStale, hminFresh, hnoCache, hnoStore, hnoTransform, honlyIfCached, -⟩ := hnot
  by_cases heq : 61 ∈ part
  · rw [Req.directive, if_pos heq, Req.value, if_neg hmaxAge, if_neg hmaxStale, if_neg hminFresh, ite_self]
  · rw [Cut.takeWhile_of_not_mem heq] at hnoCache hnoStore hnoTransform honlyIfCached
    rw [Req.directive, if_neg heq, Req.token, if_neg hnoCache, if_neg hnoStore, if_neg hnoTransform,
      if_neg honlyIfCached]

theorem Spells.no_comma {d : Directive} {part : Bytes} (h : Spells d part) : 44 ∉ part := by
  obtain ⟨-, hcomma, -⟩ := d.name_plain
  cases h with
  | flag h i j => exact not_mem_padded (by decide) hcomma i j
  | @valued n h i j k l =>
    have hdigits : 44 ∉ Decimal.digits n.toNat := fun hb => absurd (mem_digits hb) (by decide)
    rw [List.mem_append, List.mem_cons, not_or, not_or]
    exact ⟨not_mem_padded (by decide) hcomma i j, by decide, not_mem_padded (by decide) hdigits k l⟩

/-! ## The header -/

theorem Writes.foldl {ds : List Directive} {parts : List Bytes} (h : Writes ds parts) (r : Req) :
    parts.foldl Req.directive r = ds.foldl Req.set r := by
  induction h generalizing r with
  | nil => rfl
  | directive hd _ ih => rw [List.foldl_cons, List.foldl_cons, hd.directive, ih]
  | unknown hu _ ih => rw [List.foldl_cons, hu.directive, ih]

theorem Writes.no_comma {ds : List Directive} {parts : List Bytes} (h : Writes ds parts) :
    ∀ part ∈ parts, 44 ∉ part := by
  induction h with
  | nil => nofun
  | directive hd _ ih => exact List.forall_mem_cons.mpr ⟨hd.no_comma, ih⟩
  | unknown hu _ ih => exact List.forall_mem_cons.mpr ⟨hu.1, ih⟩

/-- The order of the directives of a value makes no difference. -/
theorem Req.set_comm {r v : Req} {d e : Directive} (hd : d ∈ v.directives) (he : e ∈ v.directives) :
    (r.set d).set e = (r.set e).set d := by
  -- directives of the same name have the same value
  simp only [Req.directives, List.mem_append, Option.mem_toList, Option.map_eq_some_iff,
    List.mem_map] at hd he
  rcases hd with ((⟨n, hn, rfl⟩ | ⟨n, hn, rfl⟩) | ⟨n, hn, rfl⟩) | ⟨f, -, rfl⟩ <;>
    rcases he with ((⟨m, hm, rfl⟩ | ⟨m, hm, rfl⟩) | ⟨m, hm, rfl⟩) | ⟨g, -, rfl⟩ <;>
    first
    | rfl
    | (cases hn.symm.trans hm; rfl)
    | (cases f <;> rfl)
    | (cases g <;> rfl)
    | (cases f <;> cases g <;> rfl)

/-- The directives of a value, set one by one, give the value. -/
theorem Req.foldl_directives (v : Req) : v.directives.foldl Req.set {} = v := by
  obtain ⟨maxAge, maxStale, minFresh, noCache, noStore, noTransform, onlyIfCached⟩ := v
  cases maxAge <;> cases maxStale <;> cases minFresh <;> cases noCache <;> cases noStore <;> cases noTransform <;>
    cases onlyIfCached <;> rfl

theorem Writes.parse {ds : List Directive} {parts : List Bytes} (h : Writes ds parts) (r : Req) :
    r.parseRequestCacheControl ([44].intercalate parts) = ds.foldl Req.set r := by
  by_cases hnil : parts = []
  · subst hnil
    cases h
    rfl
  · rw [Req.parseRequestCacheControl, List.splitOn_intercalate 44 h.no_comma hnil, h.foldl]

/-- **Reading Cache-Control.** A header that is two headers with a comma between them is read as the first and
then the second; and for every value, every header with its directives is read as the value. -/
theorem parse_renders :
    (∀ (a b : Bytes) (r : Req), r.parseRequestCacheControl (a ++ ascii "," ++ b) =
        (r.parseRequestCacheControl a).parseRequestCacheControl b) ∧
      ∀ (v : Req) (header : Bytes), Renders v header → Req.parseRequestCacheControl {} header = v := by
  constructor
  · intro a b r
    have hsplit : (a ++ ascii "," ++ b).splitOn 44 = a.splitOn 44 ++ b.splitOn 44 := by
      rw [List.append_assoc]
      exact List.splitOnP_append_cons a b (by decide)
    rw [Req.parseRequestCacheControl, hsplit, List.foldl_append]
    rfl
  · rintro v header ⟨ds, parts, hperm, hwrites, rfl⟩
    have hcomm : ∀ d ∈ ds, ∀ e ∈ ds, ∀ r : Req, (r.set d).set e = (r.set e).set d :=
      fun d hd e he r => Req.set_comm (hperm.mem_iff.mp hd) (hperm.mem_iff.mp he)
    rw [hwrites.parse, hperm.foldl_eq' hcomm, Req.foldl_directives]

/-- A header with spaces, an unknown directive and the greatest value. -/
theorem parse_renders_spaced :
    let v : Req := { maxAge := some 18446744073709551615, noStore := true }
    Renders v (ascii "no-store,x=max-age , max-age =18446744073709551615 ") ∧
      Req.parseRequestCacheControl {} (ascii "no-store,x=max-age , max-age =18446744073709551615 ") = v := by
  intro v
  have h : Renders v (ascii "no-store,x=max-age , max-age =18446744073709551615 ") := by
    refine ⟨[.flag .noStore, .maxAge 18446744073709551615],
      [spaces 0 ++ ascii "no-store" ++ spaces 0, ascii "x=max-age ",
        spaces 1 ++ ascii "max-age" ++ spaces 1 ++ 61 :: (spaces 0 ++
          Decimal.digits (18446744073709551615 : UInt64).toNat ++ spaces 1)], ?_, ?_, ?_⟩
    · decide
    · exact .directive (.flag rfl 0 0) (.unknown (by decide +kernel) (.directive (.valued rfl 1 1 0 1) .nil))
    · decide +kernel
  exact ⟨h, parse_renders.2 v _ h⟩

end RoadRunner.Http.Cache
