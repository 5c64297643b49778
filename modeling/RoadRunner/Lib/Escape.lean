import RoadRunner.Lib.Cut

/-!
# Percent escapes

Texts in which a byte may be written as `%` and two hexadecimal digits. `escape` writes them, with a choice of the
bytes that are kept as they are, and `unescape` reads them.

* `unescape_escape`: reading inverts writing.
* `escape_eq_self_iff`: which texts are left as they are.
* `unescape_splitOn`: reading a text with separators is reading its parts.
-/

namespace Escape

/-- A hexadecimal digit; the letters start at `letter`. -/
def hexDigit (letter : UInt8) (n : Nat) : UInt8 :=
  if n < 10 then UInt8.ofNat (48 + n) else letter + UInt8.ofNat (n - 10)

/-- `unhex` of `net/url`. -/
def unhex (b : UInt8) : Option Nat :=
  if 48 ≤ b ∧ b ≤ 57 then some (b.toNat - 48)
  else if 65 ≤ b ∧ b ≤ 70 then some (b.toNat - 55)
  else if 97 ≤ b ∧ b ≤ 102 then some (b.toNat - 87)
  else none

/-- A byte as an escape. -/
def escapeByte (letter b : UInt8) : List UInt8 := [37, hexDigit letter (b.toNat / 16), hexDigit letter (b.toNat % 16)]

/-- Escape all bytes that are not kept. -/
def escape (letter : UInt8) (keep : UInt8 → Bool) (s : List UInt8) : List UInt8 :=
  s.flatMap fun b => if keep b then [b] else escapeByte letter b

/-- A `%` without two digits is an error. -/
def unescape : List UInt8 → Option (List UInt8)
  | [] => some []
  | b :: s =>
    if b = 37 then
      match s with
      | x :: y :: rest =>
        (unhex x).bind fun hi => (unhex y).bind fun lo => (unescape rest).map (UInt8.ofNat (16 * hi + lo) :: ·)
      | _ => none
    else (unescape s).map (b :: ·)

/-- The letters of the digits are those of `A` or of `a`. -/
def IsLetter (letter : UInt8) : Prop := letter = 65 ∨ letter = 97

theorem unhex_hexDigit {letter : UInt8} (h : IsLetter letter) : ∀ n < 16, unhex (hexDigit letter n) = some n := by
  rcases h with rfl | rfl <;> decide

theorem unescape_percent (x y : UInt8) (s : List UInt8) :
    unescape (37 :: x :: y :: s) =
      (unhex x).bind fun hi => (unhex y).bind fun lo => (unescape s).map (UInt8.ofNat (16 * hi + lo) :: ·) := by
  rw [unescape, if_pos rfl]

theorem unescape_escapeByte {letter : UInt8} (h : IsLetter letter) (b : UInt8) (s : List UInt8) :
    unescape (escapeByte letter b ++ s) = (unescape s).map (b :: ·) := by
  have hb := b.toNat_lt
  have hbyte : UInt8.ofNat (16 * (b.toNat / 16) + b.toNat % 16) = b := by
    rw [Nat.div_add_mod, UInt8.ofNat_toNat]
  show unescape (37 :: hexDigit letter (b.toNat / 16) :: hexDigit letter (b.toNat % 16) :: s) = _
  rw [unescape_percent, unhex_hexDigit h _ (by omega), unhex_hexDigit h _ (by omega), Option.bind_some,
    Option.bind_some, hbyte]

theorem unescape_cons {b : UInt8} (h : b ≠ 37) (s : List UInt8) : unescape (b :: s) = (unescape s).map (b :: ·) := by
  rw [unescape.eq_def]
  exact if_neg h

theorem eq_nil_of_unescape {s : List UInt8} (h : unescape s = some []) : s = [] := by
  cases s using unescape.fun_cases with
  | case1 => rfl
  | case2 x y rest =>
    rw [unescape_percent] at h
    obtain ⟨hi, -, h⟩ := Option.bind_eq_some_iff.mp h
    obtain ⟨lo, -, h⟩ := Option.bind_eq_some_iff.mp h
    obtain ⟨t, -, h⟩ := Option.map_eq_some_iff.mp h
    cases h
  | case3 s hs =>
    match s, hs with
    | [], _ => cases h
    | [x], _ => cases h
    | x :: y :: rest, hs => exact absurd rfl (hs x y rest)
  | case4 b s hb =>
    rw [unescape_cons hb] at h
    obtain ⟨t, -, h⟩ := Option.map_eq_some_iff.mp h
    cases h

section

variable {letter : UInt8} {keep : UInt8 → Bool}

theorem escape_cons (b : UInt8) (s : List UInt8) :
    escape letter keep (b :: s) = (if keep b then [b] else escapeByte letter b) ++ escape letter keep s :=
  List.flatMap_cons

theorem escape_append (s t : List UInt8) :
    escape letter keep (s ++ t) = escape letter keep s ++ escape letter keep t :=
  List.flatMap_append

/-- Reading inverts writing, if `%` is not kept. -/
theorem unescape_escape (h : IsLetter letter) (hkeep : keep 37 = false) (s : List UInt8) :
    unescape (escape letter keep s) = some s := by
  induction s with
  | nil => rfl
  | cons b s ih =>
    rw [escape_cons]
    by_cases hb : keep b = true
    · have hne : b ≠ 37 := by
        rintro rfl
        rw [hkeep] at hb
        cases hb
      rw [if_pos hb, List.singleton_append, unescape_cons hne, ih]
      rfl
    · rw [if_neg hb, unescape_escapeByte h, ih]
      rfl

theorem escape_eq_self {s : List UInt8} (h : ∀ b ∈ s, keep b = true) : escape letter keep s = s := by
  induction s with
  | nil => rfl
  | cons b s ih =>
    rw [List.forall_mem_cons] at h
    rw [escape_cons, if_pos h.1, ih h.2]
    rfl

theorem length_le_length_escape (s : List UInt8) : s.length ≤ (escape letter keep s).length := by
  induction s with
  | nil => exact Nat.le_refl 0
  | cons b s ih =>
    rw [escape_cons, List.length_append, List.length_cons]
    split
    · rw [List.length_singleton]
      omega
    · rw [escapeByte, List.length_cons]
      omega

theorem escape_ne_nil {s : List UInt8} (h : s ≠ []) : escape letter keep s ≠ [] := by
  intro hnil
  have hlen : s.length ≤ (escape letter keep s).length := length_le_length_escape s
  rw [hnil] at hlen
  exact h (List.length_eq_zero_iff.mp (Nat.le_zero.mp hlen))

/-- An escape makes a text longer. -/
theorem escape_eq_self_iff {s : List UInt8} : escape letter keep s = s ↔ ∀ b ∈ s, keep b = true := by
  refine ⟨?_, escape_eq_self⟩
  intro h
  by_contra hnot
  obtain ⟨b, hb, hkeep⟩ : ∃ b ∈ s, ¬ keep b = true := by simpa using hnot
  obtain ⟨l, r, rfl⟩ := List.append_of_mem hb
  have hlen := congrArg List.length h
  rw [escape_append, escape_cons, if_neg hkeep] at hlen
  have hl : l.length ≤ (escape letter keep l).length := length_le_length_escape l
  have hr : r.length ≤ (escape letter keep r).length := length_le_length_escape r
  simp only [List.length_append, List.length_cons, escapeByte] at hlen
  omega

/-- Every byte of an escaped text was kept, or is a `%` or a digit of an escape. -/
theorem mem_escape {s : List UInt8} {c : UInt8} (h : c ∈ escape letter keep s) :
    (c ∈ s ∧ keep c = true) ∨ c = 37 ∨ ∃ n < 16, c = hexDigit letter n := by
  obtain ⟨b, hb, hc⟩ := List.mem_flatMap.mp h
  have hlt := b.toNat_lt
  split at hc
  case isTrue hkeep =>
    obtain rfl := List.mem_singleton.mp hc
    exact .inl ⟨hb, hkeep⟩
  case isFalse =>
    simp only [escapeByte, List.mem_cons, List.not_mem_nil, or_false] at hc
    rcases hc with rfl | rfl | rfl
    · exact .inr (.inl rfl)
    · exact .inr (.inr ⟨_, by omega, rfl⟩)
    · exact .inr (.inr ⟨_, by omega, rfl⟩)

end

/-! ## Separators -/

/-- Neither a `%` nor a digit. -/
structure IsSeparator (sep : UInt8) : Prop where
  ne_percent : sep ≠ 37
  unhex : unhex sep = none

theorem IsSeparator.ne_hexDigit {sep letter : UInt8} (h : IsSeparator sep) (hletter : IsLetter letter) {n : Nat}
    (hn : n < 16) : sep ≠ hexDigit letter n := by
  rintro rfl
  have := h.unhex
  rw [unhex_hexDigit hletter n hn] at this
  cases this

theorem IsSeparator.not_mem_escape {sep letter : UInt8} {keep : UInt8 → Bool} (h : IsSeparator sep)
    (hletter : IsLetter letter) {s : List UInt8} (hs : sep ∉ s) : sep ∉ escape letter keep s := by
  intro hmem
  rcases mem_escape hmem with ⟨hin, -⟩ | hpercent | ⟨n, hn, hdigit⟩
  · exact hs hin
  · exact h.ne_percent hpercent
  · exact h.ne_hexDigit hletter hn hdigit

/-- The parts of a text are escaped one by one, if the separator is kept. -/
theorem escape_splitOn {sep letter : UInt8} {keep : UInt8 → Bool} (h : IsSeparator sep) (hletter : IsLetter letter)
    (hkeep : keep sep = true) (s : List UInt8) :
    (escape letter keep s).splitOn sep = (s.splitOn sep).map (escape letter keep) := by
  induction s using Cut.induction sep with
  | last s hs =>
    rw [List.splitOn_eq_singleton hs, List.splitOn_eq_singleton (h.not_mem_escape hletter hs)]
    rfl
  | cut l r hl ih =>
    rw [escape_append, escape_cons, if_pos hkeep, List.singleton_append,
      List.splitOn_append_cons_self_of_not_mem hl,
      List.splitOn_append_cons_self_of_not_mem (h.not_mem_escape hletter hl), ih]
    rfl

/-- A separator is not in the middle of an escape. -/
theorem unescape_append_cons {sep : UInt8} (h : IsSeparator sep) (l r : List UInt8) :
    unescape (l ++ sep :: r) = (unescape l).bind fun a => (unescape r).map fun b => a ++ sep :: b := by
  induction l using unescape.induct with
  | case1 =>
    rw [List.nil_append, unescape_cons h.ne_percent]
    rfl
  | case2 x y rest ih =>
    rw [List.cons_append, List.cons_append, List.cons_append, unescape_percent, unescape_percent, ih]
    cases unhex x with
    | none => rfl
    | some hi =>
      cases unhex y with
      | none => rfl
      | some lo =>
        cases unescape rest with
        | none => rfl
        | some a => cases unescape r <;> rfl
  | case3 s hs =>
    -- the escape is cut short, and the separator does not complete it
    match s, hs with
    | [], _ =>
      cases r with
      | nil => rfl
      | cons y r =>
        rw [List.singleton_append, unescape_percent, h.unhex]
        rfl
    | [x], _ =>
      rw [List.cons_append, List.singleton_append, unescape_percent, h.unhex]
      cases unhex x <;> rfl
    | x :: y :: rest, hs => exact absurd rfl (hs x y rest)
  | case4 b s hb ih =>
    rw [List.cons_append, unescape_cons hb, unescape_cons hb, ih]
    cases unescape s with
    | none => rfl
    | some a => cases unescape r <;> rfl

/-- A text with separators is read by its parts. -/
theorem unescape_splitOn {sep : UInt8} (h : IsSeparator sep) {s t : List UInt8} (hs : unescape s = some t) :
    ∃ parts, (s.splitOn sep).map unescape = parts.map some ∧ t = [sep].intercalate parts := by
  induction s using Cut.induction sep generalizing t with
  | last s hmem =>
    refine ⟨[t], ?_, ?_⟩
    · rw [List.splitOn_eq_singleton hmem, List.map_singleton, hs]
      rfl
    · simp
  | cut l r hl ih =>
    rw [unescape_append_cons h] at hs
    obtain ⟨a, ha, hrest⟩ := Option.bind_eq_some_iff.mp hs
    obtain ⟨b, hb, rfl⟩ := Option.map_eq_some_iff.mp hrest
    obtain ⟨parts, hparts, rfl⟩ := ih hb
    refine ⟨a :: parts, ?_, ?_⟩
    · rw [List.splitOn_append_cons_self_of_not_mem hl, List.map_cons, List.map_cons, ha, hparts]
    · cases parts with
      | nil => exact absurd (List.map_eq_nil_iff.mp hparts) (List.splitOn_ne_nil sep r)
      | cons p parts => rw [List.intercalate_cons_cons, List.append_assoc, List.singleton_append]

/-- A text and what is read from it have the same parts, unless a separator was written as an escape. -/
theorem splitOn_eq_iff {sep : UInt8} (h : IsSeparator sep) {s t : List UInt8} (hs : unescape s = some t) :
    (t.splitOn sep).map some = (s.splitOn sep).map unescape ↔
      ∀ part ∈ s.splitOn sep, ∀ u, unescape part = some u → sep ∉ u := by
  constructor
  · intro heq part hpart u hu
    have hmem : some u ∈ (t.splitOn sep).map some := by
      rw [heq, ← hu]
      exact List.mem_map_of_mem hpart
    obtain ⟨u', hu', heq⟩ := List.mem_map.mp hmem
    obtain rfl := Option.some.inj heq
    exact Cut.not_mem_of_mem_splitOn hu'
  · intro hparts
    obtain ⟨parts, hmap, rfl⟩ := unescape_splitOn h hs
    have hne : parts ≠ [] := by
      rintro rfl
      exact List.splitOn_ne_nil sep s (List.map_eq_nil_iff.mp hmap)
    rw [List.splitOn_intercalate sep ?_ hne, hmap]
    intro u hu
    have hmem : some u ∈ (s.splitOn sep).map unescape := by
      rw [hmap]
      exact List.mem_map_of_mem hu
    obtain ⟨part, hpart, heq⟩ := List.mem_map.mp hmem
    exact hparts part hpart u heq

end Escape
