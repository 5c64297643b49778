import Mathlib

/-!
# Names of the PHP generator (`protoc-gen-php-grpc/php/keywords.go`)

The names of messages, packages and services are written in camel case, and the name of a class that is a keyword of
PHP gets letters in front of it. A string is the list of its runes. Of the tables of the package `unicode` only what
they have for ASCII is fixed.

* `camelize`: the loop with its words. `camelize_eq`: what it writes, rune by rune.
* `camelize_normal`: camel case is a normal form of ASCII texts.
* `Reserved`: a keyword, where case does not count. `not_reserved_resolveReserved`: what has got letters is none.
-/

namespace RoadRunner.Grpc.Php

/-- A text, as its runes. -/
abbrev Text := List Char

/-- The functions of the package `unicode`. -/
structure Unicode where
  isUpper : Char → Bool
  toUpper : Char → Char
  toLower : Char → Char
  isUpper_ascii : ∀ c : Char, c.toNat < 128 → isUpper c = c.isUpper
  toUpper_ascii : ∀ c : Char, c.toNat < 128 → toUpper c = c.toUpper
  toLower_ascii : ∀ c : Char, c.toNat < 128 → toLower c = c.toLower

/-- The functions that change ASCII only. -/
def Unicode.ascii : Unicode :=
  ⟨Char.isUpper, Char.toUpper, Char.toLower, fun _ _ => rfl, fun _ _ => rfl, fun _ _ => rfl⟩

/-! ## Camel case -/

/-- `isSpacerChar`. -/
def isSpacerChar (c : Char) : Bool := c = '_' || c = ' ' || c = ':' || c = '-'

/-- The words so far, and the current one. -/
structure Words where
  words : List Text := []
  word : Text := []

/-- The end of a word. -/
def Words.flush (s : Words) : Words := if s.word ≠ [] then ⟨s.words ++ [s.word], []⟩ else s

/-- A rune in the loop of `splitAtCaseChangeWithTitlecase`. -/
def Words.step (u : Unicode) (s : Words) (c : Char) : Words :=
  let spacer := isSpacerChar c
  let s := if u.isUpper c || spacer then s.flush else s
  if spacer then s
  else if s.word ≠ [] then { s with word := s.word ++ [u.toLower c] }
  else { s with word := s.word ++ [u.toUpper c] }

/-- `splitAtCaseChangeWithTitlecase`. -/
def splitAtCaseChangeWithTitlecase (u : Unicode) (s : Text) : List Text :=
  let out := s.foldl (Words.step u) {}
  out.words ++ [out.word]

/-- `Camelize`. -/
def camelize (u : Unicode) (word : Text) : Text := (splitAtCaseChangeWithTitlecase u word).flatten

/-- What is written for a text, if the current word is empty or not. -/
def cased (u : Unicode) : Bool → Text → Text
  | _, [] => []
  | start, c :: s =>
    if isSpacerChar c then cased u true s
    else (if start || u.isUpper c then u.toUpper c else u.toLower c) :: cased u false s

/-- The runes of all words. -/
def Words.written (s : Words) : Text := s.words.flatten ++ s.word

theorem Words.written_flush (s : Words) : s.flush.written = s.written ∧ s.flush.word = [] := by
  unfold Words.flush
  split
  · simp [Words.written]
  case isFalse h => exact ⟨rfl, not_ne_iff.mp h⟩

theorem written_step_spacer (u : Unicode) (s : Words) {c : Char} (hc : isSpacerChar c = true) :
    (s.step u c).written = s.written ∧ (s.step u c).word = [] := by
  have hstep : s.step u c = s.flush := by simp [Words.step, hc]
  rw [hstep]
  exact s.written_flush

theorem written_step (u : Unicode) (s : Words) {c : Char} (hc : isSpacerChar c = false) :
    (s.step u c).written = s.written ++ [if s.word = [] ∨ u.isUpper c then u.toUpper c else u.toLower c] ∧
      (s.step u c).word ≠ [] := by
  by_cases hupper : u.isUpper c = true
  · -- the rune starts a word
    obtain ⟨hwritten, hword⟩ := s.written_flush
    have hstep : s.step u c = { s.flush with word := s.flush.word ++ [u.toUpper c] } := by
      simp [Words.step, hc, hupper, hword]
    rw [hstep, ← hwritten]
    simp [Words.written, hupper]
  · by_cases hword : s.word = []
    · have hstep : s.step u c = { s with word := s.word ++ [u.toUpper c] } := by
        simp [Words.step, hc, hupper, hword]
      rw [hstep]
      simp [Words.written, hword]
    · have hstep : s.step u c = { s with word := s.word ++ [u.toLower c] } := by
        simp [Words.step, hc, hupper, hword]
      rw [hstep]
      simp [Words.written, hword, hupper]

theorem written_foldl (u : Unicode) (text : Text) (s : Words) :
    (text.foldl (Words.step u) s).written = s.written ++ cased u (s.word = []) text := by
  induction text generalizing s with
  | nil => exact (List.append_nil _).symm
  | cons c text ih =>
    rw [List.foldl_cons, ih, cased]
    cases hc : isSpacerChar c with
    | true =>
      obtain ⟨hwritten, hword⟩ := written_step_spacer u s hc
      rw [hwritten, hword]
      simp
    | false =>
      obtain ⟨hwritten, hword⟩ := written_step u s hc
      rw [hwritten, List.append_assoc]
      simp [hword]

/-- Camel case, rune by rune. -/
theorem camelize_eq (u : Unicode) (s : Text) : camelize u s = cased u true s := by
  have h := written_foldl u s {}
  rw [camelize, splitAtCaseChangeWithTitlecase, List.flatten_append, List.flatten_singleton]
  exact h

/-! ### ASCII -/

theorem cased_of_ascii (u : Unicode) {s : Text} (h : ∀ c ∈ s, c.toNat < 128) (start : Bool) :
    cased u start s = cased .ascii start s := by
  induction s generalizing start with
  | nil => rfl
  | cons c s ih =>
    rw [List.forall_mem_cons] at h
    rw [cased, cased, ih h.2, ih h.2, u.isUpper_ascii c h.1, u.toUpper_ascii c h.1, u.toLower_ascii c h.1]
    rfl

theorem not_isSpacerChar_of_isAlpha {c : Char} (h : c.isAlpha = true) : isSpacerChar c = false := by
  rw [Bool.eq_false_iff]
  intro hc
  simp only [isSpacerChar, Bool.or_eq_true, decide_eq_true_eq] at hc
  rcases hc with ((rfl | rfl) | rfl) | rfl <;> exact absurd h (by decide)

theorem isSpacerChar_toUpper (c : Char) : isSpacerChar c.toUpper = isSpacerChar c := by
  cases h : c.isAlpha with
  | true => rw [not_isSpacerChar_of_isAlpha h, not_isSpacerChar_of_isAlpha (by simpa using h)]
  | false => rw [Char.toUpper_eq_of_not_isLower fun hlower => by simp [Char.isAlpha, hlower] at h]

theorem isSpacerChar_toLower (c : Char) : isSpacerChar c.toLower = isSpacerChar c := by
  cases h : c.isAlpha with
  | true => rw [not_isSpacerChar_of_isAlpha h, not_isSpacerChar_of_isAlpha (by simpa using h)]
  | false => rw [Char.toLower_eq_of_not_isUpper fun hupper => by simp [Char.isAlpha, hupper] at h]

theorem toNat_toUpper_lt {c : Char} (h : c.toNat < 128) : c.toUpper.toNat < 128 := by
  by_cases hc : c.isLower = true
  · rw [Char.toUpper_eq_of_isLower hc, Char.toNat_ofNat]
    split <;> omega
  · rwa [Char.toUpper_eq_of_not_isLower hc]

theorem toNat_toLower_lt {c : Char} (h : c.toNat < 128) : c.toLower.toNat < 128 := by
  by_cases hc : c.isUpper = true
  · have hle : c.toNat ≤ 90 := by
      simp only [Char.isUpper, decide_eq_true_eq, UInt32.le_iff_toNat_le] at hc
      exact hc.2
    rw [Char.toLower_eq_of_isUpper hc, Char.toNat_ofNat]
    split <;> omega
  · rwa [Char.toLower_eq_of_not_isUpper hc]

theorem forall_cased {P : Char → Prop} (u : Unicode) {s : Text}
    (h : ∀ c ∈ s, isSpacerChar c = false → P (u.toUpper c) ∧ P (u.toLower c)) (start : Bool) :
    ∀ c ∈ cased u start s, P c := by
  induction s generalizing start with
  | nil => exact List.forall_mem_nil _
  | cons c s ih =>
    rw [List.forall_mem_cons] at h
    rw [cased]
    cases hc : isSpacerChar c with
    | true => exact ih h.2 true
    | false =>
      refine List.forall_mem_cons.mpr ⟨?_, ih h.2 false⟩
      split
      · exact (h.1 hc).1
      · exact (h.1 hc).2

/-- The letters are those of the text, in another case. -/
theorem map_toLower_cased (s : Text) (start : Bool) :
    (cased .ascii start s).map Char.toLower = (s.filter (!isSpacerChar ·)).map Char.toLower := by
  induction s generalizing start with
  | nil => rfl
  | cons c s ih =>
    rw [cased, List.filter_cons]
    cases hc : isSpacerChar c with
    | true => exact ih true
    | false =>
      have hlower : (if start || Char.isUpper c then c.toUpper else c.toLower).toLower = c.toLower := by
        split
        · exact Char.toLower_toUpper_eq_toLower c
        · exact Char.toLower_toLower_eq_toLower c
      exact congrArg₂ List.cons hlower (ih false)

/-- A rune that was written is written again as it is, if no word starts there that did not start there before. -/
theorem cased_rune {start again : Bool} (h : again = true → start = true) (c : Char) :
    let d := if start || Char.isUpper c then c.toUpper else c.toLower
    (if again || Char.isUpper d then d.toUpper else d.toLower) = d := by
  intro d
  by_cases hfirst : (start || Char.isUpper c) = true
  · have hd : d = c.toUpper := if_pos hfirst
    rw [hd]
    split
    · exact Char.toUpper_toUpper_eq_toUpper c
    case isFalse hnot =>
      rw [Bool.or_eq_true, not_or] at hnot
      exact Char.toLower_eq_of_not_isUpper hnot.2
  · have hd : d = c.toLower := if_neg hfirst
    rw [Bool.or_eq_true, not_or] at hfirst
    have hagain : again = false := Bool.eq_false_iff.mpr fun htrue => hfirst.1 (h htrue)
    rw [hd, hagain, Char.isUpper_toLower_eq_false, Bool.or_false, if_neg Bool.false_ne_true]
    exact Char.toLower_toLower_eq_toLower c

/-- A second pass may join words, since a word can start with a digit, but it starts none. -/
theorem cased_cased (s : Text) {start again : Bool} (h : again = true → start = true) :
    cased .ascii again (cased .ascii start s) = cased .ascii start s := by
  induction s generalizing start again with
  | nil => rfl
  | cons c s ih =>
    cases hc : isSpacerChar c with
    | true =>
      rw [cased, if_pos hc]
      exact ih fun _ => rfl
    | false =>
      have hspacer : isSpacerChar (if start || Char.isUpper c then c.toUpper else c.toLower) = false := by
        split
        · rw [isSpacerChar_toUpper, hc]
        · rw [isSpacerChar_toLower, hc]
      have hout : cased .ascii start (c :: s) =
          (if start || Char.isUpper c then c.toUpper else c.toLower) :: cased .ascii false s := by
        rw [cased, hc]
        rfl
      rw [hout, cased, hspacer, ih fun hfalse => hfalse]
      exact congrArg (· :: cased .ascii false s) (cased_rune h c)

theorem ascii_camelize (u : Unicode) {s : Text} (h : ∀ c ∈ s, c.toNat < 128) : ∀ c ∈ camelize u s, c.toNat < 128 := by
  rw [camelize_eq, cased_of_ascii u h]
  exact forall_cased .ascii (fun c hc _ => ⟨toNat_toUpper_lt (h c hc), toNat_toLower_lt (h c hc)⟩) true

/-- **Camel case.** For every ASCII text, what `Camelize` returns has no spacer, is the text without its spacers up to
the case of letters, and is returned for itself. -/
theorem camelize_normal (u : Unicode) (s : Text) (h : ∀ c ∈ s, c.toNat < 128) :
    (∀ c ∈ camelize u s, c ∉ ['_', ' ', ':', '-']) ∧
      (camelize u s).map Char.toLower = (s.filter (· ∉ ['_', ' ', ':', '-'])).map Char.toLower ∧
      camelize u (camelize u s) = camelize u s := by
  have hspacers : ∀ c, isSpacerChar c = decide (c ∈ ['_', ' ', ':', '-']) := by
    intro c
    simp [isSpacerChar, Bool.or_assoc]
  have heq : camelize u s = cased .ascii true s := by rw [camelize_eq, cased_of_ascii u h]
  refine ⟨?_, ?_, ?_⟩
  · rw [heq]
    refine forall_cased .ascii (fun c _ hc => ?_) true
    rw [hspacers] at hc
    have hupper := isSpacerChar_toUpper c
    have hlower := isSpacerChar_toLower c
    rw [hspacers, hspacers, hc] at hupper hlower
    exact ⟨of_decide_eq_false hupper, of_decide_eq_false hlower⟩
  · rw [heq, map_toLower_cased]
    simp only [hspacers, decide_not]
  · rw [camelize_eq u (camelize u s), cased_of_ascii u (ascii_camelize u h), heq]
    exact cased_cased s id

/-- A word that starts with a digit is joined with the one before. -/
theorem camelize_digits :
    camelize .ascii (camelize .ascii "dino_2nd-PARTY".toList) = camelize .ascii "dino_2nd-PARTY".toList ∧
      splitAtCaseChangeWithTitlecase .ascii "dino_2nd".toList = ["Dino".toList, "2nd".toList] ∧
      splitAtCaseChangeWithTitlecase .ascii (camelize .ascii "dino_2nd".toList) = ["Dino2nd".toList] :=
  ⟨(camelize_normal .ascii "dino_2nd-PARTY".toList (by simp)).2.2, by decide, by decide⟩

/-! ## Keywords -/

/-- `reservedKeywords`. -/
def reservedKeywords : List Text :=
  ["abstract", "and", "array", "as", "break",
    "callable", "case", "catch", "class", "clone",
    "const", "continue", "declare", "default", "die",
    "do", "echo", "else", "elseif", "empty",
    "enddeclare", "endfor", "endforeach", "endif", "endswitch",
    "endwhile", "eval", "exit", "extends", "final",
    "for", "foreach", "function", "global", "goto",
    "if", "implements", "include", "include_once", "instanceof",
    "insteadof", "interface", "isset", "list", "namespace",
    "new", "or", "print", "private", "protected",
    "public", "require", "require_once", "return", "static",
    "switch", "throw", "trait", "try", "unset",
    "use", "var", "while", "xor", "int",
    "float", "bool", "string", "true", "false",
    "null", "void", "iterable"].map String.toList

/-- `isReserved`. -/
def isReserved (u : Unicode) (name : Text) : Bool := name.map u.toLower ∈ reservedKeywords

/-- `identifier`. -/
def identifier (u : Unicode) (name suffix : Text) : Text :=
  if suffix ≠ [] then camelize u name ++ camelize u suffix else camelize u name

/-- `strings.Trim` for one rune. -/
def trim (sep : Char) (s : Text) : Text := ((s.dropWhile (· = sep)).reverse.dropWhile (· = sep)).reverse

/-- The loops that write an identifier and a separator for each part of a package. -/
def path (u : Unicode) (sep : Char) (parts : List Text) : Text :=
  trim sep (parts.flatMap fun p => identifier u p [] ++ [sep])

/-- `namespace`. -/
def nameSpace (u : Unicode) (sep : Char) : Option Text → Text
  | none => []
  | some pkg => path u sep (pkg.splitOn '.')

/-- What is put in front of a reserved identifier. -/
def reservedMark (pkg : Text) : Text := if pkg = ".google.protobuf".toList then "GPB".toList else "PB".toList

/-- `resolveReserved`. -/
def resolveReserved (u : Unicode) (ident pkg : Text) : Text :=
  if isReserved u (ident.map u.toLower) then reservedMark pkg ++ ident else ident

/-- A keyword of PHP, in which case does not count. -/
def Reserved (name : Text) : Prop := name.map Char.toLower ∈ reservedKeywords

instance (name : Text) : Decidable (Reserved name) := inferInstanceAs (Decidable (_ ∈ _))

theorem keywords_ascii {k : Text} (h : k ∈ reservedKeywords) {c : Char} (hc : c ∈ k) : c.toNat < 128 ∧ c ≠ '\\' := by
  have hall : (reservedKeywords.all fun k => k.all fun c => decide (c.toNat < 128 ∧ c ≠ '\\')) = true := by
    decide +kernel
  exact of_decide_eq_true (List.all_eq_true.mp (List.all_eq_true.mp hall k h) c hc)

/-- No keyword starts with what is put in front of one. -/
theorem mark_not_keyword (pkg s : Text) : (reservedMark pkg).map Char.toLower ++ s ∉ reservedKeywords := by
  have hall : (reservedKeywords.all fun k => decide (k.take 2 ≠ "pb".toList ∧ k.take 3 ≠ "gpb".toList)) = true := by
    decide +kernel
  intro h
  have hk := of_decide_eq_true (List.all_eq_true.mp hall _ h)
  unfold reservedMark at hk
  split at hk
  · exact hk.2 rfl
  · exact hk.1 rfl

section

variable (u : Unicode) {ident : Text}

/-- The test of `resolveReserved` makes the identifier lower case twice. -/
theorem toLower_toLower_of_ascii (h : ∀ c ∈ ident, c.toNat < 128) :
    (ident.map u.toLower).map u.toLower = ident.map Char.toLower := by
  rw [List.map_map]
  refine List.map_congr_left fun c hc => ?_
  rw [Function.comp_apply, u.toLower_ascii c (h c hc), u.toLower_ascii c.toLower (toNat_toLower_lt (h c hc))]
  exact Char.toLower_toLower_eq_toLower c

theorem isReserved_iff_of_ascii (h : ∀ c ∈ ident, c.toNat < 128) :
    isReserved u (ident.map u.toLower) = true ↔ Reserved ident := by
  rw [isReserved, toLower_toLower_of_ascii u h, decide_eq_true_iff, Reserved]

theorem isReserved_of_reserved (h : Reserved ident) : isReserved u (ident.map u.toLower) = true := by
  refine (isReserved_iff_of_ascii u fun c hc => ?_).mpr h
  have hlt := (keywords_ascii h (List.mem_map_of_mem hc)).1
  by_cases hupper : c.isUpper = true
  · simp only [Char.isUpper, decide_eq_true_eq, UInt32.le_iff_toNat_le] at hupper
    exact Nat.lt_of_le_of_lt hupper.2 (by decide)
  · rwa [Char.toLower_eq_of_not_isUpper hupper] at hlt

theorem toLower_mark (pkg s : Text) :
    ((reservedMark pkg ++ s).map u.toLower).map u.toLower =
      (reservedMark pkg).map Char.toLower ++ (s.map u.toLower).map u.toLower := by
  have hmark : ((reservedMark pkg).map u.toLower).map u.toLower = (reservedMark pkg).map Char.toLower := by
    have hascii : ∀ c ∈ ['G', 'P', 'B', 'g', 'p', 'b'], u.toLower c = c.toLower := by
      intro c hc
      refine u.toLower_ascii c ?_
      have hall : (['G', 'P', 'B', 'g', 'p', 'b'].all fun c => decide (c.toNat < 128)) = true := by decide
      exact of_decide_eq_true (List.all_eq_true.mp hall c hc)
    unfold reservedMark
    split
    · simp [hascii]
    · simp [hascii]
  rw [List.map_append, List.map_append, hmark]

/-- An identifier with letters in front of it is not found reserved. -/
theorem isReserved_mark (pkg : Text) : isReserved u ((reservedMark pkg ++ ident).map u.toLower) = false := by
  rw [isReserved, toLower_mark]
  exact decide_eq_false (mark_not_keyword pkg _)

/-- An identifier that is found reserved has no backslash. -/
theorem backslash_not_mem (h : isReserved u (ident.map u.toLower) = true) : '\\' ∉ ident := by
  intro hmem
  have hlower : u.toLower '\\' = '\\' := u.toLower_ascii '\\' (by decide)
  have hmem' : '\\' ∈ (ident.map u.toLower).map u.toLower := by
    rw [← hlower]
    nth_rewrite 1 [← hlower]
    exact List.mem_map_of_mem (List.mem_map_of_mem hmem)
  exact (keywords_ascii (of_decide_eq_true h) hmem').2 rfl

theorem not_reserved_resolveReserved (pkg : Text) : ¬ Reserved (resolveReserved u ident pkg) := by
  intro h
  unfold resolveReserved at h
  split at h
  · rw [Reserved, List.map_append] at h
    exact mark_not_keyword pkg _ h
  case isFalse hnot => exact hnot (isReserved_of_reserved u h)

/-- Two identifiers become one if one of them is the other with letters in front of it. -/
theorem resolveReserved_eq_iff {ident' : Text} (hne : ident ≠ ident') (pkg : Text) :
    resolveReserved u ident pkg = resolveReserved u ident' pkg ↔
      isReserved u (ident.map u.toLower) = true ∧ ident' = reservedMark pkg ++ ident ∨
        isReserved u (ident'.map u.toLower) = true ∧ ident = reservedMark pkg ++ ident' := by
  unfold resolveReserved
  by_cases h : isReserved u (ident.map u.toLower) = true
  · by_cases h' : isReserved u (ident'.map u.toLower) = true
    · rw [if_pos h, if_pos h']
      refine iff_of_false (fun heq => hne (List.append_cancel_left heq)) ?_
      rintro (⟨-, rfl⟩ | ⟨-, rfl⟩)
      · rw [isReserved_mark] at h'
        cases h'
      · rw [isReserved_mark] at h
        cases h
    · rw [if_pos h, if_neg h']
      constructor
      · intro heq
        exact .inl ⟨h, heq.symm⟩
      · rintro (⟨-, heq⟩ | ⟨hres, -⟩)
        · exact heq.symm
        · exact absurd hres h'
  · by_cases h' : isReserved u (ident'.map u.toLower) = true
    · rw [if_neg h, if_pos h']
      constructor
      · intro heq
        exact .inr ⟨h', heq⟩
      · rintro (⟨hres, -⟩ | ⟨-, heq⟩)
        · exact absurd hres h
        · exact heq
    · rw [if_neg h, if_neg h']
      refine iff_of_false hne ?_
      rintro (⟨hres, -⟩ | ⟨hres, -⟩)
      · exact h hres
      · exact h' hres

end

end RoadRunner.Grpc.Php
