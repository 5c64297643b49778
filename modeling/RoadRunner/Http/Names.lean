import RoadRunner.Http.Tree

/-!
# Field names with brackets

A form names a field of a tree with brackets, `base[s1][s2]...[sn]`, and `FetchIndexes` splits the name. Its loop
has three modes: in a text (0), after an opening bracket (1) and after a closing one (2). A new index is not
appended at the opening bracket but when the first rune of it, or the closing bracket, is met.

* `foldl_brackets`: a pair of brackets with a segment in it adds one index, whatever the mode was.
* `fetchIndexes_bracketed`: splitting inverts the notation, with any spaces in the name.
-/

namespace RoadRunner.Http

/-- A text without brackets and spaces. -/
abbrev Segment := { s : Name // ∀ c ∈ s, c ≠ '[' ∧ c ≠ ']' ∧ c ≠ ' ' }

/-- `base[s1][s2]...[sn]`. -/
def bracketed (base : Segment) (segments : List Segment) : Name :=
  base.val ++ segments.flatMap fun s => '[' :: s.val ++ [']']

namespace Indexes

theorem step_space (s : Indexes) : s.step ' ' = s := rfl

theorem step_open (s : Indexes) : s.step '[' = { s with pos := 1 } := rfl

theorem step_rune (s : Indexes) {c : Char} (hc : c ≠ '[' ∧ c ≠ ']' ∧ c ≠ ' ') :
    s.step c =
      let s := if s.pos = 1 ∨ s.pos = 2 then s.grow else s
      { s with last := s.last ++ [c], pos := 0 } := by
  rw [step, if_neg hc.2.2, if_neg hc.1, if_neg hc.2.1]

/-- Spaces make no difference. -/
theorem foldl_filter_space (name : Name) (s : Indexes) :
    (name.filter (· ≠ ' ')).foldl step s = name.foldl step s := by
  induction name generalizing s with
  | nil => rfl
  | cons c name ih =>
    by_cases hc : c = ' '
    · subst hc
      rw [List.filter_cons_of_neg (by simp), List.foldl_cons, step_space, ih]
    · rw [List.filter_cons_of_pos (by simpa using hc), List.foldl_cons, List.foldl_cons, ih]

/-- In a text, the runes of a segment are appended to the last index. -/
theorem foldl_text {text : Name} (htext : ∀ c ∈ text, c ≠ '[' ∧ c ≠ ']' ∧ c ≠ ' ') (init : List Name) (last : Name) :
    text.foldl step ⟨0, init, last⟩ = ⟨0, init, last ++ text⟩ := by
  induction text generalizing last with
  | nil => simp
  | cons c text ih =>
    obtain ⟨hc, hrest⟩ := List.forall_mem_cons.mp htext
    have hstep : step ⟨0, init, last⟩ c = ⟨0, init, last ++ [c]⟩ := step_rune _ hc
    rw [List.foldl_cons, hstep, ih hrest, List.append_assoc]
    rfl

/-- A pair of brackets adds one index. -/
theorem foldl_brackets (segment : Segment) (s : Indexes) :
    ('[' :: segment.val ++ [']']).foldl step s = ⟨2, s.init ++ [s.last], segment.val⟩ := by
  obtain ⟨text, htext⟩ := segment
  rw [List.cons_append, List.foldl_cons, step_open, List.foldl_append]
  dsimp only
  cases text with
  | nil => rfl
  | cons c text =>
    -- the first rune appends the index and leaves the mode of the bracket
    obtain ⟨hc, hrest⟩ := List.forall_mem_cons.mp htext
    have hfirst : step { s with pos := 1 } c = ⟨0, s.init ++ [s.last], [c]⟩ := step_rune _ hc
    have htext' : (c :: text).foldl step { s with pos := 1 } = ⟨0, s.init ++ [s.last], c :: text⟩ := by
      rw [List.foldl_cons, hfirst, foldl_text hrest]
      rfl
    rw [htext']
    rfl

theorem keys_foldl_brackets (segments : List Segment) (s : Indexes) :
    ((segments.flatMap fun s => '[' :: s.val ++ [']']).foldl step s).keys =
      s.keys ++ segments.map Subtype.val := by
  induction segments generalizing s with
  | nil => simp
  | cons segment segments ih =>
    rw [List.flatMap_cons, List.foldl_append, foldl_brackets, ih]
    simp [keys]

end Indexes

/-- **Splitting inverts the notation**: for every name that is `base[s1]...[sn]` without its spaces, the indexes are
the base and the segments, empty ones included. -/
theorem fetchIndexes_bracketed (base : Segment) (segments : List Segment) (name : Name)
    (hname : name.filter (· ≠ ' ') = bracketed base segments) :
    fetchIndexes name = base.val :: segments.map Subtype.val := by
  have hbase : base.val.foldl Indexes.step {} = ⟨0, [], base.val⟩ := Indexes.foldl_text base.property [] []
  rw [fetchIndexes, ← Indexes.foldl_filter_space, hname, bracketed, List.foldl_append, hbase,
    Indexes.keys_foldl_brackets]
  rfl

/-- A name with spaces everywhere and an empty segment. -/
theorem fetchIndexes_with_spaces :
    fetchIndexes " k ey[ sub ] [ ]".toList = ["key".toList, "sub".toList, []] :=
  fetchIndexes_bracketed ⟨"key".toList, by simp⟩ [⟨"sub".toList, by simp⟩, ⟨[], List.forall_mem_nil _⟩] _ (by decide)

end RoadRunner.Http
