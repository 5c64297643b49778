import RoadRunner.Basic
import RoadRunner.Lib.Cut

/-!
# Command line overrides

The model of `parseFlag` and `parseValue` of `config/plugin.go`, which read an override `key=value` of a `-o` flag.
The two parts are found not empty before the blanks around them are removed, and `parseValue` takes the first rune of
what is left. All cutsets are ASCII, so the functions of `strings` work on bytes.

* `parseFlag_safe_iff`: which flags are parsed safely.
* `quoted`: a value in quotes, with its own ones escaped; `parseValue_quoted_iff`: which of them are read back.
-/

namespace RoadRunner.Config.Flags

/-- `strings.TrimLeft`. -/
def trimLeft (cutset s : Bytes) : Bytes := s.dropWhile (· ∈ cutset)

/-- `strings.Trim`. -/
def trim (cutset s : Bytes) : Bytes := ((s.dropWhile (· ∈ cutset)).reverse.dropWhile (· ∈ cutset)).reverse

/-- `strings.ReplaceAll` of a backslash and the byte by the byte. -/
def unescape (escape : UInt8) : Bytes → Bytes
  | a :: b :: s => if a = 92 ∧ b = escape then escape :: unescape escape s else a :: unescape escape (b :: s)
  | s => s

/-- `strings.SplitN(s, "=", 2)`. -/
def splitN (s : Bytes) : List Bytes :=
  if 61 ∈ s then [s.takeWhile (· ≠ 61), (s.dropWhile (· ≠ 61)).drop 1] else [s]

/-- A double quote, a quote and a backtick. -/
def quotes : Bytes := [34, 39, 96]

/-- A space, a line feed and a tab. -/
def blanks : Bytes := [32, 10, 9]

/-- `parseValue`; there is no first rune of an empty value. -/
def parseValue : Bytes → Option Bytes
  | [] => none
  | escape :: s =>
    some (if escape ∈ quotes then unescape escape (trim [escape] (escape :: s)) else escape :: s)

/-- The key and the value, or an error. -/
abbrev Parsed := Option (Except Err (Bytes × Bytes))

/-- `parseFlag`. -/
def parseFlag (flag : Bytes) : Parsed :=
  if 61 ∉ flag then some (.error (.op "parse_flag" (.errorf "invalid flag `%s`" (.str flag.text))))
  else
    match splitN (trimLeft (32 :: quotes) flag) with
    | key :: value :: _ =>
      if key = [] then some (.error (.str "key should not be empty"))
      else if value = [] then some (.error (.str "value should not be empty"))
      else (parseValue (trim blanks value)).map fun v => .ok (trim blanks key, v)
    | _ => some (.error (.str "usage: -o key=value"))

/-- The flag is refused, or there are a key that is not empty and a value. -/
def Safe (out : Parsed) : Prop := ∃ res, out = some res ∧ ∀ key value, res = .ok (key, value) → key ≠ []

/-- If there is something on both sides of the first `=`, each side has more than blanks. Quotes and spaces at the
start of the flag do not count. -/
def Filled (flag : Bytes) : Prop :=
  let s := flag.dropWhile (· ∈ 32 :: quotes)
  ∀ key value, s = key ++ 61 :: value → 61 ∉ key → key ≠ [] → value ≠ [] →
    (∃ b ∈ key, b ∉ blanks) ∧ ∃ b ∈ value, b ∉ blanks

theorem dropWhile_eq_nil {cutset s : Bytes} : s.dropWhile (· ∈ cutset) = [] ↔ ∀ b ∈ s, b ∈ cutset := by
  rw [List.dropWhile_eq_nil_iff]
  simp

theorem trim_eq_nil {cutset s : Bytes} : trim cutset s = [] ↔ ∀ b ∈ s, b ∈ cutset := by
  rw [trim, List.reverse_eq_nil_iff, dropWhile_eq_nil]
  constructor
  · intro h
    by_contra hnot
    -- the first byte that is left is not in the cutset
    have hne := mt dropWhile_eq_nil.mp hnot
    have hhead := List.head_dropWhile_not (fun b => decide (b ∈ cutset)) hne
    exact absurd (h _ (List.mem_reverse.mpr (List.head_mem hne))) (of_decide_eq_false hhead)
  · intro h b hb
    exact h b ((List.dropWhile_sublist _).subset (List.mem_reverse.mp hb))

theorem trim_ne_nil {cutset s : Bytes} : trim cutset s ≠ [] ↔ ∃ b ∈ s, b ∉ cutset := by
  rw [Ne, trim_eq_nil]
  push Not
  rfl

theorem parseValue_eq_none {s : Bytes} : parseValue s = none ↔ s = [] := by
  cases s <;> simp [parseValue]

theorem splitN_append {key : Bytes} (h : 61 ∉ key) (value : Bytes) : splitN (key ++ 61 :: value) = [key, value] := by
  rw [splitN, if_pos (by simp), Cut.takeWhile_append h, Cut.dropWhile_append h]
  rfl

/-- An `=` is not among what is removed from the start. -/
theorem mem_trimLeft {flag : Bytes} (h : 61 ∈ flag) : 61 ∈ trimLeft (32 :: quotes) flag := by
  rw [trimLeft]
  rw [← List.takeWhile_append_dropWhile (p := fun b => decide (b ∈ 32 :: quotes)) (l := flag), List.mem_append] at h
  refine h.resolve_left fun htake => ?_
  exact absurd (List.mem_takeWhile_imp htake) (by decide)

/-- What `parseFlag` makes of the two sides. -/
theorem parseFlag_eq {flag key value : Bytes} (hmem : 61 ∈ flag)
    (hflag : trimLeft (32 :: quotes) flag = key ++ 61 :: value) (hkey : 61 ∉ key) :
    parseFlag flag =
      if key = [] then some (.error (.str "key should not be empty"))
      else if value = [] then some (.error (.str "value should not be empty"))
      else (parseValue (trim blanks value)).map fun v => .ok (trim blanks key, v) := by
  rw [parseFlag, if_neg (not_not.mpr hmem), hflag, splitN_append hkey]

/-- The sides of the first `=` are unique, so `Filled` is about the two parts that `parseFlag` reads. -/
theorem filled_iff {flag key value : Bytes} (hflag : trimLeft (32 :: quotes) flag = key ++ 61 :: value)
    (hkey : 61 ∉ key) :
    Filled flag ↔ (key ≠ [] → value ≠ [] → trim blanks key ≠ [] ∧ trim blanks value ≠ []) := by
  rw [trim_ne_nil, trim_ne_nil]
  constructor
  · intro h
    exact h key value hflag hkey
  · intro h key' value' heq hkey'
    obtain ⟨rfl, rfl⟩ := Cut.append_cons_inj hkey hkey' (hflag.symm.trans heq)
    exact h

theorem safe_error (e : Err) : Safe (some (.error e)) := by
  refine ⟨_, rfl, ?_⟩
  intro key value h
  cases h

theorem safe_of_filled {flag : Bytes} (h : Filled flag) : Safe (parseFlag flag) := by
  by_cases hmem : 61 ∈ flag
  · obtain ⟨key, value, hflag, hkey⟩ := List.eq_append_cons_of_mem (mem_trimLeft hmem)
    rw [parseFlag_eq hmem hflag hkey]
    by_cases hk : key = []
    · rw [if_pos hk]
      exact safe_error _
    by_cases hv : value = []
    · rw [if_neg hk, if_pos hv]
      exact safe_error _
    obtain ⟨hkeyText, hvalueText⟩ := (filled_iff hflag hkey).mp h hk hv
    obtain ⟨v, hparse⟩ := Option.ne_none_iff_exists'.mp (mt parseValue_eq_none.mp hvalueText)
    rw [if_neg hk, if_neg hv, hparse]
    refine ⟨_, rfl, ?_⟩
    intro key' value' heq
    cases heq
    exact hkeyText
  · rw [parseFlag, if_pos hmem]
    exact safe_error _

theorem filled_of_safe {flag : Bytes} (h : Safe (parseFlag flag)) : Filled flag := by
  by_cases hmem : 61 ∈ flag
  · obtain ⟨key, value, hflag, hkey⟩ := List.eq_append_cons_of_mem (mem_trimLeft hmem)
    rw [filled_iff hflag hkey]
    intro hk hv
    rw [parseFlag_eq hmem hflag hkey, if_neg hk, if_neg hv] at h
    obtain ⟨res, hres, hsafe⟩ := h
    obtain ⟨v, hparse, rfl⟩ := Option.map_eq_some_iff.mp hres
    refine ⟨hsafe _ v rfl, ?_⟩
    intro hnil
    rw [parseValue_eq_none.mpr hnil] at hparse
    cases hparse
  · -- without an `=` there are no two sides
    intro key value heq
    have hsub : 61 ∈ flag.dropWhile (· ∈ 32 :: quotes) := by
      rw [heq]
      exact List.mem_append_right key List.mem_cons_self
    exact absurd ((List.dropWhile_sublist _).subset hsub) hmem

/-- **Overrides.** For every flag: `parseFlag` does not panic and returns an error or a key that is not empty, exactly
if neither side of the first `=` has blanks only. -/
theorem parseFlag_safe_iff (flag : Bytes) : Safe (parseFlag flag) ↔ Filled flag :=
  ⟨filled_of_safe, safe_of_filled⟩

/-- A value of one space panics, and a key of one tab is returned as the empty key. -/
theorem blank_sides_not_safe :
    parseFlag (ascii "a= ") = none ∧ ¬ Safe (parseFlag (ascii "a= ")) ∧
      parseFlag (ascii "\t=b") = some (.ok ([], ascii "b")) ∧ ¬ Safe (parseFlag (ascii "\t=b")) := by
  have hpanic : parseFlag (ascii "a= ") = none := by decide
  have hempty : parseFlag (ascii "\t=b") = some (.ok ([], ascii "b")) := by rfl
  refine ⟨hpanic, ?_, hempty, ?_⟩
  · rintro ⟨res, hres, -⟩
    rw [hpanic] at hres
    cases hres
  · rintro ⟨res, hres, hsafe⟩
    rw [hempty] at hres
    cases hres
    exact hsafe _ _ rfl rfl

/-- Quotes around a value are removed, and an escaped quote in it is kept. -/
example : parseFlag (ascii "a.b = 'it\\'s'") = some (.ok (ascii "a.b", ascii "it's")) := by rfl

/-! ## Quoted values -/

/-- A value with a backslash before every quote. -/
def escapeQuotes (q : UInt8) (v : Bytes) : Bytes := v.flatMap fun b => if b = q then [92, q] else [b]

/-- A value in quotes. -/
def quoted (q : UInt8) (v : Bytes) : Bytes := q :: (escapeQuotes q v ++ [q])

theorem escapeQuotes_cons (q b : UInt8) (v : Bytes) :
    escapeQuotes q (b :: v) = (if b = q then [92, q] else [b]) ++ escapeQuotes q v :=
  List.flatMap_cons

theorem escapeQuotes_concat (q b : UInt8) (v : Bytes) :
    escapeQuotes q (v ++ [b]) = escapeQuotes q v ++ if b = q then [92, q] else [b] := by
  rw [escapeQuotes, List.flatMap_append, List.flatMap_singleton]
  rfl

theorem unescape_cons {q b : UInt8} (h : b ≠ 92) (s : Bytes) : unescape q (b :: s) = b :: unescape q s := by
  cases s with
  | nil => rfl
  | cons a s => rw [unescape, if_neg fun hesc => h hesc.1]

/-- What was escaped is read back, whatever follows it. -/
theorem unescape_escapeQuotes {q : UInt8} {v : Bytes} (h : 92 ∉ v) (r : Bytes) :
    unescape q (escapeQuotes q v ++ r) = v ++ unescape q r := by
  induction v with
  | nil => rfl
  | cons b v ih =>
    rw [List.mem_cons, not_or] at h
    rw [escapeQuotes_cons, List.append_assoc]
    by_cases hb : b = q
    · subst hb
      rw [if_pos rfl]
      show unescape b (92 :: b :: (escapeQuotes b v ++ r)) = b :: (v ++ unescape b r)
      rw [unescape, if_pos ⟨rfl, rfl⟩, ih h.2]
    · rw [if_neg hb, List.singleton_append, unescape_cons (Ne.symm h.1), ih h.2, List.cons_append]

/-- What is left in the middle, if it does not start or end with what is removed. -/
theorem trim_append {cutset l m r : Bytes} (hl : ∀ b ∈ l, b ∈ cutset) (hr : ∀ b ∈ r, b ∈ cutset)
    (hfirst : ∀ b, m.head? = some b → b ∉ cutset) (hlast : ∀ b, m.getLast? = some b → b ∉ cutset) :
    trim cutset (l ++ (m ++ r)) = m := by
  by_cases hm : m = []
  · subst hm
    rw [trim_eq_nil]
    intro b hb
    exact (List.mem_append.mp hb).elim (hl b) (hr b)
  have hfirst' : ∀ b, (m ++ r).head? = some b → decide (b ∈ cutset) = false := by
    intro b hb
    rw [List.head?_append_of_ne_nil m hm] at hb
    exact decide_eq_false (hfirst b hb)
  have hlast' : ∀ b, m.reverse.head? = some b → decide (b ∈ cutset) = false := by
    intro b hb
    rw [List.head?_reverse] at hb
    exact decide_eq_false (hlast b hb)
  have hr' : ∀ b ∈ r.reverse, decide (b ∈ cutset) = true :=
    fun b hb => decide_eq_true (hr b (List.mem_reverse.mp hb))
  rw [trim, Cut.dropWhile_append_of_head (fun b hb => decide_eq_true (hl b hb)) hfirst', List.reverse_append,
    Cut.dropWhile_append_of_head hr' hlast', List.reverse_reverse]

/-- An escaped value does not start with a quote. -/
theorem head_escapeQuotes {q : UInt8} (hq : q ≠ 92) {v : Bytes} {b : UInt8}
    (h : (escapeQuotes q v).head? = some b) : b ≠ q := by
  cases v with
  | nil => cases h
  | cons a v =>
    rw [escapeQuotes_cons] at h
    split at h
    · cases h
      exact Ne.symm hq
    case isFalse ha =>
      cases h
      exact ha

/-- Its last byte is that of the value. -/
theorem getLast_escapeQuotes (q : UInt8) (v : Bytes) : (escapeQuotes q v).getLast? = v.getLast? := by
  rcases List.eq_nil_or_concat' v with rfl | ⟨w, b, rfl⟩
  · rfl
  · rw [escapeQuotes_concat, List.getLast?_concat, List.getLast?_append]
    split
    case isTrue hb =>
      rw [hb]
      rfl
    · rfl

theorem parseValue_quoted {q : UInt8} (hq : q ∈ quotes) (v : Bytes) :
    parseValue (quoted q v) = some (unescape q (trim [q] (quoted q v))) := by
  rw [quoted, parseValue, if_pos hq]

/-- The quotes around a value that does not end with one are all that is removed. -/
theorem trim_quoted {q : UInt8} (hq : q ≠ 92) {v : Bytes} (hv : v.getLast? ≠ some q) :
    trim [q] (quoted q v) = escapeQuotes q v := by
  have hone : ∀ b ∈ [q], b ∈ [q] := fun b hb => hb
  refine trim_append (l := [q]) hone hone (fun b hb => ?_) (fun b hb => ?_)
  · rw [List.mem_singleton]
    exact head_escapeQuotes hq hb
  · rw [List.mem_singleton]
    rintro rfl
    rw [getLast_escapeQuotes] at hb
    exact hv hb

/-- The last quote of a value is removed with the one around it, and its backslash is left. -/
theorem trim_quoted_concat {q : UInt8} (hq : q ≠ 92) (w : Bytes) :
    trim [q] (quoted q (w ++ [q])) = escapeQuotes q w ++ [92] := by
  have htext : quoted q (w ++ [q]) = [q] ++ ((escapeQuotes q w ++ [92]) ++ [q, q]) := by
    rw [quoted, escapeQuotes_concat, if_pos rfl]
    simp
  rw [htext]
  refine trim_append (fun b hb => hb) (fun b hb => ?_) (fun b hb => ?_) (fun b hb => ?_)
  · rw [List.mem_singleton]
    simpa using hb
  · rw [List.mem_singleton]
    rw [List.head?_append] at hb
    rcases Option.or_eq_some_iff.mp hb with hhead | ⟨-, hhead⟩
    · exact head_escapeQuotes hq hhead
    · cases hhead
      exact Ne.symm hq
  · rw [List.getLast?_concat] at hb
    cases hb
    rw [List.mem_singleton]
    exact Ne.symm hq

theorem quotes_ne_backslash {q : UInt8} (hq : q ∈ quotes) : q ≠ 92 := by
  rintro rfl
  exact absurd hq (by decide)

/-- **Quoted values.** For each quote and every value without a backslash: the value, escaped and in quotes, is read
back exactly if it does not end with that quote. -/
theorem parseValue_quoted_iff (q : UInt8) (hq : q ∈ quotes) (v : Bytes) (hv : 92 ∉ v) :
    parseValue (quoted q v) = some v ↔ v.getLast? ≠ some q := by
  have hne := quotes_ne_backslash hq
  rw [parseValue_quoted hq, Option.some_inj]
  constructor
  · intro heq hlast
    obtain ⟨w, rfl⟩ := List.getLast?_eq_some_iff.mp hlast
    have hw : 92 ∉ w := fun hmem => hv (List.mem_append_left [q] hmem)
    -- the backslash of the last quote is in what is read
    rw [trim_quoted_concat hne, unescape_escapeQuotes hw] at heq
    exact hv (heq ▸ List.mem_append_right w List.mem_cons_self)
  · intro hlast
    have hread := unescape_escapeQuotes (q := q) hv []
    rw [List.append_nil] at hread
    rw [trim_quoted hne hlast, hread]
    exact List.append_nil v

/-- A quote in a value, and one at its start. -/
theorem parseValue_quoted_inside :
    34 ∈ quotes ∧ parseValue (ascii "\"\\\"a\\\"b\"") = some (ascii "\"a\"b") :=
  ⟨by decide, (parseValue_quoted_iff 34 (by decide) (ascii "\"a\"b") (by decide)).mpr (by decide)⟩

/-- The value `a"` is written as `"a\""` and read as `a\`. -/
theorem last_quote_lost :
    quoted 34 (ascii "a\"") = ascii "\"a\\\"\"" ∧ parseValue (quoted 34 (ascii "a\"")) = some (ascii "a\\") ∧
      parseValue (quoted 34 (ascii "a\"")) ≠ some (ascii "a\"") := by
  decide

/-! ## All flags -/

/-- The loop of `Init` over `p.Flags`, with the calls of `viper.Set` so far: what is set, and the error. -/
def overrides (sets : List (Bytes × Bytes)) : List Bytes → Option (List (Bytes × Bytes) × Option Err)
  | [] => some (sets, none)
  | f :: flags =>
    match parseFlag f with
    | none => none
    | some (.error e) => some (sets, some (.op "config_plugin_init" e))
    | some (.ok entry) => overrides (sets ++ [entry]) flags

/-- With flags that have more than blanks on both sides, `Init` does not panic and sets no empty key. -/
theorem overrides_safe {flags : List Bytes} (h : ∀ f ∈ flags, Filled f) {sets : List (Bytes × Bytes)}
    (hsets : ∀ entry ∈ sets, entry.1 ≠ []) :
    ∃ out err, overrides sets flags = some (out, err) ∧ ∀ entry ∈ out, entry.1 ≠ [] := by
  induction flags generalizing sets with
  | nil => exact ⟨sets, none, rfl, hsets⟩
  | cons f flags ih =>
    obtain ⟨res, hres, hsafe⟩ := safe_of_filled (h f List.mem_cons_self)
    rw [overrides, hres]
    cases res with
    | error e => exact ⟨sets, _, rfl, hsets⟩
    | ok entry =>
      refine ih (fun f' hf' => h f' (List.mem_cons_of_mem f hf')) ?_
      intro entry' hmem
      rcases List.mem_append.mp hmem with hold | hnew
      · exact hsets entry' hold
      · rw [List.mem_singleton.mp hnew]
        exact hsafe entry.1 entry.2 rfl

end RoadRunner.Config.Flags
