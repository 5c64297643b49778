import RoadRunner.Basic
import RoadRunner.Lib.Decimal
import RoadRunner.Lib.Escape

/-!
# Redirects to HTTPS

The model of `redirect` and `tlsAddr` of `http/serve.go`, with what they use of `net/url` and `net/http`: `URL.String`
and the `Location` header of `http.Redirect`.

* `redirect_kept_iff`: for which requests this is so.
-/

namespace RoadRunner.Http.Redirect

/-! ## URLs -/

/-- An ASCII letter or digit. -/
def isAlnum (b : UInt8) : Bool := (97 ≤ b && b ≤ 122) || (65 ≤ b && b ≤ 90) || (48 ≤ b && b ≤ 57)

/-- The bytes that `url.escape` keeps in a host. -/
def keepHost (b : UInt8) : Bool := isAlnum b || b ∈ ascii "!$&'()*+,;=:[]<>\"" || b ∈ ascii "-_.~"

/-- The bytes that `url.escape` keeps in a path. -/
def keepPath (b : UInt8) : Bool := isAlnum b || b ∈ ascii "-_.~" || b ∈ ascii "$&+,/:;=@"

/-- `url.URL`, with the fields that `redirect` sets. -/
structure URL where
  scheme : Bytes
  host : Bytes
  path : Bytes
  rawQuery : Bytes
  deriving DecidableEq

/-- `EscapedPath` of a URL without `RawPath`. -/
def URL.escapedPath (u : URL) : Bytes :=
  if u.path = ascii "*" then ascii "*" else Escape.escape 65 keepPath u.path

/-- `String` of a URL with a scheme. -/
def URL.string (u : URL) : Bytes :=
  u.scheme ++ ascii ":" ++ (if u.host ≠ [] ∨ u.path ≠ [] then ascii "//" else []) ++ Escape.escape 65 keepHost u.host ++
    (if u.escapedPath ≠ [] ∧ u.escapedPath.head? ≠ some 47 ∧ u.host ≠ [] then 47 :: u.escapedPath else u.escapedPath) ++
    (if u.rawQuery ≠ [] then 63 :: u.rawQuery else [])

/-- `hexEscapeNonASCII`, with the digits of `strconv`. -/
def hexEscapeNonASCII (s : Bytes) : Bytes := Escape.escape 97 (· < 128) s

/-! ## The plugin -/

/-- `http.Request`, with the fields that `redirect` reads. -/
structure Request where
  host : Bytes
  path : Bytes
  rawQuery : Bytes
  deriving DecidableEq

/-- `tlsAddr`, with the port of `SSLConfig`. What is before the first colon is the first part of the split. -/
def tlsAddr (sslPort : Int64) (host : Bytes) (forcePort : Bool) : Bytes :=
  let host := host.takeWhile (· ≠ 58)
  if forcePort ∨ sslPort ≠ 443 then host ++ 58 :: Decimal.itoa sslPort else host

/-- `redirect`: the `Location` header. The target has a scheme, so `http.Redirect` does not complete it. -/
def redirect (sslPort : Int64) (r : Request) : Bytes :=
  hexEscapeNonASCII (URL.string ⟨ascii "https", tlsAddr sslPort r.host false, r.path, r.rawQuery⟩)

/-! ## Requests -/

/-- A byte of a name: a letter, a digit, another unreserved byte, a delimiter of names, or the start of an escape. -/
def nameByte (b : UInt8) : Bool := isAlnum b || b ∈ ascii "-._~" || b ∈ ascii "!$&'()*+,;=" || b = 37

/-- A byte of an IPv6 address: a hexadecimal digit, a colon, or a dot of a last part in the form of IPv4. -/
def ipv6Byte (b : UInt8) : Bool := (Escape.unhex b).isSome || b = 58 || b = 46

/-- A host. The texts of `ipv6` include those of all addresses. -/
inductive Address where
  | name (s : { s : Bytes // s ≠ [] ∧ ∀ b ∈ s, nameByte b = true })
  | ipv4 (a b c d : UInt8)
  | ipv6 (s : { s : Bytes // 58 ∈ s ∧ ∀ b ∈ s, ipv6Byte b = true })

/-- The address as it is written in a URL. -/
def Address.text : Address → Bytes
  | name s => s.val
  | ipv4 a b c d => [46].intercalate ([a, b, c, d].map fun n => Decimal.digits n.toNat)
  | ipv6 s => 91 :: s.val ++ [93]

/-- The digits after a colon. -/
abbrev Port := { p : Bytes // p.all Decimal.isDigit = true }

/-- A request. The server reads `path` from the text before the query and refuses what it cannot read. -/
structure Incoming where
  address : Address
  port : Option Port
  text : Bytes
  path : Bytes
  decoded : Escape.unescape text = some path
  query : Bytes

/-- The request of the client's target. -/
def Incoming.request (r : Incoming) : Request :=
  ⟨r.address.text ++ r.port.elim [] (58 :: ·.val), r.path, r.query⟩

/-! ## What the client reads -/

/-- The parts of an absolute reference, its fragment apart. -/
structure Reference where
  authority : Bytes
  path : Bytes
  query : Bytes
  deriving DecidableEq

/-- The parts of what is after `https://`. -/
def Reference.parts (s : Bytes) : Reference :=
  let rest := s.dropWhile (· ∉ ascii "/?#")
  ⟨s.takeWhile (· ∉ ascii "/?#"), rest.takeWhile (· ∉ ascii "?#"),
    match rest.dropWhile (· ∉ ascii "?#") with
    | 63 :: query => query.takeWhile (· ≠ 35)
    | _ => []⟩

/-- The parts of a URL with the scheme `https`. -/
def Reference.read (s : Bytes) : Option Reference :=
  if s.take 8 = ascii "https://" then some (parts (s.drop 8)) else none

/-- The segments of a path, each one decoded. -/
def segments (path : Bytes) : List (Option Bytes) := (path.splitOn 47).map Escape.unescape

/-- The port of the configuration, which is omitted if it is the one of the scheme. -/
def portSuffix (sslPort : Int64) : Bytes := if sslPort = 443 then [] else 58 :: Decimal.itoa sslPort

/-- A reference to the same resource. -/
structure Same (sslPort : Int64) (r : Incoming) (ref : Reference) : Prop where
  authority : ref.authority = r.address.text ++ portSuffix sslPort
  path : segments ref.path = segments r.text
  query : ref.query = r.query

/-- The redirect leads to the same resource. -/
def Kept (sslPort : Int64) (r : Incoming) : Prop :=
  ∃ ref, Reference.read (redirect sslPort r.request) = some ref ∧ Same sslPort r ref

/-- Not in brackets, and without an escape. -/
def Address.Plain : Address → Prop
  | name s => 37 ∉ s.val
  | ipv4 _ _ _ _ => True
  | ipv6 _ => False

/-- The path is empty or starts with a slash, and no other slash is written as an escape. -/
structure PlainPath (text : Bytes) : Prop where
  rooted : text = [] ∨ text.head? = some 47
  slashes : ∀ part ∈ text.splitOn 47, ∀ s, Escape.unescape part = some s → 47 ∉ s

/-- The query is ASCII and has no `#`. -/
structure PlainQuery (query : Bytes) : Prop where
  ascii : ∀ b ∈ query, b < 128
  fragment : 35 ∉ query

/-! ## Bytes -/

theorem isAlnum_lt {b : UInt8} (h : isAlnum b = true) : b < 128 := by
  simp only [isAlnum, Bool.or_eq_true, Bool.and_eq_true, decide_eq_true_eq, UInt8.le_iff_toNat_le] at h
  rw [UInt8.lt_iff_toNat_lt]
  rcases h with (⟨-, h⟩ | ⟨-, h⟩) | ⟨-, h⟩ <;> exact Nat.lt_of_le_of_lt h (by decide)

theorem isAlnum_of_isDigit {b : UInt8} (h : Decimal.isDigit b = true) : isAlnum b = true := by
  simp only [Decimal.isDigit, Bool.and_eq_true, decide_eq_true_eq] at h
  simp only [isAlnum, Bool.or_eq_true, Bool.and_eq_true, decide_eq_true_eq, UInt8.le_iff_toNat_le]
  exact .inr h

theorem keepHost_of_isAlnum {b : UInt8} (h : isAlnum b = true) : keepHost b = true := by
  rw [keepHost, h]
  rfl

theorem lt_of_mem {bytes : Bytes} (h : bytes.all (· < 128) = true) {b : UInt8} (hb : b ∈ bytes) : b < 128 :=
  of_decide_eq_true (List.all_eq_true.mp h b hb)

theorem keepHost_lt {b : UInt8} (h : keepHost b = true) : b < 128 := by
  simp only [keepHost, Bool.or_eq_true, decide_eq_true_eq] at h
  rcases h with (h | h) | h
  · exact isAlnum_lt h
  · exact lt_of_mem (by decide) h
  · exact lt_of_mem (by decide) h

theorem keepPath_lt {b : UInt8} (h : keepPath b = true) : b < 128 := by
  simp only [keepPath, Bool.or_eq_true, decide_eq_true_eq] at h
  rcases h with (h | h) | h
  · exact isAlnum_lt h
  · exact lt_of_mem (by decide) h
  · exact lt_of_mem (by decide) h

/-- Of the bytes of a name, only the start of an escape is escaped. -/
theorem keepHost_of_nameByte {b : UInt8} (h : nameByte b = true) (hb : b ≠ 37) : keepHost b = true := by
  simp only [nameByte, Bool.or_eq_true, decide_eq_true_eq] at h
  rcases h with ((h | h) | h) | h
  · exact keepHost_of_isAlnum h
  · exact List.all_eq_true.mp (by decide : (ascii "-._~").all keepHost = true) b h
  · exact List.all_eq_true.mp (by decide : (ascii "!$&'()*+,;=").all keepHost = true) b h
  · exact absurd h hb

/-- A byte that is kept is none of those that are not. -/
theorem not_mem_of_keep {keep : UInt8 → Bool} {bytes : Bytes} (h : bytes.any keep = false) {b : UInt8}
    (hb : keep b = true) : b ∉ bytes := by
  intro hmem
  exact List.any_eq_false.mp h b hmem hb

/-- What an escaped text has, if the bytes that are kept have it. -/
theorem forall_mem_escape {keep : UInt8 → Bool} {P : UInt8 → Prop} (hkeep : ∀ b, keep b = true → P b) (h37 : P 37)
    (hdigit : ∀ n < 16, P (Escape.hexDigit 65 n)) {s : Bytes} : ∀ b ∈ Escape.escape 65 keep s, P b := by
  intro b hb
  rcases Escape.mem_escape hb with ⟨-, h⟩ | rfl | ⟨n, hn, rfl⟩
  · exact hkeep b h
  · exact h37
  · exact hdigit n hn

theorem hexEscape_ascii {s : Bytes} (h : ∀ b ∈ s, b < 128) : hexEscapeNonASCII s = s :=
  Escape.escape_eq_self fun b hb => decide_eq_true (h b hb)

theorem hexEscape_append (s t : Bytes) :
    hexEscapeNonASCII (s ++ t) = hexEscapeNonASCII s ++ hexEscapeNonASCII t :=
  Escape.escape_append s t

/-! ## The host -/

theorem isDigit_of_mem_ipv4 {a b c d x : UInt8} (h : x ∈ (Address.ipv4 a b c d).text) :
    x = 46 ∨ Decimal.isDigit x = true := by
  have hdigits : ∀ n, x ∈ Decimal.digits n → Decimal.isDigit x = true :=
    fun n hx => List.all_eq_true.mp (Decimal.all_isDigit_digits n) x hx
  simp only [Address.text, List.map_cons, List.map_nil, List.intercalate_cons_cons, List.intercalate_singleton,
    List.mem_append, List.mem_singleton] at h
  rcases h with (h | h) | (h | h) | (h | h) | h
  · exact .inr (hdigits _ h)
  · exact .inl h
  · exact .inr (hdigits _ h)
  · exact .inl h
  · exact .inr (hdigits _ h)
  · exact .inl h
  · exact .inr (hdigits _ h)

theorem keepHost_itoa (n : Int64) : ∀ b ∈ Decimal.itoa n, keepHost b = true := by
  have hdigits : ∀ b ∈ Decimal.digits n.toInt.natAbs, keepHost b = true := by
    intro b hb
    exact keepHost_of_isAlnum (isAlnum_of_isDigit (List.all_eq_true.mp (Decimal.all_isDigit_digits _) b hb))
  unfold Decimal.itoa
  split
  · exact List.forall_mem_cons.mpr ⟨by decide, hdigits⟩
  · exact hdigits

theorem keepHost_portSuffix (sslPort : Int64) : ∀ b ∈ portSuffix sslPort, keepHost b = true := by
  unfold portSuffix
  split
  · exact List.forall_mem_nil _
  · exact List.forall_mem_cons.mpr ⟨by decide, keepHost_itoa sslPort⟩

/-- The port that the client used is not read. -/
theorem takeWhile_host (r : Incoming) : r.request.host.takeWhile (· ≠ 58) = r.address.text.takeWhile (· ≠ 58) := by
  unfold Incoming.request
  dsimp only
  by_cases hmem : 58 ∈ r.address.text
  · obtain ⟨l, t, htext, hl⟩ := List.eq_append_cons_of_mem hmem
    rw [htext, List.append_assoc, List.cons_append, Cut.takeWhile_append hl, Cut.takeWhile_append hl]
  · rw [Cut.takeWhile_of_not_mem hmem]
    cases r.port with
    | none => rw [Option.elim_none, List.append_nil, Cut.takeWhile_of_not_mem hmem]
    | some port => rw [Option.elim_some, Cut.takeWhile_append hmem]

theorem tlsAddr_eq (sslPort : Int64) (r : Incoming) :
    tlsAddr sslPort r.request.host false = r.address.text.takeWhile (· ≠ 58) ++ portSuffix sslPort := by
  unfold tlsAddr portSuffix
  rw [takeWhile_host]
  by_cases h : sslPort = 443
  · simp [h]
  · simp [h]

theorem isSeparator_colon : Escape.IsSeparator 58 := ⟨by decide, by decide⟩

theorem colon_not_mem_name (s : { s : Bytes // s ≠ [] ∧ ∀ b ∈ s, nameByte b = true }) :
    58 ∉ (Address.name s).text := by
  intro hmem
  exact absurd (s.property.2 58 hmem) (by decide)

theorem colon_not_mem_ipv4 (a b c d : UInt8) : 58 ∉ (Address.ipv4 a b c d).text := by
  intro hmem
  rcases isDigit_of_mem_ipv4 hmem with h | h <;> exact absurd h (by decide)

theorem takeWhile_text_ne_nil (a : Address) : a.text.takeWhile (· ≠ 58) ≠ [] := by
  cases a with
  | name s =>
    rw [Cut.takeWhile_of_not_mem (colon_not_mem_name s)]
    exact s.property.1
  | ipv4 a b c d =>
    rw [Cut.takeWhile_of_not_mem (colon_not_mem_ipv4 a b c d), Address.text, List.map_cons, List.map_cons,
      List.intercalate_cons_cons]
    simp
  | ipv6 s =>
    rw [Address.text, List.cons_append, List.takeWhile_cons_of_pos (by decide)]
    exact List.cons_ne_nil _ _

/-- What is before the first colon is the address, as the URL writes it, exactly if the address is plain. -/
theorem escape_host_iff (a : Address) :
    Escape.escape 65 keepHost (a.text.takeWhile (· ≠ 58)) = a.text ↔ a.Plain := by
  cases a with
  | name s =>
    rw [Cut.takeWhile_of_not_mem (colon_not_mem_name s), Escape.escape_eq_self_iff]
    constructor
    · intro hkeep hmem
      exact absurd (hkeep 37 hmem) (by decide)
    · intro hmem b hb
      exact keepHost_of_nameByte (s.property.2 b hb) (ne_of_mem_of_not_mem hb hmem)
  | ipv4 a b c d =>
    refine iff_of_true ?_ trivial
    rw [Cut.takeWhile_of_not_mem (colon_not_mem_ipv4 a b c d), Escape.escape_eq_self_iff]
    intro x hx
    rcases isDigit_of_mem_ipv4 hx with rfl | hdigit
    · decide
    · exact keepHost_of_isAlnum (isAlnum_of_isDigit hdigit)
  | ipv6 s =>
    -- the address has a colon, and what is before the first one has none
    refine iff_of_false ?_ id
    intro heq
    have hcut : (58 : UInt8) ∉ (Address.ipv6 s).text.takeWhile (· ≠ 58) := by
      intro hmem
      exact absurd (List.mem_takeWhile_imp hmem) (by decide)
    have hnot : (58 : UInt8) ∉ Escape.escape 65 keepHost ((Address.ipv6 s).text.takeWhile (· ≠ 58)) :=
      isSeparator_colon.not_mem_escape (.inl rfl) hcut
    rw [heq] at hnot
    exact hnot (List.mem_append_left _ (List.mem_cons_of_mem 91 s.property.1))

/-! ## The path -/

/-- What `URL.String` writes for a path after a host. -/
def pathText (path : Bytes) : Bytes :=
  let escaped := if path = ascii "*" then ascii "*" else Escape.escape 65 keepPath path
  if escaped ≠ [] ∧ escaped.head? ≠ some 47 then 47 :: escaped else escaped

theorem isSeparator_slash : Escape.IsSeparator 47 := ⟨by decide, by decide⟩

theorem segments_escape (path : Bytes) : segments (Escape.escape 65 keepPath path) = (path.splitOn 47).map some := by
  rw [segments, Escape.escape_splitOn isSeparator_slash (.inl rfl) (by decide), List.map_map]
  exact List.map_congr_left fun s _ => Escape.unescape_escape (.inl rfl) (by decide) s

theorem pathText_nil : pathText [] = [] := by decide

theorem pathText_slash (s : Bytes) : pathText (47 :: s) = Escape.escape 65 keepPath (47 :: s) := by
  have hstar : (47 :: s : Bytes) ≠ ascii "*" := by
    intro h
    cases h
  unfold pathText
  dsimp only
  rw [if_neg hstar, if_neg]
  rintro ⟨-, hhead⟩
  exact hhead rfl

/-- There is a slash after the host. -/
theorem head_pathText {path : Bytes} (h : path ≠ []) : (pathText path).head? = some 47 := by
  unfold pathText
  dsimp only
  by_cases hstar : path = ascii "*"
  · rw [if_pos hstar]
    rfl
  · rw [if_neg hstar]
    by_cases hhead : (Escape.escape 65 keepPath path).head? = some 47
    · rw [if_neg fun hnot => hnot.2 hhead, hhead]
    · rw [if_pos ⟨Escape.escape_ne_nil h, hhead⟩]
      rfl

theorem pathText_bytes (path : Bytes) : ∀ b ∈ pathText path, b < 128 ∧ b ∉ ascii "?#" := by
  have hescaped : ∀ b ∈ if path = ascii "*" then ascii "*" else Escape.escape 65 keepPath path,
      b < 128 ∧ b ∉ ascii "?#" := by
    split
    · intro b hb
      obtain rfl : b = 42 := List.mem_singleton.mp hb
      decide
    · exact forall_mem_escape (fun b hb => ⟨keepPath_lt hb, not_mem_of_keep (by decide) hb⟩) (by decide) (by decide)
  unfold pathText
  dsimp only
  generalize (if path = ascii "*" then ascii "*" else Escape.escape 65 keepPath path) = escaped at hescaped ⊢
  split
  · exact List.forall_mem_cons.mpr ⟨by decide, hescaped⟩
  · exact hescaped

/-- A path whose first segment is empty starts with a slash, if there is another segment. -/
theorem head_of_segments {text path : Bytes} (h : segments path = segments text) (hpath : path.head? = some 47) :
    text.head? = some 47 := by
  obtain ⟨s, rfl⟩ := List.head?_eq_some_iff.mp hpath
  have hsplit : (47 :: s : Bytes).splitOn 47 = [] :: s.splitOn 47 :=
    List.splitOn_append_cons_self_of_not_mem List.not_mem_nil s
  rw [segments, hsplit, segments] at h
  by_cases hmem : 47 ∈ text
  · obtain ⟨l, r, rfl, hl⟩ := List.eq_append_cons_of_mem hmem
    rw [List.splitOn_append_cons_self_of_not_mem hl] at h
    obtain rfl := Escape.eq_nil_of_unescape (List.cons.inj h).1.symm
    rfl
  · rw [List.splitOn_eq_singleton hmem] at h
    have hnil := List.map_eq_nil_iff.mp (List.cons.inj h).2
    exact absurd hnil (List.splitOn_ne_nil 47 s)

theorem head_of_unescape {text path : Bytes} (h : Escape.unescape text = some path) (htext : text.head? = some 47) :
    path.head? = some 47 := by
  obtain ⟨s, rfl⟩ := List.head?_eq_some_iff.mp htext
  rw [Escape.unescape_cons (by decide)] at h
  obtain ⟨t, -, rfl⟩ := Option.map_eq_some_iff.mp h
  rfl

theorem segments_pathText_iff {text path : Bytes} (h : Escape.unescape text = some path) :
    segments (pathText path) = segments text ↔ PlainPath text := by
  by_cases hpath : path = []
  · subst hpath
    obtain rfl := Escape.eq_nil_of_unescape h
    refine iff_of_true rfl ⟨.inl rfl, ?_⟩
    intro part hpart s hs
    rw [List.splitOn_nil, List.mem_singleton] at hpart
    subst hpart
    cases hs
    exact List.not_mem_nil
  -- with a slash in front, the segments are those of the decoded path
  have hrooted : path.head? = some 47 → segments (pathText path) = (path.splitOn 47).map some := by
    intro hhead
    obtain ⟨s, rfl⟩ := List.head?_eq_some_iff.mp hhead
    rw [pathText_slash, segments_escape]
  constructor
  · intro heq
    have htext := head_of_segments heq (head_pathText hpath)
    rw [hrooted (head_of_unescape h htext)] at heq
    exact ⟨.inr htext, (Escape.splitOn_eq_iff isSeparator_slash h).mp heq⟩
  · rintro ⟨hroot, hslashes⟩
    rcases hroot with rfl | htext
    · cases h
      exact absurd rfl hpath
    · rw [hrooted (head_of_unescape h htext)]
      exact (Escape.splitOn_eq_iff isSeparator_slash h).mpr hslashes

/-! ## The query -/

theorem query_iff (query : Bytes) :
    (hexEscapeNonASCII query).takeWhile (· ≠ 35) = query ↔ PlainQuery query := by
  constructor
  · intro heq
    have hfragment : (35 : UInt8) ∉ query := by
      intro hmem
      rw [← heq] at hmem
      exact absurd (List.mem_takeWhile_imp hmem) (by decide)
    refine ⟨?_, hfragment⟩
    have hnot : (35 : UInt8) ∉ hexEscapeNonASCII query :=
      Escape.IsSeparator.not_mem_escape ⟨by decide, by decide⟩ (.inr rfl) hfragment
    rw [Cut.takeWhile_of_not_mem hnot] at heq
    intro b hb
    exact of_decide_eq_true (Escape.escape_eq_self_iff.mp heq b hb)
  · rintro ⟨hascii, hfragment⟩
    rw [hexEscape_ascii hascii, Cut.takeWhile_of_not_mem hfragment]

/-! ## The header -/

/-- The authority that the URL writes. -/
def authority (sslPort : Int64) (a : Address) : Bytes :=
  Escape.escape 65 keepHost (a.text.takeWhile (· ≠ 58)) ++ portSuffix sslPort

theorem authority_bytes (sslPort : Int64) (a : Address) : ∀ b ∈ authority sslPort a, b < 128 ∧ b ∉ ascii "/?#" := by
  have hkeep : ∀ b, keepHost b = true → b < 128 ∧ b ∉ ascii "/?#" := by
    intro b hb
    exact ⟨keepHost_lt hb, not_mem_of_keep (by decide) hb⟩
  intro b hb
  rcases List.mem_append.mp hb with hhost | hport
  · exact forall_mem_escape hkeep (by decide) (by decide) b hhost
  · exact hkeep b (keepHost_portSuffix sslPort b hport)

theorem string_eq {u : URL} (h : u.host ≠ []) :
    u.string = u.scheme ++ ascii ":" ++ ascii "//" ++ Escape.escape 65 keepHost u.host ++ pathText u.path ++
      (if u.rawQuery ≠ [] then 63 :: u.rawQuery else []) := by
  have hpath : (if u.escapedPath ≠ [] ∧ u.escapedPath.head? ≠ some 47 ∧ u.host ≠ [] then 47 :: u.escapedPath
      else u.escapedPath) = pathText u.path := by
    simp only [h, ne_eq, not_false_eq_true, and_true]
    rfl
  rw [URL.string, if_pos (.inl h), hpath]

theorem hexEscape_query (query : Bytes) :
    hexEscapeNonASCII (if query ≠ [] then 63 :: query else []) =
      if hexEscapeNonASCII query ≠ [] then 63 :: hexEscapeNonASCII query else [] := by
  by_cases h : query = []
  · subst h
    rfl
  · have hne : hexEscapeNonASCII query ≠ [] := Escape.escape_ne_nil h
    rw [if_pos h, if_pos hne]
    rfl

theorem redirect_eq (sslPort : Int64) (r : Incoming) :
    redirect sslPort r.request =
      ascii "https://" ++ (authority sslPort r.address ++ (pathText r.path ++
        if hexEscapeNonASCII r.query ≠ [] then 63 :: hexEscapeNonASCII r.query else [])) := by
  have hhost : r.address.text.takeWhile (· ≠ 58) ++ portSuffix sslPort ≠ [] := by
    intro hnil
    exact takeWhile_text_ne_nil r.address (List.append_eq_nil_iff.mp hnil).1
  have hauthority : Escape.escape 65 keepHost (r.address.text.takeWhile (· ≠ 58) ++ portSuffix sslPort) =
      authority sslPort r.address := by
    rw [Escape.escape_append, Escape.escape_eq_self (keepHost_portSuffix sslPort)]
    rfl
  rw [redirect, tlsAddr_eq, string_eq hhost]
  dsimp only
  -- only the query may have bytes that are not ASCII
  rw [hauthority, hexEscape_append, hexEscape_append, hexEscape_append,
    hexEscape_ascii fun b hb => (authority_bytes sslPort r.address b hb).1,
    hexEscape_ascii fun b hb => (pathText_bytes r.request.path b hb).1, hexEscape_query, List.append_assoc,
    List.append_assoc]
  rfl

/-- What is read from a reference of known parts. -/
theorem read_append {auth path query : Bytes} (hauth : ∀ b ∈ auth, b ∉ ascii "/?#")
    (hslash : path ≠ [] → path.head? = some 47) (hpath : ∀ b ∈ path, b ∉ ascii "?#") :
    Reference.read (ascii "https://" ++ (auth ++ (path ++ if query ≠ [] then 63 :: query else []))) =
      some ⟨auth, path, query.takeWhile (· ≠ 35)⟩ := by
  generalize hrest : (if query ≠ [] then 63 :: query else [] : Bytes) = rest
  have hhead : ∀ b, rest.head? = some b → b = 63 := by
    intro b hb
    rw [← hrest] at hb
    split at hb
    · exact (Option.some.inj hb).symm
    · cases hb
  have hend : ∀ b, (path ++ rest).head? = some b → b ∈ ascii "/?#" := by
    intro b hb
    by_cases hnil : path = []
    · rw [hnil, List.nil_append] at hb
      rw [hhead b hb]
      decide
    · rw [List.head?_append, hslash hnil] at hb
      cases hb
      decide
  have hquery : ∀ b, rest.head? = some b → b ∈ ascii "?#" := by
    intro b hb
    rw [hhead b hb]
    decide
  rw [Reference.read, if_pos (by rfl)]
  show some (Reference.parts (auth ++ (path ++ rest))) = _
  unfold Reference.parts
  dsimp only
  rw [Cut.takeWhile_append_of_head (by simpa using hauth) (by simpa using hend),
    Cut.dropWhile_append_of_head (by simpa using hauth) (by simpa using hend),
    Cut.takeWhile_append_of_head (by simpa using hpath) (by simpa using hquery),
    Cut.dropWhile_append_of_head (by simpa using hpath) (by simpa using hquery), ← hrest]
  by_cases hnil : query = []
  · subst hnil
    rfl
  · rw [if_pos hnil]
    rfl

/-- **Redirects.** For every request with a valid host and every port of the configuration: the client reads the same
host with that port, the same path and the same query, exactly if the host is not in brackets and has no escape, the
path starts with a slash or is empty and has no slash written as an escape, and the query is ASCII without a `#`. -/
theorem redirect_kept_iff (sslPort : Int64) (r : Incoming) :
    Kept sslPort r ↔ r.address.Plain ∧ PlainPath r.text ∧ PlainQuery r.query := by
  have hslash : pathText r.path ≠ [] → (pathText r.path).head? = some 47 := by
    intro hne
    refine head_pathText fun hnil => hne ?_
    rw [hnil, pathText_nil]
  have hread : Reference.read (redirect sslPort r.request) =
      some ⟨authority sslPort r.address, pathText r.path, (hexEscapeNonASCII r.query).takeWhile (· ≠ 35)⟩ := by
    rw [redirect_eq]
    exact read_append (fun b hb => (authority_bytes sslPort r.address b hb).2) hslash
      fun b hb => (pathText_bytes r.path b hb).2
  have hauthority : authority sslPort r.address = r.address.text ++ portSuffix sslPort ↔ r.address.Plain := by
    rw [authority, List.append_cancel_right_eq, escape_host_iff]
  rw [← hauthority, ← segments_pathText_iff r.decoded, ← query_iff]
  constructor
  · rintro ⟨ref, href, hsame⟩
    rw [hread] at href
    cases href
    exact ⟨hsame.authority, hsame.path, hsame.query⟩
  · rintro ⟨hhost, hpath, hquery⟩
    exact ⟨_, hread, hhost, hpath, hquery⟩

/-- A request for `/` with the host `[::1]:8080`. -/
def loopback : Incoming where
  address := .ipv6 ⟨ascii "::1", by decide, List.all_eq_true.mp (by decide)⟩
  port := some ⟨ascii "8080", by decide⟩
  text := ascii "/"
  path := ascii "/"
  decoded := by decide
  query := []

/-- The request is sent to the host `[`. -/
theorem redirect_loses_ipv6 :
    loopback.request.host = ascii "[::1]:8080" ∧ redirect 443 loopback.request = ascii "https://[/" ∧
      ¬ Kept 443 loopback := by
  refine ⟨by decide, by decide, ?_⟩
  rintro ⟨ref, href, hsame⟩
  have hread : some ref = some ⟨ascii "[", ascii "/", []⟩ := by
    rw [← href]
    decide
  cases hread
  exact absurd hsame.authority (by decide)

end RoadRunner.Http.Redirect
