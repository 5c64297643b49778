import RoadRunner.Http.Leak

/-!
# The limit of the size of a request

`max_request_size` is a number of megabytes. `NewHandler` makes it a number of bytes, which wraps around, and
`ServeHTTP` compares it, as a signed number, with the `Content-Length` header. A body that comes in chunks has no such
header, and the readers of `request` do not know the limit.

* `enforced_iff`: when this holds.
-/

namespace RoadRunner.Http

/-! ## Bodies and limits -/

/-- A call of `ServeHTTP`, with the length of the body. A declared length is the one that `net/http` reads, and what
`io.ReadAll` returns without an error is the body. -/
structure Sized where
  x : Served
  length : Nat
  declared : ∀ n, parseInt (x.r.header.first "Content-Length") = some n → n.toInt = length
  read : x.r.readAll.2 = none → x.r.readAll.1.length = length

/-- `m` megabytes, in bytes. -/
def limit (m : UInt64) : Nat := m.toNat * 2 ^ 20

namespace Config

/-- The settings with a limit of `m` megabytes. -/
def limited (cfg : Config) (m : UInt64) : Config := { cfg with maxRequestSize := maxBytes m }

/-- The settings without a limit. -/
def unlimited (cfg : Config) : Config := { cfg with maxRequestSize := 0 }

end Config

/-- The errors of `ParseForm` and `ParseMultipartForm` for a form that is larger than `net/http` allows, by their
texts. -/
def formTooLarge : List Err := [.lib "http: POST too large", .lib "multipart: message too large"]

/-- The request is turned away for its size. -/
def End.TooLarge : End → Prop
  | .rejected .tooLarge => True
  | .requestFailed err => err ∈ formTooLarge
  | _ => False

/-- The limit of `m` megabytes holds for a call. -/
def Enforced (cfg : Config) (m : UInt64) (h : Handler) (s : Sized) : Prop :=
  (limit m < s.length → h.sent (cfg.limited m) s.x = none) ∧
    (s.length ≤ limit m → ¬ (h.serveHTTP (cfg.limited m) s.x).1.TooLarge)

/-! ## The limit in bytes -/

theorem mb_toNat : mb.toNat = 2 ^ 20 := by decide +kernel

/-- The bytes of a limit, as a signed number, are right if they fit. -/
theorem maxBytes_toInt {m : UInt64} (hfits : limit m < 2 ^ 63) : (maxBytes m).toInt64.toInt = limit m := by
  have hnat : (maxBytes m).toNat = limit m := by
    rw [maxBytes, UInt64.toNat_mul, mb_toNat]
    exact Nat.mod_eq_of_lt (by unfold limit at hfits; omega)
  have hlt : 2 * (maxBytes m).toBitVec.toNat < 2 ^ 64 := by
    rw [UInt64.toNat_toBitVec, hnat]
    omega
  rw [Int64.toInt, UInt64.toBitVec_toInt64, BitVec.toInt_eq_toNat_of_lt hlt, UInt64.toNat_toBitVec, hnat]

/-! ## The check -/

section

variable {cfg : Config} {m : UInt64} {h : Handler} {s : Sized}

/-- Without a header nothing is checked, and a limit that wraps around to zero is none. -/
theorem reject_of_unchecked (h : ¬ (s.x.r.header.first "Content-Length" ≠ [] ∧ maxBytes m ≠ 0)) :
    (cfg.limited m).reject s.x.r = none := by
  unfold Config.reject
  rw [if_neg fun hc => h ⟨hc.2, hc.1⟩]

theorem reject_of_declared (hlength : s.x.r.header.first "Content-Length" ≠ []) (hm : maxBytes m ≠ 0) {n : Int64}
    (hn : parseInt (s.x.r.header.first "Content-Length") = some n) :
    (cfg.limited m).reject s.x.r =
      if (maxBytes m).toInt64.toInt < s.length then some .tooLarge else none := by
  unfold Config.reject
  rw [if_pos ⟨hm, hlength⟩, hn, ← s.declared n hn]
  exact if_congr Int64.lt_iff_toInt_lt rfl rfl

theorem reject_of_malformed (hlength : s.x.r.header.first "Content-Length" ≠ []) (hm : maxBytes m ≠ 0)
    (hn : parseInt (s.x.r.header.first "Content-Length") = none) :
    (cfg.limited m).reject s.x.r = some .badLength := by
  unfold Config.reject
  rw [if_pos ⟨hm, hlength⟩, hn]

/-- The limit is not read elsewhere. It is a variable here: two limits that are terms would be evaluated. -/
theorem serveHTTP_limit (cfg : Config) (h : Handler) (x : Served) {a b : UInt64}
    (ha : { cfg with maxRequestSize := a }.reject x.r = none)
    (hb : { cfg with maxRequestSize := b }.reject x.r = none) :
    h.serveHTTP { cfg with maxRequestSize := a } x = h.serveHTTP { cfg with maxRequestSize := b } x := by
  unfold Handler.serveHTTP
  rw [ha, hb]
  rfl

/-- A request that passes the check is served as without a limit. -/
theorem serveHTTP_of_passes (hpass : (cfg.limited m).reject s.x.r = none) :
    h.serveHTTP (cfg.limited m) s.x = h.serveHTTP cfg.unlimited s.x := by
  have hfree : cfg.unlimited.reject s.x.r = none := by
    unfold Config.reject
    rw [if_neg fun hc => hc.1 rfl]
  exact serveHTTP_limit cfg h s.x hpass hfree

theorem serveHTTP_of_rejected {why : Config.Rejection} (hwhy : (cfg.limited m).reject s.x.r = some why) :
    h.serveHTTP (cfg.limited m) s.x = (.rejected why, none, h) := by
  rw [Handler.serveHTTP, hwhy]

/-- A body that is longer than the limit, with a header: it is turned away, for the header declares the length. -/
theorem rejected_of_longer (hlonger : limit m < s.length)
    (hlength : s.x.r.header.first "Content-Length" ≠ []) (hbytes : maxBytes m ≠ 0) :
    (cfg.limited m).reject s.x.r ≠ none := by
  cases hn : parseInt (s.x.r.header.first "Content-Length") with
  | none => simp [reject_of_malformed hlength hbytes hn]
  | some n =>
    -- the declared length is below 2 ^ 63, so the limit is, and its bytes do not wrap around
    have hlt : n.toInt < 2 ^ 63 := n.toInt_lt
    have hfits : limit m < 2 ^ 63 := by
      have := s.declared n hn
      omega
    rw [reject_of_declared hlength hbytes hn, maxBytes_toInt hfits, if_pos (by omega)]
    exact Option.some_ne_none _

/-- The first half of `Enforced`. -/
theorem unsent_iff (hlonger : limit m < s.length) :
    h.sent (cfg.limited m) s.x = none ↔
      s.x.r.header.first "Content-Length" ≠ [] ∧ maxBytes m ≠ 0 ∨ h.sent cfg.unlimited s.x = none := by
  by_cases hchecked : s.x.r.header.first "Content-Length" ≠ [] ∧ maxBytes m ≠ 0
  · obtain ⟨why, hwhy⟩ := Option.ne_none_iff_exists'.mp (rejected_of_longer hlonger hchecked.1 hchecked.2)
    rw [Handler.sent, serveHTTP_of_rejected hwhy]
    exact iff_of_true rfl (.inl hchecked)
  · rw [Handler.sent, serveHTTP_of_passes (reject_of_unchecked hchecked)]
    exact (or_iff_right hchecked).symm

/-- The second half of `Enforced`. -/
theorem not_tooLarge_iff :
    ¬ (h.serveHTTP (cfg.limited m) s.x).1.TooLarge ↔
      (cfg.limited m).reject s.x.r = some .badLength ∨
        (s.x.r.header.first "Content-Length" ≠ [] → maxBytes m ≠ 0 →
            (s.length : Int) ≤ (maxBytes m).toInt64.toInt) ∧
          ¬ (h.serveHTTP cfg.unlimited s.x).1.TooLarge := by
  by_cases hchecked : s.x.r.header.first "Content-Length" ≠ [] ∧ maxBytes m ≠ 0
  · cases hn : parseInt (s.x.r.header.first "Content-Length") with
    | none =>
      have hbad : (cfg.limited m).reject s.x.r = some .badLength :=
        reject_of_malformed hchecked.1 hchecked.2 hn
      rw [serveHTTP_of_rejected hbad]
      exact iff_of_true id (.inl hbad)
    | some n =>
      have hreject : (cfg.limited m).reject s.x.r = _ := reject_of_declared hchecked.1 hchecked.2 hn
      by_cases hlarge : (maxBytes m).toInt64.toInt < s.length
      · rw [if_pos hlarge] at hreject
        rw [serveHTTP_of_rejected hreject, hreject]
        refine iff_of_false (fun h => h trivial) ?_
        rintro (hbad | ⟨hsmall, -⟩)
        · cases hbad
        · exact absurd (hsmall hchecked.1 hchecked.2) (by omega)
      · rw [if_neg hlarge] at hreject
        rw [serveHTTP_of_passes hreject, hreject]
        simp only [reduceCtorEq, false_or]
        exact (and_iff_right fun _ _ => by omega).symm
  · have hpass : (cfg.limited m).reject s.x.r = none := reject_of_unchecked hchecked
    rw [serveHTTP_of_passes hpass, hpass]
    simp only [reduceCtorEq, false_or]
    exact (and_iff_right fun hlength hbytes => absurd ⟨hlength, hbytes⟩ hchecked).symm

end

/-- **The limit is enforced.** For a limit of `m` megabytes, a handler with any idle objects and any request: this is so
if and only if a longer body comes with a `Content-Length` header and the bytes of the limit do not wrap around to zero,
or it is not sent for another reason; and the declared length of a body that is not longer is at most the bytes of the
limit, as they wrap around, and the body is no form that is too large for `net/http`. -/
theorem enforced_iff (cfg : Config) (m : UInt64) (h : Handler) (s : Sized) :
    Enforced cfg m h s ↔
      (limit m < s.length →
        s.x.r.header.first "Content-Length" ≠ [] ∧ maxBytes m ≠ 0 ∨ h.sent cfg.unlimited s.x = none) ∧
      (s.length ≤ limit m →
        (cfg.limited m).reject s.x.r = some .badLength ∨
          (s.x.r.header.first "Content-Length" ≠ [] → maxBytes m ≠ 0 →
              (s.length : Int) ≤ (maxBytes m).toInt64.toInt) ∧
            ¬ (h.serveHTTP cfg.unlimited s.x).1.TooLarge) :=
  and_congr (imp_congr_right unsent_iff) (imp_congr_right fun _ => not_tooLarge_iff)

/-- A post in chunks, of one byte more than a megabyte. -/
def chunked : Sized where
  x := { r := { method := ascii "POST", readAll := (List.replicate (2 ^ 20 + 1) 97, none) } }
  length := 2 ^ 20 + 1
  declared n h := by cases h
  read _ := List.length_replicate

/-- A post of five bytes, with its length. -/
def declared : Sized where
  x :=
    { r :=
        { method := ascii "POST"
          header := [(ascii "Content-Length", [ascii "5"])]
          readAll := (ascii "hello", none) } }
  length := 5
  declared n h := by
    cases h
    decide +kernel
  read _ := rfl

/-- With a limit of one megabyte, chunks of more than a megabyte are sent. A limit of `2 ^ 43` megabytes is negative,
and five bytes are turned away. -/
theorem limit_missed :
    ¬ Enforced sampleConfig 1 newHandler chunked ∧ ¬ Enforced sampleConfig (2 ^ 43) newHandler declared := by
  constructor
  · rintro ⟨hunsent, -⟩
    -- the body is not evaluated here
    have hsome : (newHandler.sent (sampleConfig.limited 1) chunked.x).isSome := rfl
    rw [hunsent (by decide +kernel)] at hsome
    cases hsome
  · rintro ⟨-, hkept⟩
    have hreject : (sampleConfig.limited (2 ^ 43)).reject declared.x.r = some .tooLarge := by decide +kernel
    apply hkept (by decide +kernel)
    rw [serveHTTP_of_rejected hreject]
    trivial

end RoadRunner.Http
