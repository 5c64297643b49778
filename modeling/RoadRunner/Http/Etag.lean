import RoadRunner.Http.Static
import RoadRunner.Lib.Decimal

/-!
# ETags of static files

The digit loop of `appendUint` on its buffer of 20 bytes, where an index outside of the buffer is a panic, and what
follows for the ETags that `SetEtag` sets.

* `digitLoop_eq`: the loop fills the buffer from the right, and does not leave it if there is room for the digits.
* `etag_strong`: the ETag of a content, and when two contents have the same one.
-/

namespace RoadRunner.Http.Static

/-! ## The buffer -/

/-- `buf[i] = b`. -/
def store (buf : Bytes) (i : Int) (b : UInt8) : Option Bytes :=
  if 0 ≤ i ∧ i < buf.length then some (buf.set i.toNat b) else none

/-- The loop of `appendUint` and the digit after it; the result is `buf[i:]`. -/
def digitLoop (buf : Bytes) (i : Int) (n : UInt32) : Option Bytes :=
  if h : 10 ≤ n then
    let q := n / 10
    match store buf (i - 1) (48 + (n - q * 10).toUInt8) with
    | none => none
    | some buf => digitLoop buf (i - 1) q
  else (store buf (i - 1) (48 + n.toUInt8)).map fun buf => buf.drop (i - 1).toNat
termination_by n.toNat
decreasing_by
  rw [UInt32.le_iff_toNat_le] at h
  rw [UInt32.toNat_div]
  exact Nat.div_lt_self (Nat.lt_of_lt_of_le (by decide) h) (by decide)

/-- `appendUint`. -/
def appendUintBuf (dst : Bytes) (n : UInt32) : Option Bytes :=
  (digitLoop (List.replicate 20 0) 20 n).map (dst ++ ·)

/-- `SetEtag`. -/
def setEtagBuf (crc32 : Bytes → UInt32) (weak : Bool) (f : File) (name : Bytes) (w : Header) : Option Header :=
  if weak then do
    let tag ← appendUintBuf (ascii "W/" ++ ascii "\"") (crc32 name)
    return setHeader w (ascii "Etag") (tag ++ ascii "\"")
  else
    match f.readAll with
    | none | some [] => some w
    | some body => do
      let tag ← appendUintBuf (ascii "\"") body.length.toUInt32
      let tag ← appendUintBuf (tag ++ ascii "-") (crc32 body)
      return setHeader w (ascii "Etag") (tag ++ ascii "\"")

theorem store_of_lt {buf : Bytes} {i : Nat} (h : i < buf.length) (b : UInt8) :
    store buf ((i + 1 : Nat) - 1) b = some (buf.set i b) := by
  rw [store, if_pos (by omega)]
  congr
  omega

/-- The last digit, as the source computes it. -/
theorem digit_eq {n : UInt32} : 48 + (n - n / 10 * 10).toUInt8 = UInt8.ofNat (48 + n.toNat % 10) := by
  have hle : n / 10 * 10 ≤ n := by
    rw [UInt32.le_iff_toNat_le, UInt32.toNat_mul, UInt32.toNat_div]
    exact (Nat.mod_le _ _).trans (Nat.div_mul_le_self _ _)
  apply UInt8.toNat_inj.mp
  have hlt := n.toNat_lt
  rw [Decimal.digit_toNat (by omega), UInt8.toNat_add, UInt32.toNat_toUInt8, UInt32.toNat_sub_of_le _ _ hle,
    UInt32.toNat_mul, UInt32.toNat_div]
  simp
  omega

/-- **The digit loop.** With room for the digits to the left of `i`, it writes them there. -/
theorem digitLoop_eq {buf : Bytes} {i : Nat} {n : UInt32} (hroom : (Decimal.digits n.toNat).length ≤ i)
    (hi : i ≤ buf.length) : digitLoop buf i n = some (Decimal.digits n.toNat ++ buf.drop i) := by
  induction hn : n.toNat using Nat.strongRecOn generalizing buf i n with
  | ind m ih =>
    subst hn
    obtain ⟨i, rfl⟩ : ∃ k, i = k + 1 :=
      Nat.exists_eq_add_one_of_ne_zero fun h0 => Decimal.digits_ne_nil n.toNat (by simpa [h0] using hroom)
    have hset : ∀ b : UInt8, (buf.set i b).drop i = b :: buf.drop (i + 1) := by
      intro b
      rw [List.drop_eq_getElem_cons (by simpa using Nat.lt_of_succ_le hi), List.getElem_set_self, List.drop_set,
        if_pos (by omega)]
    rw [digitLoop]
    by_cases h : 10 ≤ n
    · have hten : 10 ≤ n.toNat := UInt32.le_iff_toNat_le.mp h
      have hdiv : (n / 10).toNat = n.toNat / 10 := UInt32.toNat_div n 10
      rw [Decimal.digits_of_ten_le hten, List.length_append, List.length_singleton] at hroom
      have hrest : digitLoop (buf.set i (UInt8.ofNat (48 + n.toNat % 10))) i (n / 10) =
          some (Decimal.digits (n.toNat / 10) ++ (buf.set i (UInt8.ofNat (48 + n.toNat % 10))).drop i) :=
        ih (n.toNat / 10) (by omega) (by rw [hdiv]; omega) (by simp; omega) hdiv
      rw [dif_pos h]
      dsimp only
      rw [store_of_lt hi, digit_eq]
      dsimp only
      rw [show ((i + 1 : Nat) : Int) - 1 = i by omega, hrest, hset, Decimal.digits_of_ten_le hten, List.append_assoc]
      rfl
    · have hlt : n.toNat < 10 := by
        rw [UInt32.le_iff_toNat_le] at h
        exact Nat.not_le.mp h
      have hbyte : 48 + n.toUInt8 = UInt8.ofNat (48 + n.toNat) := by
        apply UInt8.toNat_inj.mp
        rw [Decimal.digit_toNat hlt, UInt8.toNat_add, UInt32.toNat_toUInt8]
        simp
        omega
      rw [dif_neg h, store_of_lt hi, Option.map_some, show (((i + 1 : Nat) : Int) - 1).toNat = i by omega, hset,
        Decimal.digits_of_lt_ten hlt, hbyte]
      rfl

theorem appendUintBuf_eq (dst : Bytes) (n : UInt32) : appendUintBuf dst n = some (dst ++ Decimal.digits n.toNat) := by
  have hroom : (Decimal.digits n.toNat).length ≤ 20 :=
    Decimal.length_digits_le (by omega) (Nat.lt_of_lt_of_le n.toNat_lt (by omega))
  have hloop : digitLoop (List.replicate 20 0) 20 n = some (Decimal.digits n.toNat ++ []) :=
    digitLoop_eq hroom (by simp)
  rw [appendUintBuf, hloop, List.append_nil]
  rfl

/-! ## ETags -/

theorem appendUint_eq (dst : Bytes) (n : Nat) : appendUint dst n = dst ++ Decimal.digits n := by
  fun_induction appendUint dst n with
  | case1 n h => rw [Decimal.digits_of_lt_ten h]
  | case2 n h ih => rw [ih, Decimal.digits_of_ten_le (Nat.not_lt.mp h), List.append_assoc]

/-- `SetEtag` does not panic, and sets what `setEtag` sets. -/
theorem setEtagBuf_eq (crc32 : Bytes → UInt32) (weak : Bool) (f : File) (name : Bytes) (w : Header) :
    setEtagBuf crc32 weak f name w = some (setEtag crc32 weak f name w) := by
  unfold setEtagBuf setEtag
  simp only [appendUintBuf_eq, appendUint_eq]
  cases weak with
  | true => rfl
  | false =>
    cases hread : f.readAll with
    | none => rfl
    | some body =>
      cases body with
      | nil => rfl
      | cons b bs => rfl

theorem values_setHeader (w : Header) (v : Bytes) :
    (setHeader w (ascii "Etag") v).values (ascii "Etag") = [v] := by
  have hkey : canonicalKey (ascii "Etag") = ascii "Etag" := by decide +kernel
  have hold : (w.filter fun e => e.1 ≠ ascii "Etag").lookup (ascii "Etag") = none := by
    rw [List.lookup_eq_none_iff]
    intro e he
    have hne : e.1 ≠ ascii "Etag" := of_decide_eq_true (List.mem_filter.mp he).2
    exact bne_iff_ne.mpr hne.symm
  rw [setHeader, hkey, setEntry, Header.values, List.lookup_append, hold]
  simp

/-- A content with an ETag: it is not empty, and its length has 32 bits. -/
abbrev Content := { body : Bytes // body ≠ [] ∧ body.length < 2 ^ 32 }

/-- The text of a strong ETag. -/
def strongEtag (len sum : Nat) : Bytes :=
  ascii "\"" ++ Decimal.digits len ++ ascii "-" ++ Decimal.digits sum ++ ascii "\""

theorem values_setEtag (crc32 : Bytes → UInt32) {f : File} {body : Content} (hread : f.readAll = some body.val)
    (name : Bytes) (w : Header) :
    (setEtag crc32 false f name w).values (ascii "Etag") =
      [strongEtag body.val.length (crc32 body.val).toNat] := by
  obtain ⟨body, hne, hlen⟩ := body
  obtain ⟨b, bs, rfl⟩ := List.exists_cons_of_ne_nil hne
  have hnat : (b :: bs).length.toUInt32.toNat = (b :: bs).length := by
    rw [Nat.toUInt32, UInt32.toNat_ofNat']
    exact Nat.mod_eq_of_lt hlen
  simp only [setEtag, hread, hnat, appendUint_eq]
  exact values_setHeader w _

theorem dash_not_mem_digits (n : Nat) : 45 ∉ Decimal.digits n := by
  intro h
  exact absurd ((Decimal.canonical_digits n).digits 45 h) (by decide)

theorem digits_inj {m n : Nat} (h : Decimal.digits m = Decimal.digits n) : m = n := by
  rw [← Decimal.value_digits m, h, Decimal.value_digits]

/-- The two numbers can be read off the text. -/
theorem strongEtag_inj {len sum len' sum' : Nat} (h : strongEtag len sum = strongEtag len' sum') :
    len = len' ∧ sum = sum' := by
  simp only [strongEtag, List.append_assoc] at h
  have htail : Decimal.digits len ++ 45 :: (Decimal.digits sum ++ ascii "\"") =
      Decimal.digits len' ++ 45 :: (Decimal.digits sum' ++ ascii "\"") := List.append_cancel_left h
  have hquote : 45 ∉ Decimal.digits sum ++ ascii "\"" := by
    rw [List.mem_append, not_or]
    exact ⟨dash_not_mem_digits sum, by decide⟩
  obtain ⟨hlen, -, hsum⟩ := (List.append_cons_inj_of_notMem (dash_not_mem_digits len) hquote).mp htail
  exact ⟨digits_inj hlen, digits_inj (List.append_cancel_right hsum)⟩

/-- **Strong ETags.** For every content `SetEtag` does not leave its digit buffer and sets a quote, the canonical
decimal of the length, `-`, the canonical decimal of the checksum and a quote; two contents get the same ETag exactly
if their lengths and their checksums agree. -/
theorem etag_strong (crc32 : Bytes → UInt32) (a b : Content) (f g : File) (hf : f.readAll = some a.val)
    (hg : g.readAll = some b.val) (nameF nameG : Bytes) (w v : Header) :
    ∃ hdrF hdrG, setEtagBuf crc32 false f nameF w = some hdrF ∧ setEtagBuf crc32 false g nameG v = some hdrG ∧
      (∃ len sum, Decimal.Canonical a.val.length len ∧ Decimal.Canonical (crc32 a.val).toNat sum ∧
        hdrF.values (ascii "Etag") = [ascii "\"" ++ len ++ ascii "-" ++ sum ++ ascii "\""]) ∧
      (hdrF.values (ascii "Etag") = hdrG.values (ascii "Etag") ↔
        a.val.length = b.val.length ∧ crc32 a.val = crc32 b.val) := by
  refine ⟨_, _, setEtagBuf_eq .., setEtagBuf_eq .., ?_, ?_⟩
  · exact ⟨_, _, Decimal.canonical_digits _, Decimal.canonical_digits _, values_setEtag crc32 hf nameF w⟩
  · rw [values_setEtag crc32 hf, values_setEtag crc32 hg]
    constructor
    · intro h
      obtain ⟨hlen, hsum⟩ := strongEtag_inj (List.singleton_inj.mp h)
      exact ⟨hlen, UInt32.toNat_inj.mp hsum⟩
    · rintro ⟨hlen, hsum⟩
      rw [hlen, hsum]

/-- Two files of one byte, with the byte as checksum. -/
theorem etag_of_one_byte :
    let file (b : UInt8) : File := ⟨none, some [b]⟩
    let crc32 (body : Bytes) : UInt32 := (body.headD 0).toUInt32
    ∃ hdrF hdrG, setEtagBuf crc32 false (file 1) [] [] = some hdrF ∧ setEtagBuf crc32 false (file 2) [] [] = some hdrG ∧
      hdrF.values (ascii "Etag") ≠ hdrG.values (ascii "Etag") := by
  intro file crc32
  obtain ⟨hdrF, hdrG, hF, hG, -, hiff⟩ :=
    etag_strong crc32 ⟨[1], by simp⟩ ⟨[2], by simp⟩ (file 1) (file 2) rfl rfl [] [] [] []
  exact ⟨hdrF, hdrG, hF, hG, fun h => absurd (hiff.mp h).2 (by decide)⟩

end RoadRunner.Http.Static
