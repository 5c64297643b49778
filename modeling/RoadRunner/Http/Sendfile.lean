import RoadRunner.Basic

/-!
# X-Sendfile

The model of `http/middleware/send`. The file is what `Stat`, `OpenFile` and `ReadAt` say; `ReadAt`
fills the buffer, or returns less together with `io.EOF`. The loop has a fuel argument, since it need not
end: an empty file has an empty buffer, which is always filled.

* `readAt`, `sendLoop`, `serve`: the call, the loop and the handler.
* `serve_content_iff`: for which sizes these are all of the content.
* `serve_ends_iff`: the handler ends for every file but an empty one.

The header fields that the handler sets on the request after the loop are left out, as is flushing.
-/

namespace RoadRunner.Http.Sendfile

/-- `bufSize`. -/
def bufSize : Nat := 10 * 1024 * 1024

/-- The size of the buffer for a file. -/
def bufLen (size : Nat) : Nat := if size < bufSize then size else bufSize

/-- The response: the status once it has been sent, and the body. -/
structure Response where
  status : Option Nat := none
  body : Bytes := []
  deriving DecidableEq

namespace Response

/-- `WriteHeader`. Only the first call counts. -/
def writeHeader (w : Response) (code : Nat) : Response := { w with status := w.status.or (some code) }

/-- `Write`. -/
def write (w : Response) (data : Bytes) : Response :=
  { w.writeHeader 200 with body := w.body ++ data }

/-- `http.Error`. -/
def error (w : Response) (text : Bytes) (code : Nat) : Response :=
  (w.writeHeader code).write (text ++ [10])

end Response

/-- The file under a path. -/
structure File where
  /-- The size that `Stat` returns, if it returns no error. -/
  stat : Option Nat
  /-- `OpenFile`: the content, or the text of an error. -/
  openFile : Except Bytes Bytes
  /-- The text of the error of the `i`-th `ReadAt`, if it returns one other than `io.EOF`. -/
  readError : Nat → Option Bytes := fun _ => none
  /-- The `i`-th `Write` fails. -/
  writeError : Nat → Bool := fun _ => false

/-- A file that can be read. -/
def File.regular (content : Bytes) : File := { stat := some content.length, openFile := .ok content }

/-- `ReadAt` of `len` bytes from `off` on, with whether it returns `io.EOF`. -/
def readAt (content : Bytes) (len off : Nat) : Bytes × Bool :=
  let data := (content.drop off).take len
  (data, data.length < len)

/-- The loop, at its `i`-th iteration with a buffer of `len` bytes. -/
def sendLoop (file : File) (content : Bytes) : Nat → Nat → Nat → Nat → Response → Option Response
  | 0, _, _, _, _ => none
  | fuel + 1, i, len, off, w =>
    match file.readError i with
    | some text => some (w.error text 500)
    | none =>
      let (data, eof) := readAt content len off
      if eof then some w
      else if file.writeError i then some w
      else sendLoop file content fuel (i + 1) data.length (off + data.length) (w.write data)

/-- The handler for the value `path` of the `X-Sendfile` field. The outer `none` is a loop that does not
end within the fuel, the inner one a request that is passed on. -/
def serve (fuel : Nat) (path : Bytes) (file : File) : Option (Option Response) :=
  if path = [] then some none
  else if ascii ".." <:+: path then some (some (Response.writeHeader {} 403))
  else match file.stat with
    | none => some (some (Response.error {} (ascii "not found") 404))
    | some size =>
      match file.openFile with
      | .error text => some (some (Response.error {} text 500))
      | .ok content =>
        (sendLoop file content fuel 0 (bufLen size) 0 {}).map some

/-- With a buffer that is not empty the loop ends, and it has written the content up to the last chunk
that fills the buffer. -/
theorem sendLoop_body {content : Bytes} {len : Nat} (hlen : 0 < len) {fuel i off : Nat} {w : Response}
    (hfuel : (content.length - off) / len < fuel) :
    ∃ w', sendLoop (File.regular content) content fuel i len off w = some w' ∧
      w'.body = w.body ++ (content.drop off).take (len * ((content.length - off) / len)) := by
  induction fuel generalizing i off w with
  | zero => exact absurd hfuel (Nat.not_lt_zero _)
  | succ fuel ih =>
    have hread : ((content.drop off).take len).length = min len (content.length - off) := by simp
    by_cases heof : content.length - off < len
    · -- less than a buffer is left
      have hshort : ((content.drop off).take len).length < len := by
        rw [hread]
        omega
      refine ⟨w, ?_, ?_⟩
      · simp only [sendLoop, File.regular, readAt, hshort, decide_true, ↓reduceIte]
      · rw [Nat.div_eq_of_lt heof, Nat.mul_zero, List.take_zero, List.append_nil]
    · have hle : len ≤ content.length - off := Nat.le_of_not_lt heof
      have hfull : ((content.drop off).take len).length = len := by rw [hread, Nat.min_eq_left hle]
      have hdiv : (content.length - off) / len = (content.length - (off + len)) / len + 1 := by
        rw [← Nat.sub_sub, Nat.div_eq_sub_div hlen hle]
      obtain ⟨w', hw', hbody⟩ := @ih (i + 1) (off + len) (w.write ((content.drop off).take len)) (by omega)
      refine ⟨w', ?_, ?_⟩
      · rw [← hw', sendLoop]
        simp [File.regular, readAt, hfull]
      · rw [hbody, hdiv, Nat.mul_add, Nat.mul_one, Nat.add_comm (len * _), List.take_add, List.drop_drop,
          Response.write, List.append_assoc]

/-- The buffer for a file that is not empty has room. -/
theorem bufLen_pos {content : Bytes} (hcontent : content ≠ []) : 0 < bufLen content.length := by
  unfold bufLen
  split
  · exact List.length_pos_iff.mpr hcontent
  · decide

theorem serve_body {path content : Bytes} (hpath : path ≠ []) (hdots : ¬ ascii ".." <:+: path)
    (hcontent : content ≠ []) {fuel : Nat} (hfuel : content.length < fuel) :
    ∃ w, serve fuel path (File.regular content) = some (some w) ∧
      w.body = content.take (bufLen content.length * (content.length / bufLen content.length)) := by
  have hlen := bufLen_pos hcontent
  obtain ⟨w, hw, hbody⟩ := sendLoop_body (i := 0) (w := {}) hlen
    (Nat.lt_of_le_of_lt (Nat.div_le_self (content.length - 0) _) hfuel)
  refine ⟨w, ?_, hbody⟩
  rw [serve, if_neg hpath, if_neg hdots]
  exact congrArg (Option.map some) hw

/-- A chunk size that covers a size by whole chunks divides it. -/
theorem le_mul_div_iff {m n : Nat} : n ≤ m * (n / m) ↔ m ∣ n := by
  constructor
  · intro h
    exact ⟨n / m, Nat.le_antisymm h (Nat.mul_div_le n m)⟩
  · intro h
    rw [Nat.mul_div_cancel' h]

/-- For every regular file that is not empty the loop ends. The body is the content of the file exactly
if it is smaller than the buffer of 10 MB or a multiple of it. -/
theorem serve_content_iff (path content : Bytes) (hpath : path ≠ []) (hdots : ¬ ascii ".." <:+: path)
    (hcontent : content ≠ []) (fuel : Nat) (hfuel : content.length < fuel) :
    ∃ w, serve fuel path (File.regular content) = some (some w) ∧
      (w.body = content ↔ content.length < bufSize ∨ bufSize ∣ content.length) := by
  obtain ⟨w, hserve, hbody⟩ := serve_body hpath hdots hcontent hfuel
  refine ⟨w, hserve, ?_⟩
  rw [hbody, List.take_eq_self_iff, le_mul_div_iff, bufLen]
  split
  case isTrue hsmall => exact iff_of_true (Nat.dvd_refl _) (.inl hsmall)
  case isFalse hlarge => rw [or_iff_right hlarge]

theorem serve_hello : ∃ w,
    serve 6 (ascii "a.txt") (File.regular (ascii "hello")) = some (some w) ∧ w.body = ascii "hello" := by
  obtain ⟨w, hserve, hbody⟩ := serve_content_iff (ascii "a.txt") (ascii "hello") (by decide) (by decide)
    (by decide) 6 (by decide)
  exact ⟨w, hserve, hbody.mpr (by decide)⟩

/-- A file with one byte more than the buffer: the byte is not sent. -/
theorem last_byte_lost :
    ∃ w, serve (bufSize + 2) (ascii "a.bin") (File.regular (List.replicate (bufSize + 1) 0)) = some (some w) ∧
      w.body.length = bufSize := by
  have hlength : (List.replicate (bufSize + 1) (0 : UInt8)).length = bufSize + 1 := List.length_replicate
  have hpath : ascii "a.bin" ≠ [] ∧ ¬ ascii ".." <:+: ascii "a.bin" := by decide
  generalize List.replicate (bufSize + 1) (0 : UInt8) = content at hlength ⊢
  have hfuel : content.length < bufSize + 2 := by omega
  obtain ⟨w, hserve, hbody⟩ :=
    serve_body hpath.1 hpath.2 (List.ne_nil_of_length_eq_add_one hlength) hfuel
  refine ⟨w, hserve, ?_⟩
  rw [hbody, List.length_take, hlength]
  simp [bufLen, bufSize]

/-! ## Termination -/

/-- A file whose content stays as it is; which calls of `ReadAt` and `Write` fail is left open. -/
def File.steady (content : Bytes) (readError : Nat → Option Bytes) (writeError : Nat → Bool) : File where
  stat := some content.length
  openFile := .ok content
  readError
  writeError

section

variable (file : File)

/-- With a buffer that is not empty every iteration moves on, so the loop ends. -/
theorem sendLoop_ends (content : Bytes) {len : Nat} (hlen : 0 < len) (i off : Nat) (w : Response) {fuel : Nat}
    (hfuel : content.length - off < fuel) : ∃ w', sendLoop file content fuel i len off w = some w' := by
  induction fuel generalizing i off w with
  | zero => omega
  | succ fuel ih =>
    rw [sendLoop]
    split
    · exact ⟨_, rfl⟩
    have hread : ((content.drop off).take len).length = min len (content.length - off) := by simp
    by_cases heof : content.length - off < len
    · have hshort : ((content.drop off).take len).length < len := by omega
      simp only [readAt, hshort, decide_true, ↓reduceIte]
      exact ⟨_, rfl⟩
    · have hfull : ((content.drop off).take len).length = len := by omega
      simp only [readAt, hfull, Nat.lt_irrefl, decide_false, Bool.false_eq_true, ↓reduceIte]
      split
      · exact ⟨_, rfl⟩
      · exact ih _ _ _ (by omega)

/-- Over an empty file with an empty buffer an iteration returns, or everything is as before. -/
theorem sendLoop_empty (fuel i off : Nat) (w : Response) :
    sendLoop file [] (fuel + 1) i 0 off w =
      match file.readError i with
      | some text => some (w.error text 500)
      | none => if file.writeError i then some w else sendLoop file [] fuel (i + 1) 0 off (w.write []) := by
  rw [sendLoop]
  cases file.readError i with
  | some text => rfl
  | none => simp [readAt]

theorem sendLoop_empty_fails {n i : Nat} (off : Nat) (w : Response)
    (h : (file.readError (i + n)).isSome ∨ file.writeError (i + n) = true) :
    ∃ w', sendLoop file [] (n + 1) i 0 off w = some w' := by
  induction n generalizing i w with
  | zero =>
    rw [sendLoop_empty]
    cases hread : file.readError i with
    | some text => exact ⟨_, rfl⟩
    | none =>
      have hwrite : file.writeError i = true := by simpa [hread] using h
      simp only [hwrite, ↓reduceIte]
      exact ⟨_, rfl⟩
  | succ n ih =>
    rw [sendLoop_empty]
    split
    · exact ⟨_, rfl⟩
    · split
      · exact ⟨_, rfl⟩
      · exact ih _ (by rwa [show i + 1 + n = i + (n + 1) by omega])

theorem sendLoop_empty_runs (hread : ∀ i, file.readError i = none) (hwrite : ∀ i, file.writeError i = false)
    (fuel i off : Nat) (w : Response) : sendLoop file [] fuel i 0 off w = none := by
  induction fuel generalizing i w with
  | zero => rfl
  | succ fuel ih =>
    rw [sendLoop_empty, hread, hwrite]
    exact ih _ _

end

/-- For a file whose content does not change the handler comes to an end exactly if the file is not
empty, or the loop is not reached, or a call of `ReadAt` or `Write` fails. -/
theorem serve_ends_iff (path content : Bytes) (readError : Nat → Option Bytes) (writeError : Nat → Bool) :
    (∃ fuel r, serve fuel path (File.steady content readError writeError) = some r) ↔
      content ≠ [] ∨ path = [] ∨ ascii ".." <:+: path ∨
        ∃ i, (readError i).isSome ∨ writeError i = true := by
  by_cases hpath : path = []
  · exact iff_of_true ⟨0, none, if_pos hpath⟩ (.inr (.inl hpath))
  by_cases hdots : ascii ".." <:+: path
  · refine iff_of_true ⟨0, some (Response.writeHeader {} 403), ?_⟩ (.inr (.inr (.inl hdots)))
    rw [serve, if_neg hpath, if_pos hdots]
  have hserve : ∀ fuel, serve fuel path (File.steady content readError writeError) =
      (sendLoop (File.steady content readError writeError) content fuel 0 (bufLen content.length) 0 {}).map
        some := by
    intro fuel
    rw [serve, if_neg hpath, if_neg hdots]
    rfl
  simp only [hserve, hpath, hdots, false_or]
  by_cases hcontent : content = []
  · subst hcontent
    rw [or_iff_right (fun h => h rfl)]
    constructor
    · rintro ⟨fuel, r, h⟩
      by_contra hnone
      push Not at hnone
      rw [show bufLen ([] : Bytes).length = 0 from rfl, sendLoop_empty_runs] at h
      · cases h
      · exact fun i => Option.not_isSome_iff_eq_none.mp (hnone i).1
      · exact fun i => Bool.eq_false_iff.mpr (hnone i).2
    · rintro ⟨i, h⟩
      obtain ⟨w, hw⟩ := sendLoop_empty_fails (File.steady [] readError writeError) (n := i) (i := 0) 0 {}
        (by rwa [Nat.zero_add])
      exact ⟨i + 1, some w, congrArg (Option.map some) hw⟩
  · refine iff_of_true ?_ (.inl hcontent)
    have hlen := bufLen_pos hcontent
    obtain ⟨w, hw⟩ := sendLoop_ends (File.steady content readError writeError) content hlen 0 0 {}
      (Nat.lt_succ_self (content.length - 0))
    exact ⟨_, some w, congrArg (Option.map some) hw⟩

/-- The handler for an empty file runs for ever. -/
theorem empty_file_never_ends :
    ¬ ∃ fuel r, serve fuel (ascii "a.txt") (File.steady [] (fun _ => none) fun _ => false) = some r := by
  rintro ⟨fuel, r, h⟩
  have hpath : ascii "a.txt" ≠ [] ∧ ¬ ascii ".." <:+: ascii "a.txt" := by decide
  have hloop := sendLoop_empty_runs (File.steady [] (fun _ => none) fun _ => false) (fun _ => rfl)
    (fun _ => rfl) fuel 0 0 {}
  rw [serve, if_neg hpath.1, if_neg hpath.2] at h
  change Option.map some (sendLoop _ [] fuel 0 0 0 {}) = some r at h
  rw [hloop] at h
  cases h

end RoadRunner.Http.Sendfile
