import RoadRunner.Http.Request

/-!
# Response writers

What a handler does with its `http.ResponseWriter` is a list of calls. The model has the two writers that such
calls are made on: `net/http`'s own, and the buffering writer that the cache and the New Relic middleware put in
its place (`cache/writer.go`, `new_relic/writer.go`; the two files have the same code).

* `Response`: `net/http`'s writer. The first status counts, a `Write` without one sends 200, an invalid code
  panics, and some statuses have no body.
* `Writer`: the buffering writer. The last status and the last `Write` count.
* `direct_content`, `Writer.run_code`, `Writer.run_data`: what a list of calls comes to on each of them.
* `relay_same_iff`: when the client receives the same status and body through a `Writer`.

What `net/http` does for a `Content-Length` and for a `HEAD` request is left out.
-/

namespace RoadRunner.Http

/-! ## Headers -/

/-- A byte that may be in the name of a header. -/
def validHeaderByte (c : UInt8) : Bool :=
  (48 ≤ c && c ≤ 57) || (65 ≤ c && c ≤ 90) || (97 ≤ c && c ≤ 122) || c ∈ ascii "!#$%&'*+-.^_`|~"

/-- Upper case at the start and after a hyphen, lower case elsewhere. -/
def canonicalFrom (upper : Bool) : Bytes → Bytes
  | [] => []
  | c :: cs =>
    (if upper && 97 ≤ c && c ≤ 122 then c - 32 else if !upper && 65 ≤ c && c ≤ 90 then c + 32 else c) ::
      canonicalFrom (c = 45) cs

/-- `textproto.CanonicalMIMEHeaderKey`. -/
def canonicalKey (k : Bytes) : Bytes := if k.all validHeaderByte then canonicalFrom true k else k

namespace Header

/-- The values of a key. -/
def values (h : Header) (k : Bytes) : List Bytes := (h.lookup k).getD []

/-- `Header.Add`. -/
def add (h : Header) (k v : Bytes) : Header := setEntry h (canonicalKey k, h.values (canonicalKey k) ++ [v])

/-- Every value of the header `g` is added. -/
def addAll (h g : Header) : Header := g.foldl (fun h e => e.2.foldl (fun h v => h.add e.1 v) h) h

/-- No header has a value. -/
def Blank (h : Header) : Prop := ∀ e ∈ h, e.2 = []

instance (h : Header) : Decidable h.Blank := inferInstanceAs (Decidable (∀ e ∈ h, e.2 = []))

theorem addAll_of_blank (h : Header) {g : Header} (hg : g.Blank) : h.addAll g = h := by
  induction g with
  | nil => rfl
  | cons e g ih =>
    rw [addAll, List.foldl_cons, hg e List.mem_cons_self]
    exact ih fun e' he' => hg e' (List.mem_cons_of_mem e he')

end Header

/-! ## Calls -/

/-- A call on an `http.ResponseWriter`, or a change of the map that its `Header` returns. -/
inductive Call where
  | addHeader (k v : Bytes)
  | setHeader (k : Bytes) (vs : List Bytes)
  | delHeader (k : Bytes)
  | writeHeader (code : Int)
  | write (data : Bytes)
  deriving DecidableEq

/-- What a call does to the header map. -/
def Header.call (h : Header) : Call → Header
  | .addHeader k v => h.add k v
  | .setHeader k vs => setEntry h (k, vs)
  | .delHeader k => h.filter fun e => e.1 ≠ k
  | .writeHeader _ | .write _ => h

/-- The codes of the `WriteHeader` calls. -/
def codes (calls : List Call) : List Int :=
  calls.filterMap fun
    | .writeHeader code => some code
    | _ => none

/-- The data of the `Write` calls. -/
def writes (calls : List Call) : List Bytes :=
  calls.filterMap fun
    | .write data => some data
    | _ => none

/-! ## The writer of net/http -/

/-- What the client receives. -/
structure Received where
  status : Int
  header : Header
  body : Bytes
  deriving DecidableEq

/-- The response writer of `net/http`. -/
structure Response where
  header : Header
  /-- The status and the header, once they are sent. -/
  sent : Option (Int × Header) := none
  body : Bytes := []
  deriving DecidableEq

/-- `checkWriteHeaderCode` does not panic. -/
def ValidCode (code : Int) : Prop := 100 ≤ code ∧ code ≤ 999

instance (code : Int) : Decidable (ValidCode code) := inferInstanceAs (Decidable (_ ∧ _))

/-- `bodyAllowedForStatus`. -/
def bodyAllowedForStatus (status : Int) : Bool :=
  !(100 ≤ status ∧ status ≤ 199 ∨ status = 204 ∨ status = 304)

/-- What is sent of the data, with this status. -/
def sentBody (status : Int) (data : Bytes) : Bytes := if bodyAllowedForStatus status then data else []

@[simp] theorem sentBody_ok (data : Bytes) : sentBody 200 data = data := rfl

@[simp] theorem sentBody_nil (status : Int) : sentBody status [] = [] := ite_self _

theorem sentBody_append (status : Int) (a b : Bytes) :
    sentBody status (a ++ b) = sentBody status a ++ sentBody status b := by
  unfold sentBody
  split <;> rfl

namespace Response

/-- `WriteHeader`; `none` is a panic. A second status is ignored. -/
def writeHeader (w : Response) (code : Int) : Option Response :=
  if w.sent.isSome then some w
  else if ValidCode code then some { w with sent := some (code, w.header) }
  else none

/-- `Write` of `net/http`. -/
def write (w : Response) (data : Bytes) : Response :=
  { w with
    sent := w.sent.or (some (200, w.header))
    body := w.body ++ sentBody (w.sent.getD (200, w.header)).1 data }

/-- One call. `none` is a panic. -/
def call (w : Response) : Call → Option Response
  | .writeHeader code => w.writeHeader code
  | .write data => some (w.write data)
  | c => some { w with header := w.header.call c }

/-- The calls of a handler, in order. -/
def run (w : Response) (calls : List Call) : Option Response := calls.foldlM call w

/-- The handler has returned. -/
def finish (w : Response) : Received :=
  ⟨(w.sent.getD (200, w.header)).1, (w.sent.getD (200, w.header)).2, w.body⟩

end Response

/-- The answer of a handler that writes to `net/http`'s writer, with this header from before. -/
def direct (header : Header) (calls : List Call) : Option Received :=
  (Response.run { header } calls).map Response.finish

/-- The status and the body. -/
def Received.content (a : Received) : Int × Bytes := (a.status, a.body)

/-- The first call that sends a status. -/
def firstSent : List Call → Option Call
  | [] => none
  | .writeHeader code :: _ => some (.writeHeader code)
  | .write data :: _ => some (.write data)
  | _ :: calls => firstSent calls

/-- The status that is sent, or `none` for a panic. -/
def sentStatus (calls : List Call) : Option Int :=
  match firstSent calls with
  | some (.writeHeader code) => if ValidCode code then some code else none
  | _ => some 200

/-- Once a status is sent, only the body grows. -/
theorem run_of_sent {w : Response} {code : Int} {header : Header} (hw : w.sent = some (code, header))
    (calls : List Call) :
    ∃ w' : Response, w.run calls = some w' ∧ w'.sent = some (code, header) ∧
      w'.body = w.body ++ sentBody code (writes calls).flatten := by
  induction calls generalizing w with
  | nil => exact ⟨w, rfl, hw, by simp [writes]⟩
  | cons c calls ih =>
    obtain ⟨w₁, h₁, hsent, hbody⟩ : ∃ w₁ : Response, w.call c = some w₁ ∧ w₁.sent = some (code, header) ∧
        w₁.body = w.body ++ sentBody code (writes [c]).flatten := by
      cases c with
      | writeHeader code' =>
        have hcall : w.call (.writeHeader code') = some w := if_pos (by rw [hw]; rfl)
        exact ⟨w, hcall, hw, by simp [writes]⟩
      | write data => exact ⟨w.write data, rfl, by simp [Response.write, hw], by simp [writes, Response.write, hw]⟩
      | _ => exact ⟨_, rfl, hw, by simp [writes]⟩
    obtain ⟨w', h', hsent', hbody'⟩ := ih hsent
    refine ⟨w', ?_, hsent', ?_⟩
    · rw [Response.run, List.foldlM_cons, h₁]
      exact h'
    · rw [hbody', hbody, List.append_assoc, ← sentBody_append, ← List.flatten_append, writes, writes,
        ← List.filterMap_append]
      rfl

/-- What the client receives of the calls: the status that is sent first, and all that is written, if the status
has a body. -/
theorem direct_content (header : Header) (calls : List Call) :
    (direct header calls).map Received.content =
      (sentStatus calls).map fun code => (code, sentBody code (writes calls).flatten) := by
  induction calls generalizing header with
  | nil => rfl
  | cons c calls ih =>
    have hsent : ∀ {w : Response} {code : Int}, w.sent = some (code, header) →
        w.body = sentBody code (writes [c]).flatten →
        (w.run calls).map (fun w => w.finish.content) = some (code, sentBody code (writes (c :: calls)).flatten) := by
      intro w code hw hbody
      obtain ⟨w', h', hsent, hbody'⟩ := run_of_sent hw calls
      have hflat : (writes (c :: calls)).flatten = (writes [c]).flatten ++ (writes calls).flatten := by
        rw [← List.flatten_append, writes, writes, writes, ← List.filterMap_append]
        rfl
      rw [h', hflat, sentBody_append, Option.map_some, Response.finish, Received.content, hbody', hbody, hsent]
      rfl
    simp only [direct, Option.map_map] at ih ⊢
    rw [Response.run, List.foldlM_cons]
    cases c with
    | writeHeader code =>
      by_cases hcode : ValidCode code
      · have hstatus : sentStatus (.writeHeader code :: calls) = some code := by
          simp [sentStatus, firstSent, hcode]
        have hcall : Response.call { header } (.writeHeader code) = some { header, sent := some (code, header) } := by
          simp [Response.call, Response.writeHeader, hcode]
        rw [hcall, hstatus]
        exact hsent rfl (sentBody_nil code).symm
      · have hstatus : sentStatus (.writeHeader code :: calls) = none := by
          simp [sentStatus, firstSent, hcode]
        have hcall : Response.call { header } (.writeHeader code) = none := by
          simp [Response.call, Response.writeHeader, hcode]
        rw [hcall, hstatus]
        rfl
    | write data => exact hsent (w := Response.write { header } data) rfl (by simp [Response.write, writes])
    | addHeader k v => exact ih (header.call (.addHeader k v))
    | setHeader k vs => exact ih (header.call (.setHeader k vs))
    | delHeader k => exact ih (header.call (.delHeader k))

/-! ## The buffering writer -/

/-- `writer`. -/
structure Writer where
  code : Int := -1
  data : Bytes := []
  hdrToSend : Header := []
  deriving DecidableEq

namespace Writer

/-- One call on the buffer. -/
def call (wr : Writer) : Call → Writer
  | .writeHeader code => { wr with code }
  | .write data => { wr with data }
  | c => { wr with hdrToSend := wr.hdrToSend.call c }

/-- The calls of a handler, in order. -/
def run (wr : Writer) (calls : List Call) : Writer := calls.foldl call wr

theorem run_code (wr : Writer) (calls : List Call) :
    (wr.run calls).code = (codes calls).getLast?.getD wr.code := by
  induction calls generalizing wr with
  | nil => rfl
  | cons c calls ih =>
    rw [run, List.foldl_cons]
    refine (ih (wr.call c)).trans ?_
    cases c with
    | writeHeader code =>
      change _ = (code :: codes calls).getLast?.getD wr.code
      rw [List.getLast?_cons]
      rfl
    | _ => rfl

theorem run_data (wr : Writer) (calls : List Call) :
    (wr.run calls).data = (writes calls).getLast?.getD wr.data := by
  induction calls generalizing wr with
  | nil => rfl
  | cons c calls ih =>
    rw [run, List.foldl_cons]
    refine (ih (wr.call c)).trans ?_
    cases c with
    | write data =>
      change _ = (data :: writes calls).getLast?.getD wr.data
      rw [List.getLast?_cons]
      rfl
    | _ => rfl

theorem run_hdrToSend (wr : Writer) (calls : List Call) :
    (wr.run calls).hdrToSend = calls.foldl Header.call wr.hdrToSend := by
  induction calls generalizing wr with
  | nil => rfl
  | cons c calls ih =>
    rw [run, List.foldl_cons]
    refine (ih (wr.call c)).trans ?_
    cases c <;> rfl

end Writer

/-- Send what a writer has buffered, with these headers. -/
def relay (header : Header) (code : Int) (data : Bytes) : Option Received :=
  (Response.writeHeader { header } code).map fun w => (w.write data).finish

theorem relay_eq (header : Header) (code : Int) (data : Bytes) :
    relay header code data = if ValidCode code then some ⟨code, header, sentBody code data⟩ else none := by
  unfold relay
  by_cases hcode : ValidCode code
  · simp [Response.writeHeader, hcode, Response.write, Response.finish]
  · simp [Response.writeHeader, hcode]

/-! ## When a buffering writer is transparent -/

/-- A `Write` comes before a `WriteHeader`. -/
def WritesFirst (calls : List Call) : Prop := ∃ data, firstSent calls = some (.write data)

/-- The handler calls `WriteHeader`, before it writes unless the code is 200, and all writes but the last are
empty, if the status has a body. -/
def Transparent (calls : List Call) : Prop :=
  ∃ code, codes calls = [code] ∧ (code ≠ 200 → ¬ WritesFirst calls) ∧
    (ValidCode code → sentBody code (writes calls).dropLast.flatten = [])

/-- What is sent is the last chunk. -/
theorem flatten_eq_getLast_iff (code : Int) (ws : List Bytes) :
    sentBody code ws.flatten = sentBody code (ws.getLast?.getD []) ↔ sentBody code ws.dropLast.flatten = [] := by
  rcases List.eq_nil_or_concat ws with rfl | ⟨init, last, rfl⟩
  · simp
  · simp [sentBody_append]

theorem firstSent_of_codes {calls : List Call} {code : Int} (h : codes calls = [code]) :
    firstSent calls = some (.writeHeader code) ∨ WritesFirst calls := by
  induction calls with
  | nil => cases h
  | cons c calls ih =>
    cases c with
    | writeHeader code' =>
      change code' :: codes calls = [code] at h
      exact .inl (congrArg (fun c => some (Call.writeHeader c)) (List.cons.inj h).1)
    | write data => exact .inr ⟨data, rfl⟩
    | _ => exact ih h

theorem sentStatus_of_no_codes {calls : List Call} (h : codes calls = []) : sentStatus calls = some 200 := by
  induction calls with
  | nil => rfl
  | cons c calls ih =>
    cases c with
    | writeHeader code' => cases h
    | write data => rfl
    | _ => exact ih h

/-- The code of `Transparent` calls is the one that they have. -/
theorem transparent_iff_of_codes {calls : List Call} {code : Int} (h : codes calls = [code]) :
    Transparent calls ↔ (code ≠ 200 → ¬ WritesFirst calls) ∧
      (ValidCode code → sentBody code (writes calls).dropLast.flatten = []) := by
  constructor
  · rintro ⟨code', h', hrest⟩
    obtain rfl : code' = code := by rw [h] at h'; exact (List.cons.inj h').1.symm
    exact hrest
  · exact fun hrest => ⟨code, h, hrest⟩

/-- The client receives the same through a buffering writer exactly if the calls are `Transparent`. -/
theorem relay_same_iff {calls : List Call} (honce : (codes calls).length ≤ 1) (header header' : Header) :
    (relay header' (Writer.run {} calls).code (Writer.run {} calls).data).map Received.content =
        (direct header calls).map Received.content ↔ Transparent calls := by
  rw [direct_content, relay_eq, Writer.run_code, Writer.run_data]
  rcases hcodes : codes calls with _ | ⟨code, rest⟩
  · -- without a `WriteHeader` the buffered code is -1
    have hbad : ¬ ValidCode (([] : List Int).getLast?.getD (({} : Writer).code)) := by decide
    rw [if_neg hbad, sentStatus_of_no_codes hcodes]
    refine iff_of_false (fun h => nomatch h) ?_
    rintro ⟨code, h, -⟩
    rw [hcodes] at h
    cases h
  · obtain rfl : rest = [] := by
      rw [hcodes, List.length_cons] at honce
      exact List.eq_nil_of_length_eq_zero (by omega)
    rw [transparent_iff_of_codes hcodes, ← flatten_eq_getLast_iff]
    change Option.map _ (if ValidCode code then _ else none) = _ ↔ _
    by_cases hfirst : WritesFirst calls
    · -- 200 is sent with the first write
      have hstatus : sentStatus calls = some 200 := by
        obtain ⟨data, hdata⟩ := hfirst
        simp [sentStatus, hdata]
      rw [hstatus]
      by_cases hcode : code = 200
      · subst hcode
        have hvalid : ValidCode 200 := by decide
        simp [hvalid, Received.content, eq_comm]
      · refine iff_of_false (fun h => ?_) fun h => h.1 hcode hfirst
        by_cases hvalid : ValidCode code
        · rw [if_pos hvalid] at h
          exact hcode (congrArg Prod.fst (Option.some.inj h))
        · rw [if_neg hvalid] at h
          cases h
    · have hsent := (firstSent_of_codes hcodes).resolve_right hfirst
      by_cases hvalid : ValidCode code
      · simp [sentStatus, hsent, hvalid, hfirst, Received.content, eq_comm]
      · simp [sentStatus, hsent, hvalid, hfirst]

end RoadRunner.Http
