import RoadRunner.Http.Leak
import RoadRunner.Http.Writer

/-!
# What the client is told

The end of `ServeHTTP`: `Handler.Write` of `http/handler/response.go`, which decodes the response of the worker into a
recycled struct and sends it, and `handleError`, which answers an error by its kind. An error without one of the kinds
that it knows is not answered, and then `net/http` sends 200.

* `Failure`: an error with its kind, as `github.com/spiral/errors` has it. `handleError`: the calls on the response
  writer.
* `Server.serve`: what the client receives (`none` is a panic), and the server after it. On the handler it is
  `Handler.serveHTTP`, with the answer that `Write` comes to.
* `Told`: what is to hold of a call. `Answerable`: when it does, by the request and what `Exec` returns (`told_iff`).
-/

namespace RoadRunner.Http

/-! ## Errors -/

/-- `errors.Kind`: those that the handler knows, and the others. -/
inductive Kind where
  | noFreeWorkers
  | softJob
  | watcherStopped
  | workerAllocate
  | execTTL
  | idleTTL
  | ttl
  | encode
  | decode
  | network
  | other (n : Nat)
  deriving DecidableEq

/-- An error: one of another package, or an `errors.Error` without or with an error in it. No kind is
`errors.Undefined`. -/
inductive Failure where
  | raw (text : Bytes)
  | bare (op : Bytes) (kind : Option Kind)
  | e (op : Bytes) (kind : Option Kind) (err : Failure)
  deriving DecidableEq

/-- The kind that `errors.Is` compares: the outermost one. -/
def Failure.kind : Failure → Option Kind
  | .raw _ => none
  | .bare _ kind => kind
  | .e _ (some kind) _ => some kind
  | .e _ none err => err.kind

/-- `errors.Is`. -/
def Failure.is (kind : Kind) (err : Failure) : Prop := err.kind = some kind

instance (kind : Kind) (err : Failure) : Decidable (err.is kind) := inferInstanceAs (Decidable (_ = _))

/-- The kinds of the second test of `handleError`. -/
def internalKinds : List Kind :=
  [.softJob, .watcherStopped, .workerAllocate, .execTTL, .idleTTL, .ttl, .encode, .decode, .network]

/-- `handleError`; `code` is `int(internalHTTPCode)`. -/
def handleError (code : Int) (err : Failure) : List Call :=
  (if err.is .noFreeWorkers then [.setHeader (ascii "No-Workers") [ascii "true"], .writeHeader code] else []) ++
    if ∃ kind ∈ internalKinds, err.is kind then [.writeHeader code] else []

/-- `handleError` answers the error. -/
def Failure.Handled (err : Failure) : Prop := err.is .noFreeWorkers ∨ ∃ kind ∈ internalKinds, err.is kind

instance (err : Failure) : Decidable err.Handled :=
  inferInstanceAs (Decidable (_ ∨ ∃ kind ∈ internalKinds, err.is kind))

/-- `http.Error`. -/
def httpError (text : Bytes) (code : Int) : List Call :=
  [.setHeader (ascii "Content-Type") [ascii "text/plain; charset=utf-8"],
    .setHeader (ascii "X-Content-Type-Options") [ascii "nosniff"], .writeHeader code, .write (text ++ [10])]

/-- `errEPIPE`. -/
def errEPIPE : Err := .str "EPIPE(32) -> connection reset by peer"

/-! ## Responses of workers -/

/-- `Response` of the handler. The nil map of a response that is put back is an empty map. -/
structure Rsp where
  status : Int := -1
  headers : Header := []
  deriving DecidableEq

/-- `putRsp`, before the object goes to its pool. -/
def Rsp.reset (rsp : Rsp) : Rsp := { rsp with headers := [], status := -1 }

/-- What decoding a context sets: a status that is absent stays as it is. -/
def Rsp.fill (rsp : Rsp) (decoded : Option Int × Header) : Rsp :=
  { rsp with status := decoded.1.getD rsp.status, headers := decoded.2.foldl setEntry rsp.headers }

/-- `strings.Trim(s, "\t ")`. -/
def trimBlanks (s : Bytes) : Bytes :=
  ((s.dropWhile fun c => c = 9 ∨ c = 32).reverse.dropWhile fun c => c = 9 ∨ c = 32).reverse

/-- `handleTrailers`. -/
def handleTrailers (h : Header) : Header :=
  let names := ((h.lookup (ascii "Trailer")).getD []).flatMap (List.splitOn 44)
  let h := names.foldl (fun h n =>
    match h.lookup (trimBlanks n) with
    | some v => (setEntry h (ascii "Trailer:" ++ trimBlanks n, v)).filter fun e => e.1 ≠ trimBlanks n
    | none => h) h
  h.filter fun e => e.1 ≠ ascii "Trailer"

/-- Functions of the libraries. -/
structure Lib where
  /-- `json.Unmarshal` of a context: the status, if it has one, and the headers. -/
  unmarshal : Bytes → Option (Option Int × Header)
  /-- The text of an error. -/
  text : Err → Bytes

/-- A call of `ServeHTTP`. -/
structure Turn where
  r : HttpRequest
  pickReq : Option Nat := none
  pickPld : Option Nat := none
  pickRsp : Option Nat := none
  opens : Nat → OpenOutcome := fun _ => .noFile
  /-- The header of the response writer, as the middleware have left it. -/
  header : Header := []
  /-- `Exec`: its error, or the context and the body of the response. -/
  exec : Except Failure (Bytes × Bytes) := .ok ([], [])
  /-- `Push`, if the response writer is an `http.Pusher`. -/
  push : Option (Bytes → Option Failure) := none
  /-- The error of `Write` of the body. -/
  writeErr : Option Failure := none

namespace Turn

variable (lib : Lib) (code : Int)

/-- The error of the first push that fails. -/
def pushErr (t : Turn) (headers : Header) : Option Failure :=
  t.push.bind ((headers.lookup (ascii "Http2-Push")).getD []).findSome?

/-- `Handler.Write`, with the struct `rsp`: the calls on the response writer, and the status or the error. -/
def write (rsp : Rsp) (t : Turn) (context body : Bytes) : List Call × Except Failure Int :=
  match lib.unmarshal context with
  | none => ([], .error (.raw (ascii "Unmarshal")))
  | some decoded =>
    let rsp := rsp.fill decoded
    -- what was pushed before the error is no call on the response
    match t.pushErr rsp.headers with
    | some err => ([], .error err)
    | none =>
      let headers :=
        if (rsp.headers.lookup (ascii "Trailer")).getD [] ≠ [] then handleTrailers rsp.headers else rsp.headers
      let calls := headers.flatMap fun e => e.2.map (Call.addHeader e.1)
      (calls ++ [.writeHeader rsp.status, .write body],
        match t.writeErr with
        | some err => .error err
        | none => .ok rsp.status)

/-- How the worker and the response writer answer. -/
def answer (rsp : Rsp) (t : Turn) : Answer :=
  match t.exec with
  | .error _ => .execFailed (.lib "Exec")
  | .ok (context, body) =>
    let out := t.write lib rsp context body
    if sentStatus out.1 = none then .writePanics
    else match out.2 with
      | .error _ => .writeFailed (.lib "Write")
      | .ok status => .written status

/-- The call of the handler. -/
def served (rsp : Rsp) (t : Turn) : Served where
  r := t.r
  pickReq := t.pickReq
  pickPld := t.pickPld
  opens := t.opens
  answer := t.answer lib rsp

/-- `Write`, and `handleError` if it fails. -/
def respond (rsp : Rsp) (t : Turn) (context body : Bytes) : List Call :=
  let out := t.write lib rsp context body
  match out.2 with
  | .error err => out.1 ++ handleError code err
  | .ok _ => out.1

/-- The calls on the response writer, for each end of `ServeHTTP`. The body of a payload always marshals, and the error
of its context is the one of `json.Marshal`. -/
def calls (rsp : Rsp) (t : Turn) : End → List Call
  | .rejected .badLength => httpError [] 500
  | .rejected .tooLarge =>
    httpError (lib.text (.op "http_handler_max_size" (.str "request body max size is exceeded"))) 400
  | .requestFailed err => if err = errEPIPE then [] else httpError (lib.text (.op "serve_http" err)) 500
  | .requestPanics => []
  | .payloadFailed err => handleError code (.raw (lib.text err))
  | .answered _ =>
    match t.exec with
    | .error err => handleError code err
    | .ok (context, body) => t.respond lib code rsp context body

end Turn

/-! ## Serving -/

/-- A handler, with its pool of responses. -/
structure Server where
  handler : Handler
  respPool : Pool Rsp

/-- How a call went. -/
structure Outcome where
  ended : End
  calls : List Call
  /-- What the client receives; `none` if the call panics. -/
  received : Option Received

/-- `NewHandler`. -/
def newServer : Server := ⟨newHandler, .empty⟩

namespace Server

variable (cfg : Config) (lib : Lib) (internalHTTPCode : UInt64)

/-- `int(internalHTTPCode)`. -/
def internalCode (internalHTTPCode : UInt64) : Int := internalHTTPCode.toInt64.toInt

/-- `ServeHTTP`. The struct of a response is taken and put back by `Write`, which puts it back also on a panic. -/
def serve (t : Turn) (s : Server) : Outcome × Server :=
  let (rsp, respPool) := s.respPool.get {} t.pickRsp
  let (ended, _, handler) := s.handler.serveHTTP cfg (t.served lib rsp)
  let calls := t.calls lib (internalCode internalHTTPCode) rsp ended
  let received :=
    match ended with
    | .requestPanics => none
    | _ => direct t.header calls
  let respPool :=
    match ended, t.exec with
    | .answered _, .ok _ => respPool.put rsp.reset
    | _, _ => s.respPool
  (⟨ended, calls, received⟩, ⟨handler, respPool⟩)

/-- The server after a turn. -/
def after (s : Server) (t : Turn) : Server := (s.serve cfg lib internalHTTPCode t).2

/-- Every idle struct is as a new one. -/
def Clean (s : Server) : Prop := s.respPool.All (· = {})

end Server

/-- `Payload`, `Exec` or the decoding of the response fails. -/
def Turn.Fails (lib : Lib) (t : Turn) : End → Prop
  | .payloadFailed _ => True
  | .answered _ =>
    match t.exec with
    | .error _ => True
    | .ok (context, _) => lib.unmarshal context = none
  | _ => False

/-- The call does not panic, and if `Payload`, `Exec` or the decoding fails, the client receives the code, and not
because nothing was sent. -/
def Turn.Told (lib : Lib) (code : Int) (t : Turn) (out : Outcome) : Prop :=
  ∃ received, out.received = some received ∧
    (t.Fails lib out.ended → received.status = code ∧ firstSent out.calls = some (.writeHeader code))

/-- What `Exec` returns can be told: its error has a kind that `handleError` knows, or the response decodes and has a
status. -/
def Turn.Tellable (lib : Lib) (code : Int) (t : Turn) : Prop :=
  match t.exec with
  | .error err => err.Handled ∧ ValidCode code
  | .ok (context, _) =>
    match lib.unmarshal context with
    | none => False
    | some decoded =>
      match t.pushErr (Rsp.fill {} decoded).headers with
      | some err => err.Handled → ValidCode code
      | none => ValidCode (decoded.1.getD (-1))

/-- How `request` ends for a request. -/
def HttpRequest.reading (r : HttpRequest) : Ended := (request r (Request.fill r {})).1

/-- What has to be the case for it: a request that is not refused is read without a panic, and if it is read, its
attributes can be marshaled, and what `Exec` returns can be told. -/
def Turn.Answerable (cfg : Config) (lib : Lib) (code : Int) (t : Turn) : Prop :=
  cfg.reject t.r = none →
    match t.r.reading with
    | .panicked => False
    | .failed _ => True
    | .ok => attributesJson t.r.attributes ≠ none ∧ t.Tellable lib code

/-- The same, by the end of the call. -/
def Turn.Answered (lib : Lib) (code : Int) (t : Turn) : End → Prop
  | .rejected _ | .requestFailed _ => True
  | .requestPanics | .payloadFailed _ => False
  | .answered _ => t.Tellable lib code

variable {lib : Lib} {code : Int}

/-! ## Calls on the writer -/

/-- The status of what the client receives is the one that is sent first. -/
theorem direct_status (header : Header) (calls : List Call) :
    (direct header calls).map Received.status = sentStatus calls := by
  have h := congrArg (Option.map Prod.fst) (direct_content header calls)
  rw [Option.map_map, Option.map_map] at h
  exact h.trans Option.map_id_apply

/-- Errors without a kind that is known are not answered. -/
theorem firstSent_handleError (code : Int) (err : Failure) :
    firstSent (handleError code err) = if err.Handled then some (.writeHeader code) else none := by
  unfold handleError Failure.Handled
  by_cases hfree : err.is .noFreeWorkers
  · simp [hfree, firstSent]
  · by_cases hinternal : ∃ kind ∈ internalKinds, err.is kind
    · simp only [hfree, hinternal, ↓reduceIte, List.nil_append, or_true]
      rfl
    · simp only [hfree, hinternal, ↓reduceIte, List.nil_append, or_self]
      rfl

theorem sentStatus_handleError (code : Int) (err : Failure) :
    sentStatus (handleError code err) =
      if err.Handled then if ValidCode code then some code else none else some 200 := by
  rw [sentStatus, firstSent_handleError]
  by_cases h : err.Handled <;> simp [h]

theorem firstSent_headers (headers : Header) (calls : List Call) :
    firstSent ((headers.flatMap fun e => e.2.map (Call.addHeader e.1)) ++ calls) = firstSent calls := by
  induction headers with
  | nil => rfl
  | cons e headers ih =>
    rw [List.flatMap_cons, List.append_assoc]
    induction e.2 with
    | nil => exact ih
    | cons v vs ihv => exact ihv

/-- An error of another package has no kind. -/
theorem not_handled_raw (text : Bytes) : ¬ (Failure.raw text).Handled := by
  rintro (h | ⟨kind, -, h⟩) <;> cases h

namespace Turn

variable {t : Turn} {context body : Bytes} {decoded : Option Int × Header}

theorem respond_of_undecoded (h : lib.unmarshal context = none) :
    t.respond lib code {} context body = handleError code (.raw (ascii "Unmarshal")) := by
  simp only [respond, write, h, List.nil_append]

theorem respond_of_push {err : Failure} (h : lib.unmarshal context = some decoded)
    (hpush : t.pushErr (Rsp.fill {} decoded).headers = some err) :
    t.respond lib code {} context body = handleError code err := by
  simp only [respond, write, h, hpush, List.nil_append]

/-- Whether or not the body is written, the status of the response is sent first. -/
theorem firstSent_respond (h : lib.unmarshal context = some decoded)
    (hpush : t.pushErr (Rsp.fill {} decoded).headers = none) :
    firstSent (t.respond lib code {} context body) = some (.writeHeader (decoded.1.getD (-1))) := by
  simp only [respond, write, h, hpush]
  cases t.writeErr with
  | none => exact firstSent_headers _ _
  | some err =>
    dsimp only
    rw [List.append_assoc]
    exact firstSent_headers _ _

end Turn

/-! ## Told or not -/

theorem told_of_calls {t : Turn} {out : Outcome} (hreceived : out.received = direct t.header out.calls) :
    t.Told lib code out ↔
      ∃ status, sentStatus out.calls = some status ∧
        (t.Fails lib out.ended → status = code ∧ firstSent out.calls = some (.writeHeader code)) := by
  unfold Turn.Told
  rw [hreceived, ← direct_status t.header]
  constructor
  · rintro ⟨received, hr, htold⟩
    exact ⟨received.status, by rw [hr]; rfl, htold⟩
  · rintro ⟨status, hs, htold⟩
    obtain ⟨received, hr, rfl⟩ := Option.map_eq_some_iff.mp hs
    exact ⟨received, hr, htold⟩

/-- An error that is answered by `handleError`. -/
theorem told_error_iff {err : Failure} :
    (∃ status, sentStatus (handleError code err) = some status ∧
        status = code ∧ firstSent (handleError code err) = some (.writeHeader code)) ↔
      err.Handled ∧ ValidCode code := by
  rw [sentStatus_handleError, firstSent_handleError]
  by_cases h : err.Handled
  · by_cases hcode : ValidCode code <;> simp [h, hcode]
  · simp [h]

/-- A response of the worker. -/
theorem told_response_iff (t : Turn) (context body : Bytes) :
    (∃ status, sentStatus (t.respond lib code {} context body) = some status ∧
        (lib.unmarshal context = none → status = code ∧
          firstSent (t.respond lib code {} context body) = some (.writeHeader code))) ↔
      match lib.unmarshal context with
      | none => False
      | some decoded =>
        match t.pushErr (Rsp.fill {} decoded).headers with
        | some err => err.Handled → ValidCode code
        | none => ValidCode (decoded.1.getD (-1)) := by
  cases hdecoded : lib.unmarshal context with
  | none =>
    simp only [Turn.respond_of_undecoded hdecoded, forall_const, told_error_iff, iff_false]
    exact fun h => not_handled_raw _ h.1
  | some decoded =>
    simp only [reduceCtorEq, false_implies, and_true]
    cases hpush : t.pushErr (Rsp.fill {} decoded).headers with
    | some err =>
      rw [Turn.respond_of_push hdecoded hpush, sentStatus_handleError]
      by_cases h : err.Handled
      · by_cases hcode : ValidCode code <;> simp [h, hcode]
      · simp [h]
    | none =>
      -- a later `handleError` finds the status sent
      rw [sentStatus, Turn.firstSent_respond hdecoded hpush]
      by_cases hvalid : ValidCode (decoded.1.getD (-1)) <;> simp [hvalid]

/-- The end of a call decides whether the client is told. -/
theorem told_calls_iff (t : Turn) (ended : End) (hpanics : ended ≠ .requestPanics) :
    (∃ status, sentStatus (t.calls lib code {} ended) = some status ∧
        (t.Fails lib ended → status = code ∧
          firstSent (t.calls lib code {} ended) = some (.writeHeader code))) ↔
      t.Answered lib code ended := by
  cases ended with
  | rejected why => cases why <;> exact iff_of_true ⟨_, rfl, nofun⟩ trivial
  | requestFailed err =>
    refine iff_of_true ?_ trivial
    rw [Turn.calls]
    split
    · -- nothing is written for a broken pipe
      exact ⟨200, rfl, nofun⟩
    · exact ⟨500, rfl, nofun⟩
  | requestPanics => exact absurd rfl hpanics
  | payloadFailed err =>
    simp only [Turn.Fails, forall_const, Turn.Answered, iff_false, Turn.calls, told_error_iff]
    exact fun h => not_handled_raw _ h.1
  | answered answer =>
    unfold Turn.Fails Turn.calls Turn.Answered Turn.Tellable
    cases t.exec with
    | error err => simp only [forall_const, told_error_iff]
    | ok response => exact told_response_iff t response.1 response.2

/-! ## The end of a call -/

/-- How a body is read does not depend on the struct, and the attributes stay. -/
theorem readBody_ended (r : HttpRequest) (req req' : Request) (ct : ContentType) :
    (readBody r req ct).1 = (readBody r req' ct).1 ∧ (readBody r req ct).2.attributes = req.attributes := by
  have hform : ∀ value (req req' : Request), (formData r value req).1 = (formData r value req').1 ∧
      (formData r value req).2.attributes = req.attributes := by
    intro value req req'
    unfold formData
    cases r.parseForm with
    | error e => exact ⟨rfl, rfl⟩
    | ok postForm =>
      dsimp only
      cases parseData postForm value <;> exact ⟨rfl, rfl⟩
  cases ct with
  | none => exact ⟨rfl, rfl⟩
  | stream =>
    unfold readBody
    cases r.readAll.2 <;> exact ⟨rfl, rfl⟩
  | multipart =>
    unfold readBody
    cases r.parseMultipartForm with
    | error e => exact ⟨rfl, rfl⟩
    | ok form =>
      dsimp only
      cases parseUploads form.file with
      | none => exact ⟨rfl, rfl⟩
      | some u => exact hform form.value { req with uploads := some u } { req' with uploads := some u }
  | formData => exact hform [] req req'

/-- `request` with any recycled struct. -/
theorem request_ended (r : HttpRequest) (req : Request) :
    (request r (req.fill r)).1 = r.reading ∧ (request r (req.fill r)).2.attributes = r.attributes :=
  readBody_ended r _ _ _

theorem Request.payload_err (req : Request) (p : Payload) :
    (req.payload p).1 = if attributesJson req.attributes = none then some (.lib "Marshal") else none := by
  unfold Request.payload Request.json
  cases attributesJson req.attributes with
  | none => rfl
  | some attributes => cases req.body <;> rfl

/-- The end of `ServeHTTP` is decided by the request and the answer, whatever the pools have. -/
theorem answered_serveHTTP_iff {t : Turn} (cfg : Config) (h : Handler) (x : Served) (hx : x.r = t.r) :
    t.Answered lib code (h.serveHTTP cfg x).1 ↔ t.Answerable cfg lib code := by
  unfold Turn.Answerable Handler.serveHTTP
  rw [hx]
  cases cfg.reject t.r with
  | some why => simp [Turn.Answered]
  | none =>
    obtain ⟨hreading, hattributes⟩ := request_ended t.r (h.reqPool.get {} x.pickReq).1
    rcases hreq : request t.r ((h.reqPool.get {} x.pickReq).1.fill t.r) with ⟨ended, req⟩
    rw [hreq] at hreading hattributes
    dsimp only at hreading hattributes ⊢
    rw [← hreading, hreq]
    cases ended with
    | panicked => simp [Turn.Answered]
    | failed e => simp [Turn.Answered]
    | ok =>
      have herr := ((cfg.resolveIP req).openUploads cfg.policy x.opens).payload_err (h.pldPool.get {} x.pickPld).1
      rw [show ((cfg.resolveIP req).openUploads cfg.policy x.opens).attributes = _ from hattributes] at herr
      rcases hpayload : ((cfg.resolveIP req).openUploads cfg.policy x.opens).payload (h.pldPool.get {} x.pickPld).1
        with ⟨err, pld⟩
      rw [hpayload] at herr
      dsimp only at herr ⊢
      rw [hpayload, herr]
      by_cases hnone : attributesJson t.r.attributes = none
      · simp [hnone, Turn.Answered]
      · cases x.answer <;> simp [hnone, Turn.Answered]

/-! ## Servers -/

theorem clean_new : newServer.Clean := Pool.all_empty _

namespace Server

variable {cfg : Config} {internalHTTPCode : UInt64}

theorem Clean.after {s : Server} (hs : s.Clean) (t : Turn) : (s.after cfg lib internalHTTPCode t).Clean := by
  have hget := Pool.get_all hs rfl t.pickRsp
  unfold Server.after serve Clean
  dsimp only
  split
  · exact hget.2.put rfl
  · exact hs

/-- The structs of the responses are clean after any calls. -/
theorem clean_exec (history : List Turn) :
    (Run.exec (Server.after cfg lib internalHTTPCode) newServer history).Clean :=
  Run.exec_invariant (I := Server.Clean) (fun _ t h => h.after t) history clean_new

end Server

/-- **Failures are told.** After any calls, with any recycled objects: a call of `ServeHTTP` does not panic, and answers
a failure of `Payload`, of `Exec` or of decoding the response with the configured status, if and only if the request is
refused, or it is read without a panic and, if that does not fail, its attributes can be marshaled; an error of `Exec`
has a kind that `handleError` knows, and the configured status can be sent; a response can be decoded, and its status
can be sent, or a push fails before that and the configured status can be sent if the error has such a kind. -/
theorem told_iff (cfg : Config) (lib : Lib) (internalHTTPCode : UInt64) (history : List Turn) (t : Turn) :
    let s := Run.exec (Server.after cfg lib internalHTTPCode) newServer history
    let out := (s.serve cfg lib internalHTTPCode t).1
    t.Told lib (Server.internalCode internalHTTPCode) out ↔
      t.Answerable cfg lib (Server.internalCode internalHTTPCode) := by
  intro s out
  rw [← answered_serveHTTP_iff cfg s.handler (t.served lib (s.respPool.get {} t.pickRsp).1) rfl]
  change _ ↔ t.Answered lib _ out.ended
  -- the struct that is picked has the status -1, which a context without a status leaves
  have hclean : (s.respPool.get {} t.pickRsp).1 = {} :=
    (Pool.get_all (Server.clean_exec history) rfl t.pickRsp).1
  have hcalls : out.calls = t.calls lib (Server.internalCode internalHTTPCode) {} out.ended := by
    rw [← hclean]
    rfl
  have hreceived : out.received =
      match out.ended with
      | .requestPanics => none
      | _ => direct t.header out.calls := rfl
  by_cases hpanics : out.ended = .requestPanics
  · rw [hpanics] at hreceived ⊢
    exact iff_of_false (fun ⟨_, h, _⟩ => nomatch hreceived.symm.trans h) id
  · have hdirect : out.received = direct t.header out.calls := by
      cases hended : out.ended <;> simp_all
    rw [told_of_calls hdirect, hcalls]
    exact told_calls_iff t out.ended hpanics

/-- Contexts that are a status in digits, or nothing. -/
def sampleLib : Lib where
  unmarshal context :=
    if context = ascii "\x7b\x7d" then some (none, [])
    else if context = ascii "\x7b\"status\":200\x7d" then some (some 200, []) else none
  text _ := []

/-- `Exec` fails without a kind, or the context is no JSON: the client receives 200. The context has no status: the call
panics. -/
theorem failures_untold :
    let get : Turn := { r := { method := ascii "GET" } }
    let out (t : Turn) := (newServer.serve sampleConfig sampleLib 500 t).1.received
    out { get with exec := .error (.raw (ascii "broken pipe")) } = some ⟨200, [], []⟩ ∧
      out { get with exec := .error (.e [] (some (.other 0)) (.raw (ascii "stopped"))) } = some ⟨200, [], []⟩ ∧
      out { get with exec := .ok (ascii "oops", []) } = some ⟨200, [], []⟩ ∧
      out { get with exec := .ok (ascii "\x7b\x7d", ascii "hello") } = none := by
  decide +kernel

end RoadRunner.Http
