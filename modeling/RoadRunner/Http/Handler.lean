import RoadRunner.Http.Request
import RoadRunner.Lib.Pool
import RoadRunner.Lib.Run

/-!
# The HTTP handler

The model of `http/handler/handler.go`: `ServeHTTP` up to the response of the worker, with the pools of
recycled requests and payloads.

* `Served`: a request, with what its environment does: the objects that the runtime picks from the
  pools, the outcomes of opening the files, and how `Exec` and `Write` end.
* `Config.built`: the payload of a request alone. It reads nothing of the handler but the uploads that
  are left in the recycled request.
* `sent_eq_built`: `ServeHTTP` sends this payload, if the idle payloads have no body (`NoBody`), and
  leaves them so.
-/

namespace RoadRunner.Http

/-! ## Configuration -/

/-- `MB`. -/
def mb : UInt64 := 1024 * 1024

/-- The limit in bytes that `NewHandler` makes of one in megabytes; it wraps around. -/
def maxBytes (maxReqSize : UInt64) : UInt64 := maxReqSize * mb

/-- `strconv.ParseInt(s, 10, 64)`. -/
def parseInt (s : Bytes) : Option Int64 :=
  let digits := match s with
    | 43 :: s => s
    | 45 :: s => s
    | s => s
  if digits = [] ∨ ∃ c ∈ digits, c < 48 ∨ 57 < c then none
  else
    let n : Nat := digits.foldl (fun n c => 10 * n + (c.toNat - 48)) 0
    if s.head? = some 45 then if n ≤ 2 ^ 63 then some (.ofInt (-n)) else none
    else if n < 2 ^ 63 then some (.ofNat n) else none

/-- The settings of a handler, with functions of the libraries. -/
structure Config where
  /-- In bytes. -/
  maxRequestSize : UInt64
  policy : UploadPolicy
  /-- `Cidrs.IsTrusted`. -/
  isTrusted : Bytes → Bool
  /-- `net.ParseIP` gives an address. -/
  isIP : Bytes → Bool
  /-- `strings.TrimSpace`. -/
  trimSpace : Bytes → Bytes

namespace Config

variable (cfg : Config)

/-- Why a request is turned away for its size. -/
inductive Rejection where
  | badLength
  | tooLarge
  deriving DecidableEq

/-- The check of the size at the start of `ServeHTTP`. -/
def reject (r : HttpRequest) : Option Rejection :=
  let length := r.header.first "Content-Length"
  if cfg.maxRequestSize ≠ 0 ∧ length ≠ [] then
    match parseInt length with
    | none => some .badLength
    | some size => if size > cfg.maxRequestSize.toInt64 then some .tooLarge else none
  else none

/-- The address that `resolveIP` gives to a request from `addr` with this header. -/
def clientAddr (addr : Bytes) (header : Header) : Bytes :=
  if ¬ cfg.isTrusted addr then addr
  else if header.first "X-Forwarded-For" ≠ [] then
    let ips := (header.first "X-Forwarded-For").splitOn 44
    ((ips.reverse.map cfg.trimSpace).find? cfg.isIP).getD addr
  else if header.first "X-Real-Ip" ≠ [] then fetchIP (header.first "X-Real-Ip")
  else if header.first "True-Client-Ip" ≠ [] then fetchIP (header.first "True-Client-Ip")
  else if header.first "Cf-Connecting-Ip" ≠ [] then fetchIP (header.first "Cf-Connecting-Ip")
  else addr

/-- `resolveIP`. -/
def resolveIP (req : Request) : Request :=
  { req with remoteAddr := cfg.clientAddr req.remoteAddr req.header }

end Config

/-! ## Serving -/

/-- `getReq`, after the object comes from its pool. The uploads stay. -/
def Request.fill (r : HttpRequest) (req : Request) : Request :=
  { req with
    rawQuery := stripNewlines r.rawQuery
    remoteAddr := fetchIP r.remoteAddr
    protocol := r.proto
    method := r.method
    uri := Http.uri r
    header := r.header
    cookies := []
    attributes := r.attributes
    body := .nil }

/-- `putReq`, before the object goes to its pool. The uploads stay. -/
def Request.reset (req : Request) : Request :=
  { req with
    rawQuery := []
    remoteAddr := []
    protocol := []
    method := []
    uri := []
    header := []
    cookies := []
    attributes := []
    body := .nil }

/-- `putPld`, before the object goes to its pool. -/
def Payload.reset (p : Payload) : Payload := { p with body := .raw [], context := .raw [] }

/-- How the worker and the response writer answer a payload. -/
inductive Answer where
  | execFailed (err : Err)
  | writeFailed (err : Err)
  | writePanics
  | written (status : Int)

/-- A call of `ServeHTTP`. -/
structure Served where
  r : HttpRequest
  pickReq : Option Nat := none
  pickPld : Option Nat := none
  opens : Nat → OpenOutcome := fun _ => .noFile
  answer : Answer := .written 200

/-- How a call of `ServeHTTP` ends. -/
inductive End where
  | rejected (why : Config.Rejection)
  | requestFailed (err : Err)
  | requestPanics
  | payloadFailed (err : Err)
  | answered (answer : Answer)

/-- The pools of a handler. -/
structure Handler where
  reqPool : Pool Request
  pldPool : Pool Payload

/-- `NewHandler`. -/
def newHandler : Handler := ⟨.empty, .empty⟩

namespace Handler

variable (cfg : Config)

/-- `ServeHTTP`: how it ends, the payload given to `Exec`, and the handler after it. An object that is
in use when it panics is lost. -/
def serveHTTP (x : Served) (h : Handler) : End × Option Payload × Handler :=
  match cfg.reject x.r with
  | some why => (.rejected why, none, h)
  | none =>
    let (req, reqPool) := h.reqPool.get {} x.pickReq
    match request x.r (req.fill x.r) with
    | (.panicked, _) => (.requestPanics, none, { h with reqPool := reqPool })
    | (.failed e, req) => (.requestFailed e, none, { h with reqPool := reqPool.put req.reset })
    | (.ok, req) =>
      let req := (cfg.resolveIP req).openUploads cfg.policy x.opens
      let (pld, pldPool) := h.pldPool.get {} x.pickPld
      match req.payload pld with
      | (some e, pld) => (.payloadFailed e, none, ⟨reqPool.put req.reset, pldPool.put pld.reset⟩)
      | (none, pld) =>
        match x.answer with
        | .writePanics => (.answered .writePanics, some pld, ⟨reqPool, pldPool⟩)
        | answer => (.answered answer, some pld, ⟨reqPool.put req.reset, pldPool.put pld.reset⟩)

/-- The payload that is given to `Exec`. -/
def sent (x : Served) (h : Handler) : Option Payload := (h.serveHTTP cfg x).2.1

/-- The handler after a call. -/
def after (h : Handler) (x : Served) : Handler := (h.serveHTTP cfg x).2.2

/-- The uploads that are left in the request that is picked for a call. -/
def stale (x : Served) (h : Handler) : Option Uploads := (h.reqPool.get {} x.pickReq).1.uploads

/-- No idle payload has a body. -/
def NoBody (h : Handler) : Prop := h.pldPool.All fun p => p.body = .raw []

theorem noBody_new : newHandler.NoBody := Pool.all_empty _

end Handler

/-! ## The payload of a request alone -/

/-- The payload of a request, from what `request` gives. -/
def Config.formed (cfg : Config) (x : Served) : Ended × Request → Option Payload
  | (.ok, req) =>
    match ((cfg.resolveIP req).openUploads cfg.policy x.opens).payload {} with
    | (none, pld) => some pld
    | (some _, _) => none
  | _ => none

/-- The payload of a request, read into a new struct, but one with the uploads `stale`. -/
def Config.built (cfg : Config) (x : Served) (stale : Option Uploads) : Option Payload :=
  match cfg.reject x.r with
  | some _ => none
  | none => cfg.formed x (request x.r (Request.fill x.r { uploads := stale }))

theorem Config.built_of_rejected {cfg : Config} {x : Served} {why : Config.Rejection}
    (h : cfg.reject x.r = some why) (stale : Option Uploads) : cfg.built x stale = none := by
  rw [Config.built, h]

theorem Config.built_of_fits {cfg : Config} {x : Served} (h : cfg.reject x.r = none)
    (stale : Option Uploads) :
    cfg.built x stale = cfg.formed x (request x.r (Request.fill x.r { uploads := stale })) := by
  rw [Config.built, h]

/-- `Payload` overwrites everything but an empty body. -/
theorem Request.payload_eq (req : Request) {p : Payload} (hp : p.body = .raw []) :
    req.payload p = req.payload {} := by
  obtain ⟨context, body⟩ := p
  cases hp
  unfold Request.payload
  cases req.json with
  | none => rfl
  | some j => cases req.body <;> rfl

namespace Handler

variable {cfg : Config}

/-- `ServeHTTP` sends the payload of the request alone, but for the uploads that are left in the
recycled struct. -/
theorem sent_eq_built {h : Handler} (hb : h.NoBody) (x : Served) :
    h.sent cfg x = cfg.built x (h.stale x) ∧ (h.after cfg x).NoBody := by
  have hnew : ({} : Payload).body = .raw [] := rfl
  have hpld := Pool.get_all hb hnew x.pickPld
  unfold sent after
  cases hfits : cfg.reject x.r with
  | some why =>
    rw [Config.built_of_rejected hfits, serveHTTP, hfits]
    exact ⟨rfl, hb⟩
  | none =>
    have hfill : (h.reqPool.get {} x.pickReq).1.fill x.r = Request.fill x.r { uploads := h.stale x } := rfl
    rw [Config.built_of_fits hfits, serveHTTP, hfits]
    dsimp only
    rw [hfill]
    obtain ⟨ended, req, hreq⟩ : ∃ ended req,
        request x.r (Request.fill x.r { uploads := h.stale x }) = (ended, req) := ⟨_, _, rfl⟩
    rw [hreq]
    cases ended with
    | panicked => exact ⟨rfl, hb⟩
    | failed e => exact ⟨rfl, hb⟩
    | ok =>
      unfold Config.formed
      dsimp only
      rw [Request.payload_eq _ hpld.1]
      obtain ⟨err, pld, hp⟩ : ∃ err pld, ((cfg.resolveIP req).openUploads cfg.policy
          x.opens).payload {} = (err, pld) := ⟨_, _, rfl⟩
      rw [hp]
      cases err with
      | some e => exact ⟨rfl, hpld.2.put rfl⟩
      | none =>
        cases x.answer with
        | writePanics => exact ⟨rfl, hpld.2⟩
        | _ => exact ⟨rfl, hpld.2.put rfl⟩

end Handler

end RoadRunner.Http
