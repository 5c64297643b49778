import RoadRunner.Basic
import RoadRunner.Lib.Pool
import RoadRunner.Lib.Run

/-!
# The response protocol of the jobs plugin

The model of `jobs/protocol`: a worker answers a job with a JSON message, and `RespHandler.Handle`
turns it into a call on the job.

* `Acknowledger`: what the driver of a job offers, over the driver's state. `Acknowledger.logged`
  is the same driver that also writes down its calls and their results.
* `RespHandler`: the three pools of recycled structs. `Response` is a body, with the objects that the
  runtime picks.
* `Json.reply`: what a body asks for. It reads nothing of the handler but one string, the payload
  that is in the recycled `queueResp`.
* `handle_eq`: `Handle` does what the body asks for, if the idle structs are reset (`Reset`), and
  leaves them so.
-/

namespace RoadRunner.Jobs

/-! ## Drivers -/

/-- `jobs.Acknowledger`. -/
structure Acknowledger (σ : Type) where
  ack : σ → Option Err × σ
  nack : σ → Option Err × σ
  requeue : Headers → Int64 → σ → Option Err × σ
  respond : Bytes → Bytes → σ → Option Err × σ

/-- A call on a job. -/
inductive Call where
  | ack
  | nack
  | requeue (headers : Headers) (delay : Int64)
  | respond (payload queue : Bytes)
  deriving DecidableEq

/-- The calls on a job with their results. -/
abbrev Log := List (Call × Option Err)

/-- The driver that writes down its calls. -/
def Acknowledger.logged {σ : Type} (jb : Acknowledger σ) : Acknowledger (σ × Log) where
  ack s := ((jb.ack s.1).1, (jb.ack s.1).2, s.2 ++ [(.ack, (jb.ack s.1).1)])
  nack s := ((jb.nack s.1).1, (jb.nack s.1).2, s.2 ++ [(.nack, (jb.nack s.1).1)])
  requeue headers delay s :=
    let out := jb.requeue headers delay s.1
    (out.1, out.2, s.2 ++ [(.requeue headers delay, out.1)])
  respond payload queue s :=
    let out := jb.respond payload queue s.1
    (out.1, out.2, s.2 ++ [(.respond payload queue, out.1)])

/-! ## Messages -/

/-- `protocol`, the envelope. `data` is a raw message. -/
structure Protocol where
  t : UInt32 := 0
  data : Bytes := []
  deriving DecidableEq

/-- `errorResp`. -/
structure ErrorResp where
  msg : Bytes := []
  requeue : Bool := false
  delay : Int64 := 0
  headers : Headers := none
  deriving DecidableEq

/-- `queueResp`. -/
structure QueueResp where
  queue : Bytes := []
  payload : Bytes := []
  deriving DecidableEq

/-- An assignment to a field of `protocol`. -/
inductive ProtocolField where
  | type (t : UInt32)
  | data (raw : Bytes)
  deriving DecidableEq

/-- An assignment to a field of `errorResp`. The entries of an object are added to the map that is
there, and `null` makes it nil. -/
inductive ErrorField where
  | message (msg : Bytes)
  | requeue (requeue : Bool)
  | delaySeconds (delay : Int64)
  | headers (entries : Headers)
  deriving DecidableEq

/-- An assignment to a field of `queueResp`. -/
inductive QueueField where
  | queue (queue : Bytes)
  | payload (payload : Bytes)
  deriving DecidableEq

/-- Assign a field. -/
def Protocol.set (p : Protocol) : ProtocolField → Protocol
  | .type t => { p with t := t }
  | .data raw => { p with data := raw }

/-- Assign a field. A map is merged. -/
def ErrorResp.set (er : ErrorResp) : ErrorField → ErrorResp
  | .message msg => { er with msg := msg }
  | .requeue requeue => { er with requeue := requeue }
  | .delaySeconds delay => { er with delay := delay }
  | .headers none => { er with headers := none }
  | .headers (some entries) => { er with headers := some (entries.foldl setEntry (er.headers.getD [])) }

/-- Assign a field. -/
def QueueResp.set (qs : QueueResp) : QueueField → QueueResp
  | .queue queue => { qs with queue := queue }
  | .payload payload => { qs with payload := payload }

/-- `json.Unmarshal` into each of the three structs: the assignments it makes, and its error. -/
structure Json where
  protocol : Bytes → List ProtocolField × Option Err
  errorResp : Bytes → List ErrorField × Option Err
  queueResp : Bytes → List QueueField × Option Err

/-- The decoder that knows the inputs of three tables, and refuses every other one. -/
def Json.table (ps : List (Bytes × List ProtocolField)) (es : List (Bytes × List ErrorField))
    (qs : List (Bytes × List QueueField)) : Json :=
  let look {F : Type} (t : List (Bytes × List F)) (b : Bytes) : List F × Option Err :=
    match t.lookup b with
    | some fields => (fields, none)
    | none => ([], some (.lib "Unmarshal"))
  ⟨look ps, look es, look qs⟩

/-- The message `{"type":2,"data":{"payload":"x"}}`. -/
def payloadMessage : Bytes := ascii "\x7b\"type\":2,\"data\":\x7b\"payload\":\"x\"\x7d\x7d"

/-- The message `{"type":2,"data":{}}`. -/
def emptyMessage : Bytes := ascii "\x7b\"type\":2,\"data\":\x7b\x7d\x7d"

/-- The message `{"type":1,"data":{"requeue":true}}`. -/
def requeueMessage : Bytes := ascii "\x7b\"type\":1,\"data\":\x7b\"requeue\":true\x7d\x7d"

/-- The decoder on the three messages. -/
def sampleJson : Json :=
  .table
    [(payloadMessage, [.type 2, .data (ascii "\x7b\"payload\":\"x\"\x7d")]),
      (emptyMessage, [.type 2, .data (ascii "\x7b\x7d")]),
      (requeueMessage, [.type 1, .data (ascii "\x7b\"requeue\":true\x7d")])]
    [(ascii "\x7b\"requeue\":true\x7d", [.requeue true])]
    [(ascii "\x7b\"payload\":\"x\"\x7d", [.payload (ascii "x")]), (ascii "\x7b\x7d", [])]

/-! ## The handler -/

/-- The pools of a response handler. -/
structure RespHandler where
  pPool : Pool Protocol
  ePool : Pool ErrorResp
  qPool : Pool QueueResp
  deriving DecidableEq

/-- `NewResponseHandler`. -/
def newResponseHandler : RespHandler := ⟨.empty, .empty, .empty⟩

/-- `putErrResp`, before the object goes to its pool. -/
def ErrorResp.reset (er : ErrorResp) : ErrorResp :=
  { er with msg := [], headers := none, delay := 0, requeue := false }

/-- `putQResp`, before the object goes to its pool. -/
def QueueResp.reset (qs : QueueResp) : QueueResp := { qs with queue := [] }

/-- `putProtocol`, before the object goes to its pool. -/
def Protocol.reset (p : Protocol) : Protocol := { p with t := 0, data := [] }

/-- A response of a worker, with the objects that the runtime picks from the pools for it. -/
structure Response where
  body : Bytes
  pickP : Option Nat := none
  pickE : Option Nat := none
  pickQ : Option Nat := none
  deriving DecidableEq

namespace RespHandler

variable {σ : Type} (json : Json) (jb : Acknowledger σ)

/-- `handleErrResp`. The error of an `Ack` is only written to the log. -/
def handleErrResp (data : Bytes) (pick : Option Nat) (rh : RespHandler) (s : σ) :
    Option Err × RespHandler × σ :=
  let (er, ePool) := rh.ePool.get {} pick
  let (fields, err) := json.errorResp data
  let er := fields.foldl ErrorResp.set er
  let rh := { rh with ePool := ePool.put er.reset }
  match err with
  | some e => (some e, rh, s)
  | none =>
    if er.requeue then
      let (err, s) := jb.requeue er.headers er.delay s
      (err, rh, s)
    else (none, rh, (jb.ack s).2)

/-- `handleQueueResp`. -/
def handleQueueResp (data : Bytes) (pick : Option Nat) (rh : RespHandler) (s : σ) :
    Option Err × RespHandler × σ :=
  let (qs, qPool) := rh.qPool.get {} pick
  let (fields, err) := json.queueResp data
  let qs := fields.foldl QueueResp.set qs
  let rh := { rh with qPool := qPool.put qs.reset }
  match err with
  | some e => (some e, rh, s)
  | none =>
    let (err, s) := jb.respond qs.payload qs.queue s
    (err, rh, s)

/-- `Handle`: the error, the handler and the driver after it. The types `NoError`, `Error` and
`Response` are 0, 1 and 2. -/
def handle (r : Response) (rh : RespHandler) (s : σ) : Option Err × RespHandler × σ :=
  let op := Err.op "jobs_handle_response"
  let (p, pPool) := rh.pPool.get {} r.pickP
  let rh := { rh with pPool := pPool }
  let (fields, err) := json.protocol r.body
  let p := fields.foldl Protocol.set p
  let (err, rh, s) : Option Err × RespHandler × σ :=
    match err with
    | some e => (some (op e), rh, s)
    | none =>
      if p.t = 0 then
        let (err, s) := jb.ack s
        (err.map op, rh, s)
      else if p.t = 1 then
        let (err, rh, s) := handleErrResp json jb p.data r.pickE rh s
        (err.map op, rh, s)
      else if p.t = 2 then handleQueueResp json jb p.data r.pickQ rh s
      else
        let (err, s) := jb.ack s
        (err.map op, rh, s)
  (err, { rh with pPool := rh.pPool.put p.reset }, s)

end RespHandler

/-! ## What a response asks for -/

/-- What a response asks for. -/
inductive Reply where
  /-- The message does not decode. -/
  | malformed (err : Err)
  | ack
  /-- An error without a requeue. -/
  | drop
  | requeue (headers : Headers) (delay : Int64)
  | respond (payload queue : Bytes)
  deriving DecidableEq

/-- What the data of an error message asks for. -/
def Json.errReply (json : Json) (data : Bytes) : Reply :=
  match json.errorResp data with
  | (_, some e) => .malformed (.op "jobs_handle_response" e)
  | (fields, none) =>
    let er := fields.foldl ErrorResp.set {}
    if er.requeue then .requeue er.headers er.delay else .drop

/-- What the data of a response message asks for, where the payload is `stale` until it is
assigned. -/
def Json.queueReply (json : Json) (stale data : Bytes) : Reply :=
  match json.queueResp data with
  | (_, some e) => .malformed e
  | (fields, none) =>
    let qs := fields.foldl QueueResp.set { payload := stale }
    .respond qs.payload qs.queue

/-- What a body asks for, read into new structs, but into a `queueResp` with the payload `stale`. -/
def Json.reply (json : Json) (stale body : Bytes) : Reply :=
  match json.protocol body with
  | (_, some e) => .malformed (.op "jobs_handle_response" e)
  | (fields, none) =>
    let p := fields.foldl Protocol.set {}
    if p.t = 1 then json.errReply p.data
    else if p.t = 2 then json.queueReply stale p.data
    else .ack

/-- The envelope of a body that decodes. -/
def Json.envelope (json : Json) (body : Bytes) : Protocol := (json.protocol body).1.foldl Protocol.set {}

/-- The body is a response message (type 2), and its data decodes. -/
def Json.IsResponse (json : Json) (body : Bytes) : Prop :=
  (json.protocol body).2 = none ∧ (json.envelope body).t = 2 ∧
    (json.queueResp (json.envelope body).data).2 = none

instance (json : Json) (body : Bytes) : Decidable (json.IsResponse body) :=
  inferInstanceAs (Decidable ((json.protocol body).2 = none ∧ (json.envelope body).t = 2 ∧
    (json.queueResp (json.envelope body).data).2 = none))

/-- The data of a response message, read into a `queueResp` with the payload `stale`. -/
def Json.queueMessage (json : Json) (stale body : Bytes) : QueueResp :=
  (json.queueResp (json.envelope body).data).1.foldl QueueResp.set { payload := stale }

theorem Json.reply_of_isResponse {json : Json} {body : Bytes} (h : json.IsResponse body)
    (stale : Bytes) : json.reply stale body =
      .respond (json.queueMessage stale body).payload (json.queueMessage stale body).queue := by
  obtain ⟨fields, err, hjson⟩ : ∃ fields err, json.protocol body = (fields, err) := ⟨_, _, rfl⟩
  simp only [IsResponse, queueMessage, envelope, hjson] at h ⊢
  obtain ⟨rfl, h2, hok⟩ := h
  obtain ⟨qfields, qerr, hq⟩ : ∃ qfields qerr,
      json.queueResp (fields.foldl Protocol.set {}).data = (qfields, qerr) := ⟨_, _, rfl⟩
  rw [hq] at hok
  obtain rfl : qerr = none := hok
  simp only [reply, hjson, queueReply]
  rw [if_neg (by rw [h2]; decide), if_pos h2, hq]

/-- Any other body asks for something else, whatever payload is in the struct. -/
theorem Json.reply_of_not_isResponse {json : Json} {body : Bytes} (h : ¬ json.IsResponse body)
    (stale : Bytes) : json.reply stale body = json.reply [] body ∧
      ∀ payload queue, json.reply stale body ≠ .respond payload queue := by
  obtain ⟨fields, err, hjson⟩ : ∃ fields err, json.protocol body = (fields, err) := ⟨_, _, rfl⟩
  simp only [reply, IsResponse, envelope, hjson] at h ⊢
  cases err with
  | some e => exact ⟨rfl, nofun⟩
  | none =>
    dsimp only at h ⊢
    generalize fields.foldl Protocol.set {} = p at h ⊢
    by_cases h1 : p.t = 1
    · rw [if_pos h1, if_pos h1, errReply]
      refine ⟨rfl, ?_⟩
      split
      · exact nofun
      · dsimp only
        split <;> exact nofun
    by_cases h2 : p.t = 2
    · rw [if_neg h1, if_pos h2, if_neg h1, if_pos h2, queueReply, queueReply]
      split
      · exact ⟨rfl, nofun⟩
      · rename_i hq
        exact absurd ⟨rfl, h2, by rw [hq]⟩ h
    · rw [if_neg h1, if_neg h2, if_neg h1, if_neg h2]
      exact ⟨rfl, nofun⟩

/-- The call that a reply asks for, and the error that `Handle` returns. -/
def Reply.run {σ : Type} (jb : Acknowledger σ) (s : σ) : Reply → Option Err × σ
  | .malformed e => (some e, s)
  | .ack => ((jb.ack s).1.map (.op "jobs_handle_response"), (jb.ack s).2)
  | .drop => (none, (jb.ack s).2)
  | .requeue headers delay =>
    ((jb.requeue headers delay s).1.map (.op "jobs_handle_response"), (jb.requeue headers delay s).2)
  | .respond payload queue => jb.respond payload queue s

/-! ## `Handle` does what a response asks for -/

namespace RespHandler

/-- The idle objects are as new, except for the payload of a `queueResp`. -/
structure Reset (rh : RespHandler) : Prop where
  protocol : rh.pPool.All (· = {})
  errorResp : rh.ePool.All (· = {})
  queueResp : rh.qPool.All (·.queue = [])

/-- The payload that is in the `queueResp` picked for the response. -/
def stale (rh : RespHandler) (r : Response) : Bytes := (rh.qPool.get {} r.pickQ).1.payload

theorem QueueResp.eq_of_queue {qs : QueueResp} (h : qs.queue = []) : qs = { payload := qs.payload } := by
  obtain ⟨queue, payload⟩ := qs
  obtain rfl : queue = [] := h
  rfl

theorem reset_new : Reset newResponseHandler := ⟨Pool.all_empty _, Pool.all_empty _, Pool.all_empty _⟩

section

variable {σ : Type} (json : Json) (jb : Acknowledger σ)

theorem handleErrResp_spec {rh : RespHandler} (h : rh.Reset) (data : Bytes) (pick : Option Nat)
    (s : σ) :
    let out := handleErrResp json jb data pick rh s
    out.2.1.Reset ∧ (out.1.map (.op "jobs_handle_response"), out.2.2) = (json.errReply data).run jb s := by
  obtain ⟨hnew, hpool⟩ := Pool.get_all h.errorResp rfl pick
  intro out
  constructor
  · have hreset : ∀ er : ErrorResp, ((rh.ePool.get {} pick).2.put er.reset).All (· = {}) :=
      fun er => hpool.put rfl
    simp only [out, handleErrResp]
    repeat' split
    all_goals exact ⟨h.protocol, hreset _, h.queueResp⟩
  · obtain ⟨fields, err, hjson⟩ : ∃ fields err, json.errorResp data = (fields, err) := ⟨_, _, rfl⟩
    simp only [out, handleErrResp, Json.errReply, hnew, hjson]
    cases err with
    | some e => rfl
    | none =>
      by_cases hreq : (fields.foldl ErrorResp.set {}).requeue = true <;> simp [hreq, Reply.run]

theorem handleQueueResp_spec {rh : RespHandler} (h : rh.Reset) (data : Bytes) (pick : Option Nat)
    (s : σ) :
    let out := handleQueueResp json jb data pick rh s
    out.2.1.Reset ∧
      (out.1, out.2.2) = (json.queueReply (rh.qPool.get {} pick).1.payload data).run jb s := by
  obtain ⟨hnew, hpool⟩ := Pool.get_all h.queueResp (show QueueResp.queue {} = [] from rfl) pick
  intro out
  constructor
  · have hreset : ∀ qs : QueueResp, ((rh.qPool.get {} pick).2.put qs.reset).All (·.queue = []) :=
      fun qs => hpool.put rfl
    simp only [out, handleQueueResp]
    split
    all_goals exact ⟨h.protocol, h.errorResp, hreset _⟩
  · have hqs := QueueResp.eq_of_queue hnew
    obtain ⟨fields, err, hjson⟩ : ∃ fields err, json.queueResp data = (fields, err) := ⟨_, _, rfl⟩
    simp only [out, handleQueueResp, Json.queueReply, ← hqs, hjson]
    cases err <;> rfl

/-- **`Handle` does what the body asks for**, and leaves the idle objects reset. -/
theorem handle_eq {rh : RespHandler} (h : rh.Reset) (r : Response) (s : σ) :
    let out := handle json jb r rh s
    out.2.1.Reset ∧ (out.1, out.2.2) = (json.reply (rh.stale r) r.body).run jb s := by
  obtain ⟨hnew, hpool⟩ := Pool.get_all h.protocol rfl r.pickP
  have hrh : Reset { rh with pPool := (rh.pPool.get {} r.pickP).2 } :=
    ⟨hpool, h.errorResp, h.queueResp⟩
  have hput : ∀ {rh : RespHandler} (p : Protocol), rh.Reset →
      Reset { rh with pPool := rh.pPool.put p.reset } :=
    fun p h => ⟨h.protocol.put rfl, h.errorResp, h.queueResp⟩
  obtain ⟨fields, err, hjson⟩ : ∃ fields err, json.protocol r.body = (fields, err) := ⟨_, _, rfl⟩
  simp only [handle, Json.reply, hnew, hjson]
  cases err with
  | some e => exact ⟨hput _ hrh, rfl⟩
  | none =>
    dsimp only
    generalize fields.foldl Protocol.set {} = p
    by_cases h0 : p.t = 0
    · rw [if_pos h0, h0]
      exact ⟨hput p hrh, rfl⟩
    by_cases h1 : p.t = 1
    · obtain ⟨hreset, heq⟩ := handleErrResp_spec json jb hrh p.data r.pickE s
      rw [if_neg h0, if_pos h1, if_pos h1]
      exact ⟨hput p hreset, heq⟩
    by_cases h2 : p.t = 2
    · obtain ⟨hreset, heq⟩ := handleQueueResp_spec json jb hrh p.data r.pickQ s
      rw [if_neg h0, if_neg h1, if_pos h2, if_neg h1, if_pos h2]
      exact ⟨hput p hreset, heq⟩
    · rw [if_neg h0, if_neg h1, if_neg h2, if_neg h1, if_neg h2]
      exact ⟨hput p hrh, rfl⟩

end

/-- The driver whose calls all succeed. -/
def silent : Acknowledger Unit where
  ack s := (none, s)
  nack s := (none, s)
  requeue _ _ s := (none, s)
  respond _ _ s := (none, s)

/-- The handler after a response. -/
def after (json : Json) (rh : RespHandler) (r : Response) : RespHandler := (handle json silent r rh ()).2.1

theorem reset_after (json : Json) {rh : RespHandler} (h : rh.Reset) (r : Response) :
    (rh.after json r).Reset := (handle_eq json silent h r ()).1

/-- The calls that the handler makes for a response. -/
def calls {σ : Type} (json : Json) (jb : Acknowledger σ) (r : Response) (rh : RespHandler) (s : σ) :
    Log := (handle json jb.logged r rh (s, [])).2.2.2

end RespHandler

end RoadRunner.Jobs
