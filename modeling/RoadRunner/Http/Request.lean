import RoadRunner.Http.Parse

/-!
# The PSR-7 request

The model of `http/handler/request.go`: an `http.Request` is read into a `Request`, which is marshaled
into the payload of a worker.

* `HttpRequest`: what the handler reads of an `http.Request`. What reading and parsing its body gives
  is part of it.
* `Request`: the recycled struct. `Parsed` is set together with a parsed body, so it is read off the
  body.
-/

namespace RoadRunner.Http

/-! ## Requests of a client -/

/-- `http.Header`, with canonical keys. -/
abbrev Header := List (Bytes × List Bytes)

/-- `Header.Get` of a canonical key. -/
def Header.first (header : Header) (key : String) : Bytes :=
  ((header.lookup (ascii key)).bind List.head?).getD []

/-- `multipart.Form`. -/
structure MultipartForm where
  value : List (Name × List Bytes)
  file : List (Name × List FileHeader)

/-- An `http.Request`. -/
structure HttpRequest where
  remoteAddr : Bytes := []
  proto : Bytes := []
  method : Bytes
  /-- `URL.String()`. -/
  url : Bytes := []
  urlHost : Bytes := []
  rawQuery : Bytes := []
  host : Bytes := []
  tls : Bool := false
  header : Header := []
  /-- The names of `Cookies()` with their values unescaped, or `none` if `QueryUnescape` fails. -/
  cookies : List (Bytes × Option Bytes) := []
  /-- `attributes.All`; `none` is a value that cannot be marshaled. -/
  attributes : List (Bytes × Option Json) := []
  /-- What `io.ReadAll` reads of the body, and its error. -/
  readAll : Bytes × Option Err := ([], none)
  /-- `MultipartForm` after `ParseMultipartForm`. -/
  parseMultipartForm : Except Err MultipartForm := .ok ⟨[], []⟩
  /-- `PostForm` after `ParseForm`. -/
  parseForm : Except Err (List (Name × List Bytes)) := .ok []

/-- `strings.ReplaceAll` of `\n` and `\r` by nothing. -/
def stripNewlines (s : Bytes) : Bytes := s.filter fun c => c ≠ 10 ∧ c ≠ 13

/-- `URI`. -/
def uri (r : HttpRequest) : Bytes :=
  let uri := stripNewlines r.url
  if r.urlHost ≠ [] then uri
  else if r.tls then ascii "https://" ++ r.host ++ uri
  else ascii "http://" ++ r.host ++ uri

/-- The host that `net.SplitHostPort` returns, or `none` if it returns an error. -/
def splitHostPort (s : Bytes) : Option Bytes :=
  if 58 ∉ s then none
  else
    -- the last colon
    let i := s.length - (s.reverse.takeWhile (· ≠ 58)).length - 1
    if s.head? = some 91 then
      let close := s.idxOf 93
      if close + 1 = i ∧ 91 ∉ s.drop 1 ∧ 93 ∉ s.drop (close + 1) then some ((s.take close).drop 1)
      else none
    else if 58 ∉ s.take i ∧ 91 ∉ s ∧ 93 ∉ s then some (s.take i)
    else none

/-- `FetchIP`. -/
def fetchIP (pair : Bytes) : Bytes := if 58 ∉ pair then pair else (splitHostPort pair).getD []

/-! ## The request of a worker -/

/-- The body of a request: nothing yet, the bytes of a stream, or parsed data. -/
inductive Body where
  | nil
  | stream (b : Bytes)
  | data (t : Tree Bytes)

/-- `Request`. The nil maps of a request that is put back are empty maps: `getReq` replaces them before
they are read. -/
structure Request where
  remoteAddr : Bytes := []
  protocol : Bytes := []
  method : Bytes := []
  uri : Bytes := []
  header : Header := []
  cookies : List (Bytes × Bytes) := []
  rawQuery : Bytes := []
  uploads : Option Uploads := none
  attributes : List (Bytes × Option Json) := []
  body : Body := .nil

/-- `contentNone`, `contentStream`, `contentMultipart` and `contentFormData`. -/
inductive ContentType where
  | none
  | stream
  | multipart
  | formData
  deriving DecidableEq

/-- `contentType`, of a request with this method and header. -/
def contentType (method : Bytes) (header : Header) : ContentType :=
  if method = ascii "HEAD" ∨ method = ascii "OPTIONS" then .none
  else
    let ct := header.first "Content-Type"
    if ascii "application/x-www-form-urlencoded" <:+: ct then .formData
    else if ascii "multipart/form-data" <:+: ct then .multipart
    else .stream

/-- How a call ended. -/
inductive Ended where
  | ok
  | failed (err : Err)
  | panicked

/-- The case `contentFormData` of `request`; `value` is that of `MultipartForm`, which is nil unless the
form is a multipart form. -/
def formData (r : HttpRequest) (value : List (Name × List Bytes)) (req : Request) : Ended × Request :=
  match r.parseForm with
  | .error e => (.failed e, req)
  | .ok postForm =>
    match parseData postForm value with
    | none => (.panicked, req)
    | some t => (.ok, { req with body := .data t })

/-- The loop of `request` over the cookies. -/
def Request.addCookies (r : HttpRequest) (req : Request) : Request :=
  let cookies := r.cookies.filterMap fun c => c.2.map fun v => (c.1, v)
  { req with cookies := cookies.foldl setEntry req.cookies }

/-- The switch of `request`. -/
def readBody (r : HttpRequest) (req : Request) : ContentType → Ended × Request
  | .none => (.ok, req)
  | .stream =>
    let req := { req with body := .stream r.readAll.1 }
    match r.readAll.2 with
    | some e => (.failed e, req)
    | none => (.ok, req)
  | .multipart =>
    match r.parseMultipartForm with
    | .error e => (.failed e, req)
    | .ok form =>
      match parseUploads form.file with
      | none => (.panicked, req)
      | some u => formData r form.value { req with uploads := some u }
  | .formData => formData r [] req

/-- `request`. -/
def request (r : HttpRequest) (req : Request) : Ended × Request :=
  let req := req.addCookies r
  readBody r req (contentType req.method req.header)

/-- `Request.Open`. -/
def Request.openUploads (policy : UploadPolicy) (os : Nat → OpenOutcome) (req : Request) : Request :=
  { req with uploads := req.uploads.map (Uploads.openAll policy os) }

/-! ## Payloads -/

/-- The values of attributes, or `none` if one cannot be marshaled. -/
def attributesJson (attributes : List (Bytes × Option Json)) : Option (List (Bytes × Json)) :=
  attributes.mapM fun a => a.2.map fun v => (a.1, v)

/-- The JSON values of the fields before `Uploads`. -/
def Request.fields (req : Request) : List (Bytes × Json) :=
  [(ascii "remoteAddr", .str req.remoteAddr), (ascii "protocol", .str req.protocol),
    (ascii "method", .str req.method), (ascii "uri", .str req.uri),
    (ascii "headers", .obj (req.header.map fun h => (h.1, .arr (h.2.map .str)))),
    (ascii "cookies", .obj (req.cookies.map fun c => (c.1, .str c.2))),
    (ascii "rawQuery", .str req.rawQuery),
    (ascii "parsed", .bool (match req.body with | .data _ => true | _ => false))]

/-- The JSON value of uploads, or `null`. -/
def uploadsJson (u : Option Uploads) : Json := (u.map Uploads.json).getD .null

/-- `json.Marshal` of a request. -/
def Request.json (req : Request) : Option Json :=
  (attributesJson req.attributes).map fun attributes =>
    .obj (req.fields ++ [(ascii "uploads", uploadsJson req.uploads), (ascii "attributes", .obj attributes)])

/-- `json.Marshal` of a `dataTree`. -/
def dataJson (t : Tree Bytes) : Json :=
  .obj (treeJson (fun
    | .scalar v => .str v
    | .array vs => .arr (vs.map .str)) t)

/-- A text of a payload: bytes, or the text of a JSON value. -/
inductive Text where
  | raw (b : Bytes)
  | json (j : Json)

/-- `payload.Payload`. -/
structure Payload where
  context : Text := .raw []
  body : Text := .raw []

/-- `Request.Payload`: the error, and the payload after it. -/
def Request.payload (req : Request) (p : Payload) : Option Err × Payload :=
  match req.json with
  | none => (some (.lib "Marshal"), { p with context := .raw [] })
  | some context =>
    let p := { p with context := .json context }
    match req.body with
    | .data t => (none, { p with body := .json (dataJson t) })
    | .stream b => (none, { p with body := .raw b })
    | .nil => (none, p)

end RoadRunner.Http
