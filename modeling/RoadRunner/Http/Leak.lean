import RoadRunner.Http.Handler

/-!
# Recycled requests of the handler

`getReq` and `putReq` set every field of a request but its uploads, and `request` sets those of a
multipart form only. So any other request that is read into a struct with uploads is sent with them.

* `built_eq_of_not_plain`: the uploads left in the struct make a difference for such a request only.
* `sent_eq_fresh_iff`: after any history, the payload of a request is that of a new handler exactly if
  it is no such request, or the struct picked for it has no uploads.
-/

namespace RoadRunner.Http

/-- The form of the request can be read into a tree. -/
def HttpRequest.ReadsForm (r : HttpRequest) : Prop :=
  ∃ postForm, r.parseForm = .ok postForm ∧ parseData postForm [] ≠ none

/-- The request is no multipart form, and its body can be read. -/
def HttpRequest.ReadsPlain (r : HttpRequest) : Prop :=
  match contentType r.method r.header with
  | .none => True
  | .stream => r.readAll.2 = none
  | .multipart => False
  | .formData => r.ReadsForm

/-- The request is not turned away, is no multipart form, its body can be read, and its attributes can
be marshaled. -/
structure Config.SendsPlain (cfg : Config) (r : HttpRequest) : Prop where
  fits : cfg.reject r = none
  reads : r.ReadsPlain
  marshals : attributesJson r.attributes ≠ none

/-- The struct that the body of a request is read into, with the uploads `u` from before. -/
def HttpRequest.struct (r : HttpRequest) (u : Option Uploads) : Request :=
  (Request.fill r { uploads := u }).addCookies r

theorem request_fill (r : HttpRequest) (u : Option Uploads) :
    request r (Request.fill r { uploads := u }) =
      readBody r (r.struct u) (contentType r.method r.header) := rfl

/-- A plain request is read into a struct that keeps the uploads from before. -/
theorem readBody_of_readsPlain {r : HttpRequest} (h : r.ReadsPlain) :
    ∃ body, ∀ u, readBody r (r.struct u) (contentType r.method r.header) =
      (.ok, { r.struct u with body := body }) := by
  unfold HttpRequest.ReadsPlain at h
  cases hct : contentType r.method r.header with
  | none => exact ⟨.nil, fun u => rfl⟩
  | stream =>
    rw [hct] at h
    exact ⟨.stream r.readAll.1, fun u => by simp only [readBody, h]⟩
  | multipart =>
    rw [hct] at h
    exact h.elim
  | formData =>
    rw [hct] at h
    obtain ⟨postForm, hform, hdata⟩ := h
    obtain ⟨t, ht⟩ := Option.ne_none_iff_exists'.mp hdata
    exact ⟨.data t, fun u => by simp only [readBody, formData, hform, ht]⟩

/-- Any other request is read into the same struct whatever the uploads from before are, or it is not
read. -/
theorem readBody_of_not_readsPlain {r : HttpRequest} (h : ¬ r.ReadsPlain) (u : Option Uploads) :
    readBody r (r.struct u) (contentType r.method r.header) =
        readBody r (r.struct none) (contentType r.method r.header) ∨
      ∀ u', (readBody r (r.struct u') (contentType r.method r.header)).1 ≠ .ok := by
  unfold HttpRequest.ReadsPlain at h
  cases hct : contentType r.method r.header with
  | none =>
    rw [hct] at h
    exact absurd trivial h
  | stream =>
    rw [hct] at h
    obtain ⟨e, he⟩ := Option.ne_none_iff_exists'.mp h
    exact .inr fun u' => by simp [readBody, he]
  | multipart =>
    cases hm : r.parseMultipartForm with
    | error e => exact .inr fun u' => by simp [readBody, hm]
    | ok form =>
      cases hu : parseUploads form.file with
      | none => exact .inr fun u' => by simp [readBody, hm, hu]
      | some new =>
        left
        simp only [readBody, hm, hu]
        rfl
  | formData =>
    rw [hct] at h
    right
    intro u'
    cases hf : r.parseForm with
    | error e => simp [readBody, formData, hf]
    | ok postForm =>
      have hdata : parseData postForm [] = none := by
        by_contra hne
        exact h ⟨postForm, hf, hne⟩
      simp [readBody, formData, hf, hdata]

/-- The value of `uploads` in the context of a payload. -/
def Payload.uploads (p : Payload) : Option Json :=
  match p.context with
  | .json (.obj fields) => fields.lookup (ascii "uploads")
  | _ => none

theorem Request.lookup_fields (req : Request) : req.fields.lookup (ascii "uploads") = none := by
  have hkeys : ascii "uploads" ∉ ["remoteAddr", "protocol", "method", "uri", "headers", "cookies",
      "rawQuery", "parsed"].map ascii := by decide +kernel
  rw [List.lookup_eq_none_iff]
  intro f hf
  have hmem : f.1 ∈ req.fields.map Prod.fst := List.mem_map_of_mem hf
  exact bne_iff_ne.mpr fun h => hkeys (h ▸ hmem)

/-- A request whose attributes can be marshaled is sent with its uploads. -/
theorem Request.payload_uploads {req : Request} (h : attributesJson req.attributes ≠ none) :
    ∃ p, req.payload {} = (none, p) ∧ p.uploads = some (uploadsJson req.uploads) := by
  obtain ⟨attributes, hattr⟩ := Option.ne_none_iff_exists'.mp h
  have hlookup : (req.fields ++ [(ascii "uploads", uploadsJson req.uploads),
      (ascii "attributes", .obj attributes)]).lookup (ascii "uploads") = some (uploadsJson req.uploads) := by
    rw [List.lookup_append, req.lookup_fields, Option.none_or, List.lookup_cons_self]
  unfold Request.payload Request.json
  rw [hattr]
  cases req.body with
  | _ => exact ⟨_, rfl, hlookup⟩

theorem Request.payload_of_attributes (req : Request) (h : attributesJson req.attributes = none) :
    req.payload {} = (some (.lib "Marshal"), {}) := by
  unfold Request.payload Request.json
  rw [h]
  rfl

theorem formed_of_not_ok {cfg : Config} (x : Served) {out : Ended × Request} (h : out.1 ≠ .ok) :
    cfg.formed x out = none := by
  obtain ⟨ended, req⟩ := out
  cases ended with
  | ok => exact absurd rfl h
  | _ => rfl

/-- The uploads left in the struct make no difference for a request that is not sent as a plain one. -/
theorem built_eq_of_not_sendsPlain {cfg : Config} {x : Served} (h : ¬ cfg.SendsPlain x.r)
    (u : Option Uploads) : cfg.built x u = cfg.built x none := by
  cases hfits : cfg.reject x.r with
  | some why => rw [Config.built_of_rejected hfits, Config.built_of_rejected hfits]
  | none =>
    rw [Config.built_of_fits hfits, Config.built_of_fits hfits, request_fill, request_fill]
    by_cases hreads : x.r.ReadsPlain
    · have hmarshal : attributesJson x.r.attributes = none := by
        by_contra hne
        exact h ⟨hfits, hreads, hne⟩
      obtain ⟨body, hbody⟩ := readBody_of_readsPlain hreads
      rw [hbody, hbody]
      have hnone : ∀ u, cfg.formed x (.ok, { x.r.struct u with body := body }) = none := by
        intro u
        let req := (cfg.resolveIP { x.r.struct u with body := body }).openUploads cfg.policy x.opens
        have hpld : req.payload {} = _ := req.payload_of_attributes hmarshal
        rw [Config.formed]
        dsimp only
        rw [hpld]
      rw [hnone, hnone]
    · rcases readBody_of_not_readsPlain hreads u with heq | hne
      · rw [heq]
      · rw [formed_of_not_ok x (hne u), formed_of_not_ok x (hne none)]

/-- A plain request is sent with the uploads that are left in the struct. -/
theorem built_of_sendsPlain {cfg : Config} {x : Served} (h : cfg.SendsPlain x.r) (u : Option Uploads) :
    ∃ p, cfg.built x u = some p ∧
      p.uploads = some (uploadsJson (u.map (Uploads.openAll cfg.policy x.opens))) := by
  obtain ⟨body, hbody⟩ := readBody_of_readsPlain h.reads
  let req := (cfg.resolveIP { x.r.struct u with body := body }).openUploads cfg.policy x.opens
  obtain ⟨p, hp, hup⟩ := Request.payload_uploads (show attributesJson req.attributes ≠ none from h.marshals)
  refine ⟨p, ?_, hup⟩
  rw [Config.built_of_fits h.fits, request_fill, hbody, Config.formed]
  dsimp only
  rw [hp]

theorem noBody_exec (cfg : Config) (history : List Served) :
    (Run.exec (Handler.after cfg) newHandler history).NoBody :=
  Run.exec_invariant (I := Handler.NoBody) (fun _ x h => (Handler.sent_eq_built h x).2) history
    Handler.noBody_new

/-- **When a used handler sends the payload of a new one.** After any history, the payload that is sent
for a request is that of a new handler exactly if it is no plain request that is sent from a struct
with uploads. -/
theorem sent_eq_fresh_iff (cfg : Config) (history : List Served) (x : Served) :
    let h := Run.exec (Handler.after cfg) newHandler history
    h.sent cfg x = newHandler.sent cfg x ↔ ¬ (cfg.SendsPlain x.r ∧ h.stale x ≠ none) := by
  intro h
  have hfresh : newHandler.stale x = none := by
    rw [Handler.stale, newHandler, Pool.get_empty]
  rw [(Handler.sent_eq_built (noBody_exec cfg history) x).1,
    (Handler.sent_eq_built Handler.noBody_new x).1, hfresh]
  constructor
  · rintro heq ⟨hplain, hstale⟩
    obtain ⟨u, hu⟩ := Option.ne_none_iff_exists'.mp hstale
    obtain ⟨p, hp, hup⟩ := built_of_sendsPlain hplain (h.stale x)
    obtain ⟨p', hp', hup'⟩ := built_of_sendsPlain hplain none
    rw [heq, hp'] at hp
    cases hp
    rw [hup', hu] at hup
    simp [uploadsJson, Uploads.json] at hup
  · intro hnot
    by_cases hplain : cfg.SendsPlain x.r
    · have hstale : h.stale x = none := by
        by_contra hne
        exact hnot ⟨hplain, hne⟩
      rw [hstale]
    · exact built_eq_of_not_sendsPlain hplain (h.stale x)

/-- Settings without limits. -/
def sampleConfig : Config where
  maxRequestSize := maxBytes 0
  policy := ⟨[], [], id⟩
  isTrusted _ := false
  isIP _ := false
  trimSpace := id

/-- A plain request is sent with the file of the multipart form before it. A new handler sends `null`. -/
theorem uploads_leak :
    let file : FileHeader := ⟨ascii "1.txt", ascii "text/plain"⟩
    let upload : Served :=
      { r := { method := ascii "POST"
               header := [(ascii "Content-Type", [ascii "multipart/form-data"])]
               parseMultipartForm := .ok ⟨[], [("f".toList, [file])]⟩ }
        opens := fun _ => .copied (ascii "/tmp/upload1") 5 true }
    let plain : Served :=
      { r := { method := ascii "GET" }
        pickReq := some 0
        opens := fun _ => .copied (ascii "/tmp/upload2") 5 true }
    let h := Run.exec (Handler.after sampleConfig) newHandler [upload]
    let stale : FileUpload := ⟨ascii "1.txt", ascii "text/plain", 5, uploadErrorOK, ascii "/tmp/upload2"⟩
    (h.sent sampleConfig plain).bind Payload.uploads = some (.obj [(Name.text "f".toList, stale.json)]) ∧
      (newHandler.sent sampleConfig plain).bind Payload.uploads = some .null :=
  ⟨rfl, rfl⟩

end RoadRunner.Http
