import RoadRunner.Http.Uploads
import RoadRunner.Http.Writer

/-!
# Static files

The model of `http/middleware/static`: what `Init` makes of the configuration, and the handler, which
serves a file under the root directory or passes the request on to the next handler.

Logging and the closing of the file are left out.
-/

namespace RoadRunner.Http.Static

/-- The configuration of the static plugin. -/
structure Config where
  dir : Bytes
  calculateEtag : Bool := false
  weak : Bool := false
  forbid : List Bytes := []
  allow : List Bytes := []
  request : List (Bytes × Bytes) := []
  response : List (Bytes × Bytes) := []

/-- What `os.Stat` says of the root directory. -/
inductive DirStat where
  | notExist
  | failed
  | file
  | dir

/-- `Config.Valid`. -/
def Config.valid (c : Config) : DirStat → Option Err
  | .notExist => some (.op "static_plugin_valid" (.errorf "root directory '%s' does not exists" (.str c.dir.text)))
  | .failed => some (.lib "Stat")
  | .file => some (.op "static_plugin_valid" (.errorf "invalid root directory '%s'" (.str c.dir.text)))
  | .dir => none

/-- What the configuration plugin answers: whether there are the sections `http` and `http.static`, and the
second one decoded. -/
structure Configurer where
  hasHttp : Bool
  hasStatic : Bool
  unmarshal : Option Config

/-- The static plugin, as `Init` makes it. -/
structure Plugin where
  cfg : Config
  allowedExtensions : List Bytes
  forbiddenExtensions : List Bytes

/-- The sets that `Init` builds. Empty entries are skipped, and what is forbidden is deleted from what is
allowed. -/
def Plugin.ofConfig (cfg : Config) : Plugin where
  cfg := cfg
  forbiddenExtensions := cfg.forbid.filter (· ≠ [])
  allowedExtensions := (cfg.allow.filter (· ≠ [])).filter (· ∉ cfg.forbid.filter (· ≠ []))

/-- `Init`. -/
def Plugin.init (c : Configurer) (stat : DirStat) : Except Err Plugin :=
  let op := Err.op "static_plugin_init"
  if !c.hasHttp then .error (op (.str "disabled"))
  else if !c.hasStatic then .error (op (.str "disabled"))
  else
    match c.unmarshal with
    | none => .error (op (.lib "UnmarshalKey"))
    | some cfg =>
      match cfg.valid stat with
      | some err => .error (op err)
      | none => .ok (.ofConfig cfg)

/-- What `f.Stat` returns. -/
structure FileInfo where
  name : Bytes
  isDir : Bool

/-- An opened file: what `Stat` and `io.ReadAll` return, if no error. -/
structure File where
  stat : Option FileInfo
  readAll : Option Bytes

/-- `appendUint`: decimal digits, the last one first in the loop. -/
def appendUint (dst : Bytes) (n : Nat) : Bytes :=
  if n < 10 then dst ++ [UInt8.ofNat (48 + n)]
  else appendUint dst (n / 10) ++ [UInt8.ofNat (48 + n % 10)]

/-- `Header.Set`. -/
def setHeader (h : Header) (k v : Bytes) : Header := setEntry h (canonicalKey k, [v])

/-- `SetEtag`; `crc32` is the checksum with the table of the source. -/
def setEtag (crc32 : Bytes → UInt32) (weak : Bool) (f : File) (name : Bytes) (w : Header) : Header :=
  if weak then
    setHeader w (ascii "Etag") (appendUint (ascii "W/" ++ ascii "\"") (crc32 name).toNat ++ ascii "\"")
  else
    match f.readAll with
    | none | some [] => w
    | some body =>
      let tag := appendUint (ascii "\"") body.length.toUInt32.toNat ++ ascii "-"
      setHeader w (ascii "Etag") (appendUint tag (crc32 body).toNat ++ ascii "\"")

/-- What the handler does with a request. -/
inductive Answer where
  /-- Status 403. -/
  | forbidden
  /-- The request goes to the next handler. -/
  | next
  /-- `http.ServeContent`, with the headers of the request and of the response. -/
  | serveContent (f : File) (name : Bytes) (request response : Header)

/-- The path without line breaks. -/
def filePath (path : Bytes) : Bytes := (path.filter (· ≠ 10)).filter (· ≠ 13)

section

variable (crc32 : Bytes → UInt32) (toLower : Bytes → Bytes) (root : Bytes → Option File)

/-- `Middleware`; `root` is what `s.root.Open` returns, if no error. -/
def Plugin.middleware (p : Plugin) (path : Bytes) (r w : Header) : Answer :=
  if ascii ".." <:+: path then .forbidden
  else
    let fp := filePath path
    let ext := toLower (pathExt fp)
    if ext = [] then .next
    else if ext ∈ p.forbiddenExtensions then .next
    else if p.allowedExtensions ≠ [] ∧ ext ∉ p.allowedExtensions then .next
    else
      match root fp with
      | none => .next
      | some f =>
        match f.stat with
        | none => .next
        | some finfo =>
          if finfo.isDir then .next
          else
            let w := if p.cfg.calculateEtag then setEtag crc32 p.cfg.weak f finfo.name w else w
            let r := p.cfg.request.foldl (fun h e => h.add e.1 e.2) r
            let w := p.cfg.response.foldl (fun h e => setHeader h e.1 e.2) w
            .serveContent f finfo.name r w

/-- What the handler checks before it opens the file. -/
def Plugin.Admits (p : Plugin) (path : Bytes) : Prop :=
  ¬ ascii ".." <:+: path ∧ toLower (pathExt (filePath path)) ≠ [] ∧
    toLower (pathExt (filePath path)) ∉ p.forbiddenExtensions ∧
    (p.allowedExtensions ≠ [] → toLower (pathExt (filePath path)) ∈ p.allowedExtensions)

variable {crc32 toLower root}

/-- A regular file is served exactly if the path is admitted. -/
theorem serveContent_iff_admits (p : Plugin) {path : Bytes} {f : File} {finfo : FileInfo}
    (hopen : root (filePath path) = some f) (hstat : f.stat = some finfo) (hdir : finfo.isDir = false) (r w : Header) :
    (∃ r' w', p.middleware crc32 toLower root path r w = .serveContent f finfo.name r' w') ↔
      p.Admits toLower path := by
  unfold Plugin.middleware Plugin.Admits
  by_cases hdots : ascii ".." <:+: path
  · simp [hdots]
  by_cases hext : toLower (pathExt (filePath path)) = []
  · simp [hdots, hext]
  by_cases hforbid : toLower (pathExt (filePath path)) ∈ p.forbiddenExtensions
  · simp [hdots, hext, hforbid]
  by_cases hallow : p.allowedExtensions ≠ [] ∧ toLower (pathExt (filePath path)) ∉ p.allowedExtensions
  · simp [hdots, hext, hforbid, hallow]
  · have hallowed : p.allowedExtensions ≠ [] → toLower (pathExt (filePath path)) ∈ p.allowedExtensions :=
      fun hne => not_not.mp fun hnot => hallow ⟨hne, hnot⟩
    simp only [if_neg hdots, if_neg hext, if_neg hforbid, if_neg hallow, hopen, hstat, hdir]
    exact iff_of_true ⟨_, _, rfl⟩ ⟨hdots, hext, hforbid, hallowed⟩

end

end RoadRunner.Http.Static
