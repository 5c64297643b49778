import RoadRunner.Http.Tree

/-!
# Uploaded files

The model of `http/handler/uploads.go`. The tree and the list of an `Uploads` share their files through
pointers, so the tree has the positions of the files in the list.
-/

namespace RoadRunner.Http

/-- A JSON value. -/
inductive Json where
  | null
  | bool (b : Bool)
  | num (n : Int)
  | str (s : Bytes)
  | arr (xs : List Json)
  | obj (fields : List (Bytes × Json))

/-- What `NewUpload` reads of a `multipart.FileHeader`. -/
structure FileHeader where
  filename : Bytes
  contentType : Bytes
  deriving DecidableEq

/-- `FileUpload`. -/
structure FileUpload where
  name : Bytes
  mime : Bytes
  size : Int64
  error : Int
  tempFilename : Bytes
  deriving DecidableEq

/-- `UploadErrorOK`. -/
def uploadErrorOK : Int := 0

/-- `UploadErrorNoFile`. -/
def uploadErrorNoFile : Int := 4

/-- `UploadErrorNoTmpDir`. -/
def uploadErrorNoTmpDir : Int := 6

/-- `UploadErrorCantWrite`. -/
def uploadErrorCantWrite : Int := 7

/-- `UploadErrorExtension`. -/
def uploadErrorExtension : Int := 8

/-- `NewUpload`. -/
def newUpload (f : FileHeader) : FileUpload where
  name := f.filename
  mime := f.contentType
  size := 0
  error := uploadErrorOK
  tempFilename := []

/-- Which extensions may be uploaded. -/
structure UploadPolicy where
  forbid : List Bytes
  allow : List Bytes
  /-- `strings.ToLower`. -/
  toLower : Bytes → Bytes

/-- `path.Ext`: from the last dot of the last element of the path. -/
def pathExt (name : Bytes) : Bytes :=
  let base := (name.reverse.takeWhile (· ≠ 47)).reverse
  if 46 ∈ base then 46 :: (base.reverse.takeWhile (· ≠ 46)).reverse else []

/-- What the file system does with a file: it cannot be opened, no temporary file can be made, or
`size` bytes are copied to a temporary file, all of them or not. -/
inductive OpenOutcome where
  | noFile
  | noTmpDir
  | copied (tmp : Bytes) (size : Int64) (all : Bool)

/-- `FileUpload.Open`. -/
def FileUpload.openFile (policy : UploadPolicy) (o : OpenOutcome) (f : FileUpload) : FileUpload :=
  let ext := policy.toLower (pathExt f.name)
  if ext ∈ policy.forbid then { f with error := uploadErrorExtension }
  else if policy.allow ≠ [] ∧ ext ∉ policy.allow then { f with error := uploadErrorExtension }
  else
    match o with
    | .noFile => { f with error := uploadErrorNoFile }
    | .noTmpDir => { f with error := uploadErrorNoTmpDir }
    | .copied tmp size all =>
      let f := { f with tempFilename := tmp, size := size }
      if all then f else { f with error := uploadErrorCantWrite }

/-- `Uploads`: the tree of the files, by their positions, and the list of them. -/
structure Uploads where
  tree : Tree Nat
  list : List FileUpload

/-- `Uploads.Open`; `os` says what the file system does with the `n`-th file. -/
def Uploads.openAll (policy : UploadPolicy) (os : Nat → OpenOutcome) (u : Uploads) : Uploads :=
  { u with list := u.list.mapIdx fun n f => f.openFile policy (os n) }

/-- `FileUpload` as JSON. -/
def FileUpload.json (f : FileUpload) : Json :=
  .obj [(ascii "name", .str f.name), (ascii "mime", .str f.mime), (ascii "size", .num f.size.toInt),
    (ascii "error", .num f.error), (ascii "tmpName", .str f.tempFilename)]

/-- The UTF-8 text of a field name. -/
def Name.text (k : Name) : Bytes := k.flatMap String.utf8EncodeChar

section

variable {α : Type} (value : Leaf α → Json)

mutual

/-- The JSON value of a subtree, where a leaf has the value `value`. -/
def trieJson : Trie Name (Leaf α) → Json
  | .leaf l => value l
  | .node t => .obj (treeJson t)

/-- The JSON values of the entries of a tree. -/
def treeJson : Tree α → List (Bytes × Json)
  | [] => []
  | e :: d => entryJson e :: treeJson d

/-- The JSON member of an entry. -/
def entryJson : Name × Trie Name (Leaf α) → Bytes × Json
  | (k, t) => (Name.text k, trieJson t)

end

end

/-- The JSON value of the file at a position. `parseUploads` mounts only positions of files in the list. -/
def Uploads.fileJson (u : Uploads) (n : Nat) : Json := (u.list[n]?.map FileUpload.json).getD .null

/-- `MarshalJSON`. -/
def Uploads.json (u : Uploads) : Json :=
  .obj (treeJson (fun
    | .scalar n => u.fileJson n
    | .array ns => .arr (ns.map u.fileJson)) u.tree)

end RoadRunner.Http
