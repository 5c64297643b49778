import RoadRunner.Http.Leak

/-!
# Temporary files of uploads

`ServeHTTP` again, now with the files on disk: `FileUpload.Open` makes a temporary file for each upload, and
`Uploads.Clear` removes the files of the list, on each of the paths on which `ServeHTTP` returns after `Open`. A
recycled request has the uploads of an earlier one, so their files may be opened and made once more.

* `temp_files_removed`: after any history, a call that returns leaves no file that it has made.
-/

namespace RoadRunner.Http

/-! ## Files -/

/-- `pattern`: what the name of a temporary file begins with, after its directory. -/
def tempPattern : Bytes := ascii "upload"

/-- The extension of the file is not allowed. -/
def UploadPolicy.Refuses (policy : UploadPolicy) (f : FileUpload) : Prop :=
  policy.toLower (pathExt f.name) ∈ policy.forbid ∨
    policy.allow ≠ [] ∧ policy.toLower (pathExt f.name) ∉ policy.allow

instance (policy : UploadPolicy) (f : FileUpload) : Decidable (policy.Refuses f) :=
  inferInstanceAs (Decidable (_ ∨ _ ∧ _))

/-- The temporary file that `FileUpload.Open` makes. -/
def FileUpload.makes (policy : UploadPolicy) (o : OpenOutcome) (f : FileUpload) : Option Bytes :=
  if policy.Refuses f then none
  else
    match o with
    | .noFile | .noTmpDir => none
    | .copied tmp _ _ => some tmp

/-- The temporary files that `Uploads.Open` makes. -/
def Uploads.makes (policy : UploadPolicy) (os : Nat → OpenOutcome) (u : Uploads) : List Bytes :=
  (u.list.mapIdx fun n f => f.makes policy (os n)).reduceOption

/-- The body of the loop of `Uploads.Clear`. -/
def FileUpload.remove (disk : List Bytes) (f : FileUpload) : List Bytes :=
  if f.tempFilename ≠ [] ∧ f.tempFilename ∈ disk then disk.filter (· ≠ f.tempFilename) else disk

/-- `Uploads.Clear`: the files that are left. -/
def Uploads.clear (u : Uploads) (disk : List Bytes) : List Bytes := u.list.foldl FileUpload.remove disk

/-- The files that `Request.Open` makes. -/
def Request.makes (policy : UploadPolicy) (os : Nat → OpenOutcome) (req : Request) : List Bytes :=
  (req.uploads.map (Uploads.makes policy os)).getD []

/-- `Request.Close`. -/
def Request.close (req : Request) (disk : List Bytes) : List Bytes :=
  match req.uploads with
  | none => disk
  | some u => u.clear disk

/-! ## Serving -/

/-- A handler, and the files on its disk. -/
structure Site where
  handler : Handler
  disk : List Bytes

namespace Site

variable (cfg : Config)

/-- The request that a call reads, before its files are opened. -/
def opened (x : Served) (s : Site) : Option Request :=
  match cfg.reject x.r with
  | some _ => none
  | none =>
    match request x.r ((s.handler.reqPool.get {} x.pickReq).1.fill x.r) with
    | (.ok, req) => some (cfg.resolveIP req)
    | _ => none

/-- `ServeHTTP`: what `Handler.serveHTTP` does, and the disk after it. A request that was read is closed, unless the
call panics. -/
def serve (x : Served) (s : Site) : End × Site :=
  let (ended, _, handler) := s.handler.serveHTTP cfg x
  let disk :=
    match s.opened cfg x, ended with
    | none, _ => s.disk
    | some req, .answered .writePanics => s.disk ++ req.makes cfg.policy x.opens
    | some req, _ => (req.openUploads cfg.policy x.opens).close (s.disk ++ req.makes cfg.policy x.opens)
  (ended, ⟨handler, disk⟩)

/-- The site after a call. -/
def after (s : Site) (x : Served) : Site := (s.serve cfg x).2

/-- The temporary files that a call makes. -/
def made (x : Served) (s : Site) : List Bytes :=
  ((s.opened cfg x).map (Request.makes cfg.policy x.opens)).getD []

end Site

/-- The call ends in a panic. -/
def End.Panics : End → Prop
  | .requestPanics | .answered .writePanics => True
  | _ => False

/-- The temporary files have the names that `ioutil.TempFile` gives them. -/
def Served.Named (x : Served) : Prop :=
  ∀ n tmp size all, x.opens n = .copied tmp size all → tempPattern <:+: tmp

variable {cfg : Config}

/-! ## Clearing -/

theorem FileUpload.makes_eq_some {policy : UploadPolicy} {o : OpenOutcome} {f : FileUpload} {name : Bytes} :
    f.makes policy o = some name ↔ ¬ policy.Refuses f ∧ ∃ size all, o = .copied name size all := by
  unfold FileUpload.makes
  by_cases h : policy.Refuses f
  · simp [h]
  · cases o <;> simp [h]

/-- The file that `Open` makes is the one that the upload names. -/
theorem FileUpload.openFile_makes {policy : UploadPolicy} {o : OpenOutcome} {f : FileUpload} {name : Bytes}
    (h : f.makes policy o = some name) : (f.openFile policy o).tempFilename = name := by
  obtain ⟨hrefuses, size, all, rfl⟩ := FileUpload.makes_eq_some.mp h
  obtain ⟨hforbid, hallow⟩ := not_or.mp hrefuses
  simp only [FileUpload.openFile, if_neg hforbid, if_neg hallow]
  cases all <;> rfl

theorem FileUpload.mem_remove {f : FileUpload} {disk : List Bytes} {name : Bytes} :
    name ∈ f.remove disk ↔ name ∈ disk ∧ (name ≠ f.tempFilename ∨ f.tempFilename = []) := by
  unfold FileUpload.remove
  split
  · rename_i h
    rw [List.mem_filter, decide_eq_true_eq, or_iff_left h.1]
  · rename_i h
    refine ⟨fun hmem => ⟨hmem, ?_⟩, And.left⟩
    by_cases hnil : f.tempFilename = []
    · exact .inr hnil
    · exact .inl fun heq => h ⟨hnil, heq ▸ hmem⟩

/-- What is left after `Clear`. -/
theorem Uploads.mem_clear {u : Uploads} {disk : List Bytes} {name : Bytes} :
    name ∈ u.clear disk ↔ name ∈ disk ∧ ∀ f ∈ u.list, name ≠ f.tempFilename ∨ f.tempFilename = [] := by
  unfold Uploads.clear
  induction u.list generalizing disk with
  | nil => simp
  | cons f fs ih => rw [List.foldl_cons, ih, FileUpload.mem_remove, List.forall_mem_cons, and_assoc]

theorem Uploads.mem_makes {policy : UploadPolicy} {os : Nat → OpenOutcome} {u : Uploads} {name : Bytes} :
    name ∈ u.makes policy os ↔
      ∃ n, ∃ f : FileUpload, u.list[n]? = some f ∧ f.makes policy (os n) = some name := by
  rw [Uploads.makes, List.reduceOption_mem_iff, List.mem_iff_getElem?]
  refine exists_congr fun n => ?_
  rw [List.getElem?_mapIdx, Option.map_eq_some_iff]

/-- `Clear` removes what `Open` has made. -/
theorem Uploads.not_mem_clear {x : Served} (hnamed : x.Named) {policy : UploadPolicy} {u : Uploads} {name : Bytes}
    (h : name ∈ u.makes policy x.opens) (disk : List Bytes) : name ∉ (u.openAll policy x.opens).clear disk := by
  intro hleft
  obtain ⟨n, f, hf, hmakes⟩ := Uploads.mem_makes.mp h
  obtain ⟨-, size, all, hcopied⟩ := FileUpload.makes_eq_some.mp hmakes
  -- the file is in the list, with the name that it was given
  have hmem : f.openFile policy (x.opens n) ∈ (u.openAll policy x.opens).list := by
    refine List.mem_of_getElem? (i := n) ?_
    rw [Uploads.openAll, List.getElem?_mapIdx, hf]
    rfl
  rcases (Uploads.mem_clear.mp hleft).2 _ hmem with hne | hnil
  · exact hne (FileUpload.openFile_makes hmakes).symm
  · have hpattern := hnamed n name size all hcopied
    rw [FileUpload.openFile_makes hmakes] at hnil
    rw [hnil, List.infix_nil] at hpattern
    exact absurd hpattern (by decide +kernel)

/-- `Close` removes what `Open` has made, and makes nothing. -/
theorem close_made {x : Served} (hnamed : x.Named) {req : Request} {disk : List Bytes} {name : Bytes}
    (h : name ∈ (req.openUploads cfg.policy x.opens).close (disk ++ req.makes cfg.policy x.opens)) :
    name ∉ req.makes cfg.policy x.opens ∧ name ∈ disk := by
  unfold Request.makes at h ⊢
  unfold Request.close Request.openUploads at h
  cases hu : req.uploads with
  | none =>
    rw [hu] at h
    exact ⟨List.not_mem_nil, (List.append_nil disk) ▸ h⟩
  | some u =>
    rw [hu] at h
    have hnot : name ∉ u.makes cfg.policy x.opens := fun hmade => Uploads.not_mem_clear hnamed hmade _ h
    exact ⟨hnot, (List.mem_append.mp (Uploads.mem_clear.mp h).1).resolve_right hnot⟩

/-! ## Calls and runs -/

variable (cfg) in
/-- What a call does to the disk: nothing, if it opens no request; else what it makes is closed, unless it panics. -/
theorem serve_disk (x : Served) (s : Site) :
    (s.opened cfg x = none ∧ (s.serve cfg x).2.disk = s.disk) ∨
      ∃ req, s.opened cfg x = some req ∧
        ((s.serve cfg x).1.Panics ∨ (s.serve cfg x).2.disk =
          (req.openUploads cfg.policy x.opens).close (s.disk ++ req.makes cfg.policy x.opens)) := by
  unfold Site.serve
  cases s.opened cfg x with
  | none => exact .inl ⟨rfl, rfl⟩
  | some req =>
    refine .inr ⟨req, rfl, ?_⟩
    dsimp only
    split
    · rename_i heq
      cases heq
    · rename_i hended
      exact .inl (by rw [hended]; trivial)
    · rename_i heq _
      cases heq
      exact .inr rfl

theorem serve_made {x : Served} (hnamed : x.Named) {s : Site} (hreturns : ¬ (s.serve cfg x).1.Panics) :
    ∀ name ∈ (s.serve cfg x).2.disk, name ∉ s.made cfg x ∧ name ∈ s.disk := by
  intro name hname
  unfold Site.made
  rcases serve_disk cfg x s with ⟨hopened, hdisk⟩ | ⟨req, hopened, hpanics | hdisk⟩
  · rw [hdisk] at hname
    rw [hopened]
    exact ⟨List.not_mem_nil, hname⟩
  · exact absurd hpanics hreturns
  · rw [hdisk] at hname
    rw [hopened]
    exact close_made hnamed hname

/-- **Temporary files are removed.** After any sequence of calls on a handler with its recycled requests, a call that
returns leaves no temporary file that it has made, whatever becomes of its files, of the payload, of `Exec` and of
`Write`. -/
theorem temp_files_removed (cfg : Config) (disk : List Bytes) (history : List Served) (x : Served)
    (hnamed : x.Named) :
    let s := Run.exec (Site.after cfg) ⟨newHandler, disk⟩ history
    ¬ (s.serve cfg x).1.Panics → ∀ name ∈ s.made cfg x, name ∉ (s.serve cfg x).2.disk := by
  intro s hreturns name hmade hleft
  exact (serve_made hnamed hreturns name hleft).1 hmade

/-- A multipart form with two files, of which the second cannot be written to the end. -/
def sampleUpload : Served where
  r :=
    { method := ascii "POST"
      header := [(ascii "Content-Type", [ascii "multipart/form-data"])]
      parseMultipartForm := .ok ⟨[], [("f[]".toList, [⟨ascii "1.txt", ascii "text/plain"⟩, ⟨ascii "2.txt", []⟩])]⟩ }
  opens n := if n = 0 then .copied (ascii "/tmp/upload1") 5 true else .copied (ascii "/tmp/upload2") 3 false
  answer := .execFailed (.lib "Exec")

theorem sampleUpload_named : sampleUpload.Named := by
  intro n tmp size all h
  change (if n = 0 then _ else _) = _ at h
  split at h
  · cases h
    decide +kernel
  · cases h
    decide +kernel

/-- Two files are made, and removed when `Exec` fails. -/
theorem temp_files_removed_failed :
    let s : Site := ⟨newHandler, []⟩
    s.made sampleConfig sampleUpload = [ascii "/tmp/upload1", ascii "/tmp/upload2"] ∧
      ∀ name ∈ s.made sampleConfig sampleUpload, name ∉ (s.serve sampleConfig sampleUpload).2.disk :=
  ⟨rfl, temp_files_removed sampleConfig [] [] sampleUpload sampleUpload_named id⟩

end RoadRunner.Http
