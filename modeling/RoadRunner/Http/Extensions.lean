import RoadRunner.Http.Static
import RoadRunner.Http.TempFiles

/-!
# The extension policy

The configuration of uploads (`http/config/uploads_config.go`) and of static files lists extensions that
are forbidden and extensions that are allowed. The policy they mean does not look at letter case: a file
is let through if no forbid entry names its extension and, where the allow list has an entry, one of them
does. The code brings the extension of the file to lower case, and the entries not.

* `Sets`: the two sets that are built from the lists, and `Accepts`, the check that both the upload and
  the static file go through. `accepts_iff_permits`: the check is the policy for every extension exactly
  if the lists are `Written` for it.
* `extension_policy_iff`: uploads and static files.
-/

namespace RoadRunner.Http

open Static (Plugin FileInfo File filePath)

/-- The lower case of an ASCII byte. -/
def lowerByte (b : UInt8) : UInt8 := if 65 ≤ b ∧ b ≤ 90 then b + 32 else b

/-- `strings.ToLower`, by its laws. -/
structure CaseMapping where
  toLower : Bytes → Bytes
  idem : ∀ s, toLower (toLower s) = toLower s
  nonempty : ∀ s, toLower s = [] → s = []
  of_ascii : ∀ s, (∀ b ∈ s, b < 128) → toLower s = s.map lowerByte

theorem lowerByte_lowerByte (b : UInt8) : lowerByte (lowerByte b) = lowerByte b := by
  unfold lowerByte
  grind

/-- The case mapping that leaves everything but ASCII letters. -/
def CaseMapping.ascii : CaseMapping where
  toLower := List.map lowerByte
  idem s := by
    rw [List.map_map]
    exact List.map_congr_left fun b _ => lowerByte_lowerByte b
  nonempty s h := List.map_eq_nil_iff.mp h
  of_ascii s _ := rfl

section

variable (m : CaseMapping) (forbid allow : List Bytes)

/-- The list has an entry that is not empty. -/
def HasEntry (allow : List Bytes) : Prop := ∃ a ∈ allow, a ≠ []

/-- The policy that the two lists mean, for the extension `ext`. -/
def Permits (ext : Bytes) : Prop :=
  (∀ f ∈ forbid, m.toLower f ≠ m.toLower ext) ∧
    (HasEntry allow → ∃ a ∈ allow, m.toLower a = m.toLower ext)

instance (allow : List Bytes) : Decidable (HasEntry allow) :=
  inferInstanceAs (Decidable (∃ a ∈ allow, a ≠ []))

instance (ext : Bytes) : Decidable (Permits m forbid allow ext) := inferInstanceAs (Decidable (_ ∧ (_ → _)))

/-- The sets of extensions that are built from the two lists. -/
structure Sets where
  forbidden : List Bytes
  allowed : List Bytes

/-- The check, for an extension in lower case. -/
def Sets.Accepts (s : Sets) (ext : Bytes) : Prop :=
  ext ∉ s.forbidden ∧ (s.allowed ≠ [] → ext ∈ s.allowed)

instance (s : Sets) (ext : Bytes) : Decidable (s.Accepts ext) := inferInstanceAs (Decidable (_ ∧ (_ → _)))

/-- The sets have the entries of the lists, what is forbidden taken from what is allowed. -/
structure Sets.Built (s : Sets) : Prop where
  forbidden : ∀ e, e ≠ [] → (e ∈ s.forbidden ↔ e ∈ forbid)
  allowed : ∀ e, e ≠ [] → (e ∈ s.allowed ↔ e ∈ allow ∧ e ∉ forbid)

/-- The lists say to the code what they mean, for the extensions that can occur. -/
structure Written (s : Sets) (Occurs : Bytes → Prop) : Prop where
  /-- Something is left to be allowed exactly if something is listed. -/
  hasEntry : s.allowed ≠ [] ↔ HasEntry allow
  /-- What is forbidden is listed in lower case, unless it is not among what is allowed. -/
  forbids : ∀ f ∈ forbid, Occurs (m.toLower f) →
    m.toLower f ∈ forbid ∨ HasEntry allow ∧ m.toLower f ∉ allow
  /-- What is allowed is listed in lower case, unless it is forbidden. -/
  allows : ∀ a ∈ allow, Occurs (m.toLower a) →
    m.toLower a ∈ allow ∨ ∃ f ∈ forbid, m.toLower f = m.toLower a

/-- The extensions that can occur, in lower case: there are infinitely many of them. -/
structure Extensions (Occurs : Bytes → Prop) : Prop where
  ne_nil : ∀ e, Occurs e → e ≠ []
  lower : ∀ e, Occurs e → m.toLower e = e
  infinite : ∀ l : List Bytes, ∃ e, Occurs e ∧ e ∉ l

variable {m forbid allow}

theorem CaseMapping.toLower_nil (m : CaseMapping) : m.toLower [] = [] := m.of_ascii [] (by simp)

variable {s : Sets} {Occurs : Bytes → Prop}

/-- Where the check is the policy, the allowed set is empty exactly if the allow list has no entry: there
is always an extension that no entry names. -/
theorem hasEntry_of_agree (hO : Extensions m Occurs)
    (h : ∀ e, Occurs e → (s.Accepts e ↔ Permits m forbid allow e)) : s.allowed ≠ [] ↔ HasEntry allow := by
  constructor
  · intro hne
    by_contra hnone
    -- it is permitted, and not in the set
    obtain ⟨e, he, hnew⟩ := hO.infinite (s.allowed ++ forbid.map m.toLower)
    rw [List.mem_append, not_or] at hnew
    refine hnew.1 (((h e he).mpr ⟨fun f hf heq => hnew.2 ?_, fun hsome => absurd hsome hnone⟩).2 hne)
    rw [hO.lower e he] at heq
    exact heq ▸ List.mem_map_of_mem hf
  · intro hsome hnil
    -- it is accepted, and not permitted
    obtain ⟨e, he, hnew⟩ := hO.infinite (s.forbidden ++ allow.map m.toLower)
    rw [List.mem_append, not_or] at hnew
    obtain ⟨a, ha, heq⟩ := ((h e he).mp ⟨hnew.1, fun hne => absurd hnil hne⟩).2 hsome
    rw [hO.lower e he] at heq
    exact hnew.2 (heq ▸ List.mem_map_of_mem ha)

theorem written_of_agree (hs : s.Built forbid allow) (hO : Extensions m Occurs)
    (h : ∀ e, Occurs e → (s.Accepts e ↔ Permits m forbid allow e)) : Written m forbid allow s Occurs := by
  have hentry := hasEntry_of_agree hO h
  refine ⟨hentry, fun f hf he => ?_, fun a ha he => ?_⟩
  · have hnot : ¬ s.Accepts (m.toLower f) := by
      rw [h _ he]
      exact fun hp => hp.1 f hf (m.idem f).symm
    have hne := hO.ne_nil _ he
    rw [Sets.Accepts, hs.forbidden _ hne, hs.allowed _ hne, hentry] at hnot
    tauto
  · by_contra hnot
    rw [not_or] at hnot
    have hne := hO.ne_nil _ he
    have ha' : a ≠ [] := fun hnil => hne (by rw [hnil, m.toLower_nil])
    have hacc : s.Accepts (m.toLower a) := by
      refine (h _ he).mpr ⟨fun f hf heq => hnot.2 ⟨f, hf, ?_⟩, fun _ => ⟨a, ha, (m.idem a).symm⟩⟩
      rw [heq, m.idem]
    have hmem := hacc.2 (hentry.mpr ⟨a, ha, ha'⟩)
    exact hnot.1 ((hs.allowed _ hne).mp hmem).1

theorem Written.agree (hs : s.Built forbid allow) (hO : Extensions m Occurs)
    (hw : Written m forbid allow s Occurs) {e : Bytes} (he : Occurs e) :
    s.Accepts e ↔ Permits m forbid allow e := by
  have hne := hO.ne_nil e he
  have hlow := hO.lower e he
  rw [Sets.Accepts, Permits, hs.forbidden e hne, hs.allowed e hne, hw.hasEntry, hlow]
  constructor
  · rintro ⟨hforbid, hallow⟩
    refine ⟨fun f hf heq => ?_, fun hsome => ⟨e, (hallow hsome).1, hlow⟩⟩
    rcases hw.forbids f hf (heq ▸ he) with hmem | ⟨hsome, hnot⟩
    · exact hforbid (heq ▸ hmem)
    · exact hnot (heq ▸ (hallow hsome).1)
  · rintro ⟨hforbid, hallow⟩
    have hnot : e ∉ forbid := fun hmem => hforbid e hmem hlow
    refine ⟨hnot, fun hsome => ?_⟩
    obtain ⟨a, ha, heq⟩ := hallow hsome
    rcases hw.allows a ha (heq ▸ he) with hmem | ⟨f, hf, hfa⟩
    · exact ⟨heq ▸ hmem, hnot⟩
    · exact absurd (hfa.trans heq) (hforbid f hf)

/-- The check is the policy exactly if the lists are written for it. -/
theorem accepts_iff_permits (hs : s.Built forbid allow) (hO : Extensions m Occurs) :
    (∀ e, Occurs e → (s.Accepts e ↔ Permits m forbid allow e)) ↔ Written m forbid allow s Occurs :=
  ⟨written_of_agree hs hO, fun hw _ he => hw.agree hs hO he⟩

end

/-! ### The extensions that occur -/

/-- A dot and `n` letters: an extension in lower case, of a file of that name. -/
def plainExt (n : Nat) : Bytes := 46 :: List.replicate n 97

theorem forall_plainExt {P : UInt8 → Prop} (hdot : P 46) (hletter : P 97) (n : Nat) : ∀ b ∈ plainExt n, P b := by
  intro b hb
  simp only [plainExt, List.mem_cons, List.mem_replicate] at hb
  rcases hb with rfl | ⟨_, rfl⟩
  · exact hdot
  · exact hletter

theorem pathExt_plainExt (n : Nat) : pathExt (plainExt n) = plainExt n := by
  have hslash : (plainExt n).reverse.takeWhile (· ≠ 47) = (plainExt n).reverse := by
    rw [List.takeWhile_eq_self_iff]
    intro b hb
    exact forall_plainExt (P := fun b => decide (b ≠ 47) = true) rfl rfl n b (List.mem_reverse.mp hb)
  have hdot : (plainExt n).reverse.takeWhile (· ≠ 46) = List.replicate n 97 := by
    simp [plainExt]
  rw [pathExt, hslash, List.reverse_reverse, if_pos (by simp [plainExt]), hdot, List.reverse_replicate]
  rfl

theorem CaseMapping.toLower_plainExt (m : CaseMapping) (n : Nat) : m.toLower (plainExt n) = plainExt n := by
  have hbytes : ∀ b ∈ plainExt n, b < 128 ∧ lowerByte b = b := forall_plainExt (by decide) (by decide) n
  rw [m.of_ascii _ fun b hb => (hbytes b hb).1]
  exact (List.map_congr_left fun b hb => (hbytes b hb).2).trans (List.map_id _)

theorem exists_plainExt (l : List Bytes) : ∃ n, plainExt n ∉ l := by
  have hinj : Function.Injective plainExt := by
    intro n k h
    simpa [plainExt] using congrArg List.length h
  obtain ⟨_, ⟨n, rfl⟩, hn⟩ := (Set.infinite_range_of_injective hinj).exists_notMem_finite (List.finite_toSet l)
  exact ⟨n, hn⟩

/-- Extensions of files, brought to lower case, with the plain ones among them. -/
theorem Extensions.of_plainExt {m : CaseMapping} {Occurs : Bytes → Prop}
    (hlower : ∀ e, Occurs e → ∃ ext, ext ≠ [] ∧ m.toLower ext = e) (hplain : ∀ n, Occurs (plainExt n)) :
    Extensions m Occurs where
  ne_nil e he := by
    obtain ⟨ext, hne, rfl⟩ := hlower e he
    exact fun hnil => hne (m.nonempty _ hnil)
  lower e he := by
    obtain ⟨ext, -, rfl⟩ := hlower e he
    exact m.idem _
  infinite l := by
    obtain ⟨n, hn⟩ := exists_plainExt l
    exact ⟨plainExt n, hplain n, hn⟩

/-! ### Uploads -/

/-- The lists of `config.Uploads`. -/
structure UploadsConfig where
  forbid : List Bytes := []
  allow : List Bytes := []

/-- The forbid list, with the default for an empty one. -/
def UploadsConfig.forbidList (cfg : UploadsConfig) : List Bytes :=
  if cfg.forbid = [] then [ascii ".php", ascii ".exe", ascii ".bat"] else cfg.forbid

/-- The sets that `Uploads.InitDefaults` builds. -/
def UploadsConfig.initDefaults (cfg : UploadsConfig) : Sets where
  forbidden := cfg.forbidList
  allowed := cfg.allow.filter (· ∉ cfg.forbidList)

/-- The sets as the handler is given them. -/
def UploadsConfig.policy (cfg : UploadsConfig) (m : CaseMapping) : UploadPolicy :=
  ⟨cfg.initDefaults.forbidden, cfg.initDefaults.allowed, m.toLower⟩

/-- A file that is uploaded passes the check of its extension. -/
def Accepted (policy : UploadPolicy) (o : OpenOutcome) (header : FileHeader) : Prop :=
  ((newUpload header).openFile policy o).error ≠ uploadErrorExtension

/-- The lower case of the extension of some file name. -/
def IsExtension (m : CaseMapping) (e : Bytes) : Prop := ∃ name, pathExt name ≠ [] ∧ m.toLower (pathExt name) = e

theorem isExtension_extensions (m : CaseMapping) : Extensions m (IsExtension m) := by
  refine .of_plainExt ?_ fun n => ⟨plainExt n, ?_, ?_⟩
  · rintro e ⟨name, hne, hlower⟩
    exact ⟨_, hne, hlower⟩
  · rw [pathExt_plainExt]
    exact List.cons_ne_nil _ _
  · rw [pathExt_plainExt, m.toLower_plainExt]

theorem initDefaults_built (cfg : UploadsConfig) : cfg.initDefaults.Built cfg.forbidList cfg.allow where
  forbidden _ _ := Iff.rfl
  allowed e _ := by simp [UploadsConfig.initDefaults]

theorem openFile_error_iff {policy : UploadPolicy} {o : OpenOutcome} {f : FileUpload} (hf : f.error = uploadErrorOK) :
    (f.openFile policy o).error ≠ uploadErrorExtension ↔ ¬ policy.Refuses f := by
  unfold FileUpload.openFile
  by_cases hforbid : policy.toLower (pathExt f.name) ∈ policy.forbid
  · simp [hforbid, UploadPolicy.Refuses]
  by_cases hallow : policy.allow ≠ [] ∧ policy.toLower (pathExt f.name) ∉ policy.allow
  · simp [hforbid, hallow, UploadPolicy.Refuses]
  · simp only [if_neg hforbid, if_neg hallow]
    refine iff_of_true ?_ (not_or.mpr ⟨hforbid, hallow⟩)
    cases o with
    | noFile =>
      show uploadErrorNoFile ≠ uploadErrorExtension
      decide
    | noTmpDir =>
      show uploadErrorNoTmpDir ≠ uploadErrorExtension
      decide
    | copied tmp size all =>
      cases all with
      | true =>
        show f.error ≠ uploadErrorExtension
        rw [hf]
        decide
      | false =>
        show uploadErrorCantWrite ≠ uploadErrorExtension
        decide

theorem accepted_iff (cfg : UploadsConfig) (m : CaseMapping) (o : OpenOutcome) (header : FileHeader) :
    Accepted (cfg.policy m) o header ↔ cfg.initDefaults.Accepts (m.toLower (pathExt header.filename)) := by
  have herror : (newUpload header).error = uploadErrorOK := rfl
  rw [Accepted, openFile_error_iff herror]
  show ¬ (_ ∨ _ ∧ _) ↔ _ ∧ (_ → _)
  simp only [not_or, not_and, not_not]
  rfl

/-! ### Static files -/

/-- The sets of the static plugin. -/
def staticSets (p : Plugin) : Sets := ⟨p.forbiddenExtensions, p.allowedExtensions⟩

/-- The lower case of the extension of some path that the plugin does not answer with 403. -/
def IsStaticExtension (m : CaseMapping) (e : Bytes) : Prop :=
  ∃ path, ¬ ascii ".." <:+: path ∧ pathExt (filePath path) ≠ [] ∧ m.toLower (pathExt (filePath path)) = e

theorem filePath_plainExt (n : Nat) : filePath (plainExt n) = plainExt n := by
  have hbytes : ∀ b ∈ plainExt n, b ≠ 10 ∧ b ≠ 13 := forall_plainExt (by decide) (by decide) n
  rw [filePath, List.filter_filter, List.filter_eq_self]
  intro b hb
  simp [hbytes b hb]

theorem not_dots_plainExt (n : Nat) : ¬ ascii ".." <:+: plainExt n := by
  rintro ⟨s, t, h⟩
  -- the second dot would be one of the letters
  have hcount := congrArg (List.count 46) h
  have htwo : List.count 46 (ascii "..") = 2 := by decide
  simp only [List.count_append, htwo, plainExt, List.count_cons_self, List.count_replicate] at hcount
  simp at hcount
  omega

theorem isStaticExtension_extensions (m : CaseMapping) : Extensions m (IsStaticExtension m) := by
  refine .of_plainExt ?_ fun n => ⟨plainExt n, not_dots_plainExt n, ?_, ?_⟩
  · rintro e ⟨path, -, hne, hlower⟩
    exact ⟨_, hne, hlower⟩
  · rw [filePath_plainExt, pathExt_plainExt]
    exact List.cons_ne_nil _ _
  · rw [filePath_plainExt, pathExt_plainExt, m.toLower_plainExt]

theorem ofConfig_built (cfg : Static.Config) : (staticSets (.ofConfig cfg)).Built cfg.forbid cfg.allow where
  forbidden e he := by simp [staticSets, Plugin.ofConfig, he]
  allowed e he := by simp [staticSets, Plugin.ofConfig, he]

theorem admits_iff {m : CaseMapping} {p : Plugin} {path : Bytes} (hext : pathExt (filePath path) ≠ []) :
    p.Admits m.toLower path ↔
      ¬ ascii ".." <:+: path ∧ (staticSets p).Accepts (m.toLower (pathExt (filePath path))) := by
  have hne : m.toLower (pathExt (filePath path)) ≠ [] := fun hnil => hext (m.nonempty _ hnil)
  simp only [Plugin.Admits, Sets.Accepts, staticSets, hne, ne_eq, not_false_eq_true, true_and]

/-- The plugin serves the file under the path, whatever the file system has it as. -/
def Eligible (m : CaseMapping) (p : Plugin) (path : Bytes) : Prop :=
  ∀ (crc32 : Bytes → UInt32) (root : Bytes → Option File) (f : File) (finfo : FileInfo) (r w : Header),
    root (filePath path) = some f → f.stat = some finfo → finfo.isDir = false →
    ∃ r' w', p.middleware crc32 m.toLower root path r w = .serveContent f finfo.name r' w'

theorem eligible_iff {m : CaseMapping} {p : Plugin} {path : Bytes} :
    Eligible m p path ↔ p.Admits m.toLower path := by
  constructor
  · intro h
    let f : File := ⟨some ⟨[], false⟩, none⟩
    have hserved := h (fun _ => 0) (fun _ => some f) f ⟨[], false⟩ [] [] rfl rfl rfl
    exact (Static.serveContent_iff_admits p rfl rfl rfl [] []).mp hserved
  · intro h crc32 root f finfo r w hopen hstat hdir
    exact (Static.serveContent_iff_admits p hopen hstat hdir r w).mpr h

/-! ### Both -/

theorem permits_toLower {m : CaseMapping} {forbid allow : List Bytes} {ext : Bytes} :
    Permits m forbid allow (m.toLower ext) ↔ Permits m forbid allow ext := by
  simp only [Permits, m.idem]

/-- A property of the extensions that occur, as one of the file names. -/
theorem forall_isExtension {m : CaseMapping} {P : Bytes → Prop} :
    (∀ e, IsExtension m e → P e) ↔ ∀ name, pathExt name ≠ [] → P (m.toLower (pathExt name)) := by
  constructor
  · intro h name hne
    exact h _ ⟨name, hne, rfl⟩
  · rintro h _ ⟨name, hne, rfl⟩
    exact h name hne

theorem forall_isStaticExtension {m : CaseMapping} {P : Bytes → Prop} :
    (∀ e, IsStaticExtension m e → P e) ↔ ∀ path, ¬ ascii ".." <:+: path → pathExt (filePath path) ≠ [] →
      P (m.toLower (pathExt (filePath path))) := by
  constructor
  · intro h path hdots hne
    exact h _ ⟨path, hdots, hne, rfl⟩
  · rintro h _ ⟨path, hdots, hne, rfl⟩
    exact h path hdots hne

/-- For every pair of lists: the uploads that pass the check are those that the lists permit, and so are
the static files that are served, exactly if the lists are written for it. A static path with two dots in
a row is never served. -/
theorem extension_policy_iff (m : CaseMapping) (cfg : UploadsConfig) (static : Static.Config) :
    ((∀ header o, pathExt header.filename ≠ [] → (Accepted (cfg.policy m) o header ↔
        Permits m cfg.forbidList cfg.allow (pathExt header.filename))) ↔
      Written m cfg.forbidList cfg.allow cfg.initDefaults (IsExtension m)) ∧
    ((∀ path, pathExt (filePath path) ≠ [] → (Eligible m (.ofConfig static) path ↔
        ¬ ascii ".." <:+: path ∧ Permits m static.forbid static.allow (pathExt (filePath path)))) ↔
      Written m static.forbid static.allow (staticSets (.ofConfig static)) (IsStaticExtension m)) := by
  constructor
  · rw [← accepts_iff_permits (initDefaults_built cfg) (isExtension_extensions m), forall_isExtension]
    simp only [permits_toLower, accepted_iff]
    constructor
    · intro h name hne
      exact h ⟨name, []⟩ .noFile hne
    · intro h header _ hne
      exact h header.filename hne
  · rw [← accepts_iff_permits (ofConfig_built static) (isStaticExtension_extensions m), forall_isStaticExtension]
    simp only [permits_toLower, eligible_iff]
    constructor
    · intro h path hdots hne
      have hpath := h path hne
      rw [admits_iff hne, and_iff_right hdots, and_iff_right hdots] at hpath
      exact hpath
    · intro h path hne
      rw [admits_iff hne]
      exact and_congr_right fun hdots => h path hdots hne

/-- An upload of `a.php` where `.PHP` is forbidden, and one of `a.txt` where `.TXT` is allowed; a static
file `a.txt` where `.php` alone is allowed and forbidden too. -/
theorem extension_policy_missed :
    (Accepted ((UploadsConfig.mk [ascii ".PHP"] []).policy .ascii) .noFile ⟨ascii "a.php", []⟩ ∧
      ¬ Permits .ascii [ascii ".PHP"] [] (pathExt (ascii "a.php"))) ∧
    (¬ Accepted ((UploadsConfig.mk [] [ascii ".TXT"]).policy .ascii) .noFile ⟨ascii "a.txt", []⟩ ∧
      Permits .ascii (UploadsConfig.mk [] [ascii ".TXT"]).forbidList [ascii ".TXT"] (pathExt (ascii "a.txt"))) ∧
    (Eligible .ascii (.ofConfig { dir := [], forbid := [ascii ".php"], allow := [ascii ".php"] }) (ascii "a.txt") ∧
      ¬ Permits .ascii [ascii ".php"] [ascii ".php"] (pathExt (ascii "a.txt"))) := by
  simp only [accepted_iff, eligible_iff]
  refine ⟨by decide, by decide, ?_, by decide⟩
  unfold Plugin.Admits
  decide

end RoadRunner.Http
