import RoadRunner.Reload.Runs

/-!
# Ignored paths

* `ServiceConfig.settings`: the settings that `Init` of `reload/plugin.go` passes to the watcher.
* `ignored_silent_iff`: no ignored file is ever reported exactly for these configurations.
-/

namespace RoadRunner.Reload

/-! ## The configuration -/

/-- `ServiceConfig`. -/
structure ServiceConfig where
  recursive : Bool
  patterns : Option (List Bytes)
  dirs : List Bytes
  ignore : List Bytes
  deriving DecidableEq

/-- `append(serviceConfig.Patterns, s.cfg.Patterns...)`. -/
def appendPatterns (patterns : Option (List Bytes)) (global : List Bytes) : Option (List Bytes) :=
  if patterns = none ∧ global = [] then none else some (patterns.getD [] ++ global)

/-- What `Init` passes to the watcher for a service; `none` is an error of `ConvertIgnored`. -/
def ServiceConfig.settings (cwd : Option Path) (global : List Bytes) (sc : ServiceConfig) : Option Settings :=
  (convertIgnored cwd sc.ignore).map fun ignored =>
    ⟨sc.recursive, sc.dirs, ignored, appendPatterns sc.patterns global⟩

/-- What `Init` passes for all services. -/
def configs (cwd : Option Path) (global : List Bytes) (plugins : List (Bytes × ServiceConfig)) :
    Option (List (Bytes × Settings)) :=
  plugins.mapM fun p => (p.2.settings cwd global).map fun c => (p.1, c)

/-- `filepath.Abs` in a working directory. -/
def absAt (wd : Path) (dir : Bytes) : Path := (dir.splitOn 47).foldl enter (if dir.head? = some 47 then [] else wd)

theorem abs_some (wd : Path) (dir : Bytes) : abs (some wd) dir = some (absAt wd dir) := by
  unfold abs absAt
  split <;> rfl

/-- The settings in a working directory. -/
def ServiceConfig.settingsAt (wd : Path) (global : List Bytes) (sc : ServiceConfig) : Settings :=
  ⟨sc.recursive, sc.dirs, (sc.ignore.map (absAt wd)).map Path.text, appendPatterns sc.patterns global⟩

theorem settings_some (wd : Path) (global : List Bytes) (sc : ServiceConfig) :
    sc.settings (some wd) global = some (sc.settingsAt wd global) := by
  have habs : abs (some wd) = fun dir => some (absAt wd dir) := funext (abs_some wd)
  rw [ServiceConfig.settings, convertIgnored, habs]
  have hmap : sc.ignore.mapM (fun dir => some (absAt wd dir)) = some (sc.ignore.map (absAt wd)) :=
    List.mapM_pure
  rw [hmap]
  rfl

theorem configs_some (wd : Path) (global : List Bytes) (plugins : List (Bytes × ServiceConfig)) :
    configs (some wd) global plugins = some (plugins.map fun p => (p.1, p.2.settingsAt wd global)) := by
  unfold configs
  have hstep : (fun p : Bytes × ServiceConfig => (p.2.settings (some wd) global).map fun c => (p.1, c)) =
      fun p => some (p.1, p.2.settingsAt wd global) := by
    funext p
    rw [settings_some]
    rfl
  rw [hstep]
  exact List.mapM_pure

/-! ## The condition -/

/-- A service that is not recursive records files of the name. -/
def passes (patterns : Option (List Bytes)) (name : FileName) : Bool := !(patterns.isSome && skips patterns name.val)

/-- No file that is found is an ignored path or below one. If the service is recursive: each of its directories is
ignored itself or not below an ignored path, or the patterns admit no name at all. If it is not: none of its directories
is ignored or below an ignored path, and none of their files that are recorded is ignored. -/
def Covered (wd : Path) (global : List Bytes) (sc : ServiceConfig) : Prop :=
  let ignored := sc.ignore.map (absAt wd)
  let patterns := appendPatterns sc.patterns global
  if sc.recursive then
    (∀ root ∈ sc.dirs.map (absAt wd), root ∈ ignored ∨ ∀ i ∈ ignored, ¬ i <+: root) ∨
      ∀ name : FileName, skips patterns name.val = true
  else
    ∀ root ∈ sc.dirs.map (absAt wd), (∀ i ∈ ignored, ¬ i <+: root) ∧
      ∀ name : FileName, passes patterns name = true → root ++ [name] ∉ ignored

theorem text_mem_ignored {wd : Path} {global : List Bytes} {sc : ServiceConfig} {p : Path} :
    p.text ∈ (sc.settingsAt wd global).ignored ↔ p ∈ sc.ignore.map (absAt wd) :=
  List.mem_map_of_injective Path.text_injective

/-- A file of a walk is not below an ignored path, if its root is not. -/
theorem Walked.not_below {wd : Path} {global : List Bytes} {sc : ServiceConfig} {root file : Path}
    (h : Walked (sc.settingsAt wd global) root file)
    (hroot : root ∈ sc.ignore.map (absAt wd) ∨ ∀ i ∈ sc.ignore.map (absAt wd), ¬ i <+: root) {i : Path}
    (hi : i ∈ sc.ignore.map (absAt wd)) : ¬ i <+: file := by
  intro hbelow
  rcases List.prefix_or_prefix_of_prefix hbelow h.below with habove | hunder
  · rcases hroot with hmem | hnot
    · exact h.open_between root (List.prefix_refl root) h.below (text_mem_ignored.mpr hmem)
    · exact hnot i hi habove
  · exact h.open_between i hunder hbelow (text_mem_ignored.mpr hi)

/-- Only the root has a base that is not a name. -/
theorem exists_name_of_admitted {patterns : Option (List Bytes)} {p : Path} (h : skips patterns p.base = false)
    (hne : p ≠ []) : ∃ name : FileName, skips patterns name.val = false := by
  obtain ⟨l, name, rfl⟩ := List.eq_nil_or_concat' p |>.resolve_left hne
  refine ⟨name, ?_⟩
  rwa [Path.base, List.getLast?_concat] at h

theorem Covered.not_below {wd : Path} {global : List Bytes} {sc : ServiceConfig} (h : Covered wd global sc)
    {file : Path} (hvisible : Visible (some wd) (sc.settingsAt wd global) file) {i : Path}
    (hi : i ∈ sc.ignore.map (absAt wd)) : ¬ i <+: file := by
  obtain ⟨dir, hdir, root, hroot, hfrom⟩ := hvisible
  rw [abs_some] at hroot
  cases hroot
  have hmem : absAt wd dir ∈ sc.dirs.map (absAt wd) := List.mem_map_of_mem hdir
  unfold Covered at h
  unfold VisibleFrom at hfrom
  dsimp only at h
  by_cases hmode : sc.recursive = true
  · rw [if_pos hmode] at h
    rw [if_pos (by exact hmode)] at hfrom
    rcases h with hroots | hskips
    · exact hfrom.not_below (hroots _ hmem) hi
    · intro hbelow
      by_cases hfile : file = []
      · -- the root of all paths is ignored only by itself
        subst hfile
        have hroot := List.prefix_nil.mp hfrom.below
        have hign := List.prefix_nil.mp hbelow
        exact hfrom.not_below (.inl (by rw [hroot, ← hign]; exact hi)) hi hbelow
      · obtain ⟨name, hname⟩ := exists_name_of_admitted hfrom.admitted hfile
        exact Bool.noConfusion (hname.symm.trans (hskips name))
  · rw [if_neg hmode] at h
    rw [if_neg (by exact hmode)] at hfrom
    obtain ⟨hnot, hfiles⟩ := h _ hmem
    rcases hfrom with rfl | ⟨name, rfl, hrecords⟩
    · exact hnot i hi
    · intro hbelow
      simp only [records, Bool.and_eq_true] at hrecords
      rcases List.prefix_concat_iff.mp hbelow with heq | habove
      · exact hfiles name hrecords.2 (heq ▸ hi)
      · exact hnot i hi habove

/-! ## Disks with one directory that matters -/

/-- A directory without entries. -/
def emptyDir : Node := .dir ⟨0, 493⟩ .nil

/-- All directories are empty, except one. -/
def diskWith (root : Path) (node : Node) : Disk := fun p => if p = root then node else emptyDir

theorem diskWith_self (root : Path) (node : Node) : diskWith root node root = node := if_pos rfl

theorem diskWith_of_ne {root p : Path} (h : p ≠ root) (node : Node) : diskWith root node p = emptyDir := if_neg h

theorem visit_cases (c : Settings) (path : Path) (info : FileInfo) :
    visit c path info = .error .skipDir ∧ info.isDir = true ∨ visit c path info = .ok [] ∨
      visit c path info = .ok [(path.text, info)] := by
  unfold visit
  split
  · split
    case isTrue hdir => exact .inl ⟨rfl, hdir⟩
    · exact .inr (.inl rfl)
  · split
    · exact .inr (.inl rfl)
    · exact .inr (.inr rfl)

/-- What a walk that stays at its root finds. -/
theorem retrieveFilesRecursive_leaf {c : Settings} {path : Path} {node : Node} {info : FileInfo}
    (h : walk c path node = visit c path info) :
    ∃ m, retrieveFilesRecursive c path node = .ok m ∧ ∀ key, key ≠ path.text → m.lookup key = none := by
  rw [retrieveFilesRecursive, h]
  rcases visit_cases c path info with ⟨hvisit, -⟩ | hvisit | hvisit
  · rw [hvisit]
    exact ⟨∅, rfl, fun key _ => Finmap.lookup_empty key⟩
  · rw [hvisit]
    exact ⟨∅, rfl, fun key _ => Finmap.lookup_empty key⟩
  · rw [hvisit]
    refine ⟨_, rfl, fun key hkey => ?_⟩
    rw [Fill.lookup_assign, Fill.last_cons, Fill.last_nil, Option.none_or, if_neg (Ne.symm hkey)]

theorem walk_emptyDir (c : Settings) (path : Path) :
    walk c path emptyDir = visit c path ⟨path, 0, ⟨true, 493⟩⟩ := by
  rw [emptyDir, walk, walkEntries]
  cases visit c path ⟨path, 0, ⟨true, 493⟩⟩ with
  | error e => rfl
  | ok here => exact congrArg Except.ok (List.append_nil here)

/-- A file and an empty directory can be listed in both modes, and have at most their own path. -/
theorem retrieve_leaf (c : Settings) (path : Path) {node : Node} (h : node = emptyDir ∨ ∃ stat, node = .file stat) :
    ∃ m, retrieve c path node = .ok m ∧ ∀ key, key ≠ path.text → m.lookup key = none := by
  unfold retrieve
  split
  · rcases h with rfl | ⟨stat, rfl⟩
    · exact retrieveFilesRecursive_leaf (walk_emptyDir c path)
    · exact retrieveFilesRecursive_leaf (by rw [walk])
  · have hlisting : ∀ root, ∀ key, key ≠ path.text → (listing c path root []).lookup key = none := by
      intro root key hkey
      rw [lookup_listing, Fill.last_nil, Option.none_or, if_neg (Ne.symm hkey)]
    rcases h with rfl | ⟨stat, rfl⟩
    · exact ⟨_, rfl, hlisting _⟩
    · exact ⟨_, rfl, hlisting _⟩

section

variable {wd : Path} {c : Settings} {root : Path} {node : Node}

theorem roots_absAt (wd : Path) (c : Settings) : Roots (some wd) c (c.directories.map (absAt wd)) := by
  rw [Roots, List.map_map]
  exact List.map_congr_left fun dir _ => abs_some wd dir

theorem exists_files (wd : Path) (h : ∃ m, retrieve c root node = .ok m) :
    ∃ files, retrieveFileList (some wd) (diskWith root node) c = .ok files := by
  refine exists_retrieveAll (roots_absAt wd c) (fun d _ => ?_) ∅
  by_cases hd : d = root
  · subst hd
    rw [diskWith_self]
    exact h
  · rw [diskWith_of_ne hd]
    obtain ⟨m, hm, -⟩ := retrieve_leaf c d (.inl rfl)
    exact ⟨m, hm⟩

/-- Only one directory has something under a key that is not the path of another one. -/
theorem lookup_fileList_diskWith (hroot : root ∈ c.directories.map (absAt wd)) {m : FileMap}
    (hm : retrieve c root node = .ok m) {key : Bytes}
    (hkey : ∀ d ∈ c.directories.map (absAt wd), d ≠ root → key ≠ d.text) :
    (fileList (some wd) (diskWith root node) c).lookup key = m.lookup key := by
  have hself : listed c (diskWith root node) key root = m.lookup key := by
    rw [listed, diskWith_self, hm]
  have hother : ∀ d ∈ c.directories.map (absAt wd), d ≠ root → listed c (diskWith root node) key d = none := by
    intro d hd hne
    obtain ⟨m', hm', hnone⟩ := retrieve_leaf c d (.inl rfl)
    rw [listed, diskWith_of_ne hne, hm']
    exact hnone key (hkey d hd hne)
  obtain ⟨files, hfiles⟩ := exists_files wd ⟨m, hm⟩
  rw [fileList, hfiles]
  dsimp only
  rw [lookup_retrieveFileList (roots_absAt wd c) hfiles]
  cases hvalue : m.lookup key with
  | none =>
    rw [Fill.last_eq_none_iff]
    intro d hd
    by_cases hne : d = root
    · rw [hne, hself, hvalue]
    · exact hother d hd hne
  | some info =>
    refine Fill.last_eq_some (fun d hd => ?_) hroot (hself.trans hvalue)
    by_cases hne : d = root
    · rw [hne, hself, hvalue]
      exact .inr rfl
    · exact .inl (hother d hd hne)

/-- Two disks that differ in one directory, in a run of all services. -/
theorem exists_report_diskWith {cfgs : List (Bytes × Settings)} {service : Bytes}
    (hc : (Fill.assign cfgs).lookup service = some c) (hroot : root ∈ c.directories.map (absAt wd))
    (hleaf : node = emptyDir ∨ ∃ stat, node = .file stat) {node' : Node} {m m' : FileMap}
    (hm : retrieve c root node = .ok m) (hm' : retrieve c root node' = .ok m') {key : Bytes} {info : FileInfo}
    (hkey : ∀ d ∈ c.directories.map (absAt wd), d ≠ root → key ≠ d.text) (hchange : Change m m' key info) :
    ∃ s, Reaches (some wd) cfgs s ∧ ⟨key, info, service⟩ ∈ s.events := by
  have hok : ∀ c', ∃ files, retrieveFileList (some wd) (diskWith root node) c' = .ok files := by
    intro c'
    obtain ⟨m, hm, -⟩ := retrieve_leaf c' root hleaf
    exact exists_files wd ⟨m, hm⟩
  have hbefore := lookup_fileList_diskWith hroot hm hkey
  have hafter := lookup_fileList_diskWith hroot hm' hkey
  exact exists_report hc (diskWith root node) (diskWith root node') hok (hchange.congr hbefore hafter)

/-- A directory that is not listed recursively is reported itself, here as a file that changes. -/
theorem exists_report_root {cfgs : List (Bytes × Settings)} {service : Bytes}
    (hc : (Fill.assign cfgs).lookup service = some c) (hmode : c.recursive = false)
    (hroot : root ∈ c.directories.map (absAt wd)) :
    ∃ s, Reaches (some wd) cfgs s ∧ ∃ e ∈ s.events, e.service = service ∧ e.info.file = root := by
  have hm : ∀ t, retrieve c root (.file ⟨t, 420⟩) = .ok (listing c root ⟨root, t, ⟨false, 420⟩⟩ []) := by
    intro t
    rw [retrieve_single hmode]
    rfl
  have hchange : Change (listing c root ⟨root, 1, ⟨false, 420⟩⟩ []) (listing c root ⟨root, 2, ⟨false, 420⟩⟩ [])
      root.text ⟨root, 2, ⟨false, 420⟩⟩ :=
    .updated (lookup_listing_root _ _ _ _) rfl (lookup_listing_root _ _ _ _)
      (.inl (by simp))
  obtain ⟨s, hs, he⟩ := exists_report_diskWith hc hroot (.inr ⟨⟨1, 420⟩, rfl⟩) (hm 1) (hm 2)
    (fun d _ hne h => hne (Path.text_injective h.symm)) hchange
  exact ⟨s, hs, _, he, rfl, rfl⟩

/-- A file that is recorded is reported when it is created. -/
theorem exists_report_file {cfgs : List (Bytes × Settings)} {service : Bytes}
    (hc : (Fill.assign cfgs).lookup service = some c) (hmode : c.recursive = false)
    (hroot : root ∈ c.directories.map (absAt wd)) {name : FileName} (hrecords : records c root name = true) :
    ∃ s, Reaches (some wd) cfgs s ∧ ∃ e ∈ s.events, e.service = service ∧ e.info.file = root ++ [name] := by
  have hm : retrieve c root emptyDir = .ok (listing c root ⟨root, 0, ⟨true, 493⟩⟩ []) := by
    rw [retrieve_single hmode]
    rfl
  have hm' : retrieve c root (.dir ⟨0, 493⟩ (.cons name (.file ⟨1, 420⟩) .nil)) =
      .ok (listing c root ⟨root, 0, ⟨true, 493⟩⟩ [(name, .file ⟨1, 420⟩)]) := by
    rw [retrieve_single hmode]
    rfl
  have hchange : Change (listing c root ⟨root, 0, ⟨true, 493⟩⟩ [])
      (listing c root ⟨root, 0, ⟨true, 493⟩⟩ [(name, .file ⟨1, 420⟩)]) name.val
      ⟨root ++ [name], 1, ⟨false, 420⟩⟩ := by
    refine .created ?_ rfl ?_
    · rw [lookup_listing_name, if_pos hrecords, Fill.last_cons, if_pos rfl]
      rfl
    · rw [lookup_listing_name, Fill.last_nil, ite_self]
  obtain ⟨s, hs, he⟩ := exists_report_diskWith hc hroot (.inl rfl) hm hm'
    (fun d _ _ h => d.text_ne_name name h.symm) hchange
  exact ⟨s, hs, _, he, rfl, rfl⟩

/-! ### Recursive services -/

/-- A name of one letter, repeated. -/
def letters (k : Nat) : FileName :=
  ⟨List.replicate (k + 1) 97, by simp, by simp, by simp [ascii, List.replicate_succ], by
    simp [ascii, List.replicate_succ]⟩

instance : Infinite FileName :=
  Infinite.of_injective letters fun j k h => by
    have hlen := congrArg (fun n : FileName => n.val.length) h
    simpa [letters] using hlen

theorem exists_fresh (names : List FileName) : ∃ name, name ∉ names := by
  obtain ⟨name, hname⟩ := Infinite.exists_notMem_finset names.toFinset
  exact ⟨name, fun hmem => hname (List.mem_toFinset.mpr hmem)⟩

/-- A path that is not ignored is passed. -/
theorem visit_open {path : Path} (h : path.text ∉ c.ignored) (info : FileInfo) : ∃ rs, visit c path info = .ok rs := by
  rcases visit_cases c path info with ⟨hskip, hdir⟩ | hvisit | hvisit
  · rw [visit, if_neg h] at hskip
    split at hskip <;> cases hskip
  · exact ⟨_, hvisit⟩
  · exact ⟨_, hvisit⟩

/-- A file in a directory in the root. -/
def nested (dir name : FileName) : Node :=
  .dir ⟨0, 493⟩ (.cons dir (.dir ⟨0, 493⟩ (.cons name (.file ⟨1, 420⟩) .nil)) .nil)

theorem walk_nested {dir name : FileName} (hroot : root.text ∉ c.ignored) (hdir : Path.text (root ++ [dir]) ∉ c.ignored)
    (hfile : Path.text (root ++ [dir] ++ [name]) ∉ c.ignored) (hadmitted : skips c.filePatterns name.val = false) :
    ∃ rs, walk c root (nested dir name) =
      .ok (rs ++ [(Path.text (root ++ [dir] ++ [name]), ⟨root ++ [dir] ++ [name], 1, ⟨false, 420⟩⟩)]) := by
  obtain ⟨here, hhere⟩ := visit_open hroot ⟨root, 0, ⟨true, 493⟩⟩
  obtain ⟨middle, hmiddle⟩ := visit_open hdir ⟨root ++ [dir], 0, ⟨true, 493⟩⟩
  have hvisit : visit c (root ++ [dir] ++ [name]) ⟨root ++ [dir] ++ [name], 1, ⟨false, 420⟩⟩ =
      .ok [(Path.text (root ++ [dir] ++ [name]), ⟨root ++ [dir] ++ [name], 1, ⟨false, 420⟩⟩)] := by
    have hbase : Path.base (root ++ [dir] ++ [name]) = name.val := by
      rw [Path.base, List.getLast?_concat]
      rfl
    rw [visit, if_neg hfile, hbase, hadmitted]
    rfl
  refine ⟨here ++ middle, ?_⟩
  simp only [nested, walk, walkEntries, hhere, hmiddle, hvisit, List.append_nil]
  exact congrArg Except.ok (List.append_assoc here middle _).symm

/-- A file in a new directory is reported when it is created, if the root is not ignored. -/
theorem exists_report_nested {cfgs : List (Bytes × Settings)} {service : Bytes}
    (hc : (Fill.assign cfgs).lookup service = some c) (hmode : c.recursive = true)
    (hroot : root ∈ c.directories.map (absAt wd)) {ignored : List Path} (hignored : c.ignored = ignored.map Path.text)
    (hopen : root ∉ ignored) {name : FileName} (hadmitted : skips c.filePatterns name.val = false) :
    ∃ s, Reaches (some wd) cfgs s ∧ ∃ e ∈ s.events, e.service = service ∧ root <+: e.info.file := by
  -- a directory that is in no other path
  obtain ⟨dir, hdir⟩ := exists_fresh ((ignored ++ c.directories.map (absAt wd)).flatten)
  have hfresh : ∀ p ∈ ignored ++ c.directories.map (absAt wd), dir ∉ p :=
    fun p hp hmem => hdir (List.mem_flatten.mpr ⟨p, hp, hmem⟩)
  have htext : ∀ p : Path, p ∉ ignored → p.text ∉ c.ignored := by
    intro p hp
    rw [hignored, List.mem_map_of_injective Path.text_injective]
    exact hp
  have hpath : ∀ p : Path, dir ∈ p → p.text ∉ c.ignored :=
    fun p hmem => htext p fun hp => hfresh p (List.mem_append_left _ hp) hmem
  have hkey : ∀ d ∈ c.directories.map (absAt wd), Path.text (root ++ [dir] ++ [name]) ≠ d.text := by
    intro d hd heq
    have hmem : dir ∈ d := by
      rw [← Path.text_injective heq]
      simp
    exact hfresh d (List.mem_append_right _ hd) hmem
  obtain ⟨m, hm, hnone⟩ := retrieve_leaf c root (.inl rfl)
  obtain ⟨rs, hwalk⟩ := walk_nested (htext root hopen) (hpath _ (by simp)) (hpath (root ++ [dir] ++ [name]) (by simp))
    hadmitted
  have hm' : retrieve c root (nested dir name) = .ok (Fill.assign (rs ++
      [(Path.text (root ++ [dir] ++ [name]), ⟨root ++ [dir] ++ [name], 1, ⟨false, 420⟩⟩)])) := by
    rw [retrieve, if_pos hmode, retrieveFilesRecursive, hwalk]
  obtain ⟨s, hs, he⟩ := exists_report_diskWith hc hroot (.inl rfl) hm hm' (fun d hd _ => hkey d hd)
    (.created (by rw [Fill.lookup_assign, Fill.last_append, Fill.last_cons, if_pos rfl]; rfl) rfl
      (hnone _ (hkey root hroot)))
  refine ⟨s, hs, _, he, rfl, ?_⟩
  rw [List.append_assoc]
  exact List.prefix_append root _

end

/-! ## The result -/

/-- No event of the service is about an ignored path or something below one. -/
def Silent (wd : Path) (service : Bytes) (sc : ServiceConfig) (s : State) : Prop :=
  ∀ e ∈ s.events, e.service = service → ∀ i ∈ sc.ignore.map (absAt wd), ¬ i <+: e.info.file

section

variable {wd : Path} {global : List Bytes} {sc : ServiceConfig} {cfgs : List (Bytes × Settings)} {service : Bytes}

/-- A recursive service that is not covered reports a file below an ignored path in some run. -/
theorem exists_report_of_recursive (hc : (Fill.assign cfgs).lookup service = some (sc.settingsAt wd global))
    (hmode : sc.recursive = true) (hnot : ¬ Covered wd global sc) :
    ∃ s, Reaches (some wd) cfgs s ∧ ¬ Silent wd service sc s := by
  rw [Covered, if_pos hmode, not_or] at hnot
  obtain ⟨hroots, hskips⟩ := hnot
  push Not at hroots hskips
  obtain ⟨root, hroot, hopen, i, hi, hbelow⟩ := hroots
  obtain ⟨name, hname⟩ := hskips
  obtain ⟨s, hs, e, he, hservice, hfile⟩ :=
    exists_report_nested hc hmode hroot rfl hopen (Bool.eq_false_iff.mpr hname)
  exact ⟨s, hs, fun hsilent => hsilent e he hservice i hi (hbelow.trans hfile)⟩

/-- A service that is not recursive and not covered reports an ignored file in some run. -/
theorem exists_report_of_single (hc : (Fill.assign cfgs).lookup service = some (sc.settingsAt wd global))
    (hmode : sc.recursive = false) (hnot : ¬ Covered wd global sc) :
    ∃ s, Reaches (some wd) cfgs s ∧ ¬ Silent wd service sc s := by
  rw [Covered, if_neg (by rw [hmode]; exact Bool.false_ne_true)] at hnot
  push Not at hnot
  obtain ⟨root, hroot, hfiles⟩ := hnot
  by_cases hbelow : ∃ i ∈ sc.ignore.map (absAt wd), i <+: root
  · obtain ⟨i, hi, hbelow⟩ := hbelow
    obtain ⟨s, hs, e, he, hservice, rfl⟩ := exists_report_root hc hmode hroot
    exact ⟨s, hs, fun hsilent => hsilent e he hservice i hi hbelow⟩
  · push Not at hbelow
    obtain ⟨name, hpasses, hmem⟩ := hfiles hbelow
    have hopen : root.text ∉ (sc.settingsAt wd global).ignored := by
      rw [text_mem_ignored]
      exact fun h => hbelow root h (List.prefix_refl root)
    have hrecords : records (sc.settingsAt wd global) root name = true := by
      rw [records, decide_eq_true hopen]
      exact hpasses
    obtain ⟨s, hs, e, he, hservice, hfile⟩ := exists_report_file hc hmode hroot hrecords
    exact ⟨s, hs, fun hsilent => hsilent e he hservice _ hmem (by rw [hfile])⟩

end

/-- **Ignored paths.** For every configuration and every service of it: in all runs, with any contents of the disk at
any time, no event of the service is about an ignored path or something below one, exactly if the configuration is
`Covered`. -/
theorem ignored_silent_iff (wd : Path) (global : List Bytes) (plugins : List (Bytes × ServiceConfig)) (service : Bytes)
    (sc : ServiceConfig) (hsc : (Fill.assign plugins).lookup service = some sc) :
    (∀ cfgs, configs (some wd) global plugins = some cfgs → ∀ s, Reaches (some wd) cfgs s → Silent wd service sc s) ↔
      Covered wd global sc := by
  have hc : (Fill.assign (plugins.map fun p => (p.1, p.2.settingsAt wd global))).lookup service =
      some (sc.settingsAt wd global) := by
    rw [Fill.lookup_assign_map (fun sc => ServiceConfig.settingsAt wd global sc), hsc]
    rfl
  rw [configs_some]
  constructor
  · intro hsilent
    by_contra hnot
    obtain ⟨s, hs, hreported⟩ : ∃ s, Reaches (some wd) _ s ∧ ¬ Silent wd service sc s := by
      cases hmode : sc.recursive with
      | true => exact exists_report_of_recursive hc hmode hnot
      | false => exact exists_report_of_single hc hmode hnot
    exact hreported (hsilent _ rfl s hs)
  · intro hcovered cfgs hcfgs s hs e he hservice i hi
    cases hcfgs
    obtain ⟨c, hcfg, hvisible⟩ := hs.inv.reported e he
    rw [hservice, hc] at hcfg
    cases hcfg
    exact hcovered.not_below hvisible hi

/-- A recursive service that ignores a directory below. -/
def ignoringBelow : ServiceConfig := ⟨true, none, [ascii "w"], [ascii "w/vendor"]⟩

/-- A recursive service may ignore a directory below its own one. -/
theorem silent_below_root :
    (Fill.assign [(http, ignoringBelow)]).lookup http = some ignoringBelow ∧
      ∀ cfgs, configs (some []) [ascii ".php"] [(http, ignoringBelow)] = some cfgs → ∀ s, Reaches (some []) cfgs s →
        Silent [] http ignoringBelow s := by
  refine ⟨rfl, (ignored_silent_iff [] [ascii ".php"] [(http, ignoringBelow)] http ignoringBelow rfl).mpr ?_⟩
  have hmode : ignoringBelow.recursive = true := rfl
  rw [Covered, if_pos hmode]
  exact .inl (by decide)

/-- A service that ignores a file. -/
def ignoringFile : ServiceConfig := ⟨false, none, [ascii "/w"], [ascii "/w/a.php"]⟩

/-- A service that is not recursive reports the file that it is to ignore. -/
theorem ignored_file_reported :
    let c := ignoringFile.settingsAt [] [ascii ".php"]
    let w := single http ⟨c, fileList (some []) (fun _ => emptyDir) c⟩
    let t : Tick :=
      ⟨[http], fun _ => ⟨fun _ => oneFile, [ascii "/w"], [ascii "/w", ascii "a.php"], [ascii "a.php"], []⟩⟩
    configs (some []) [ascii ".php"] [(http, ignoringFile)] = some [(http, c)] ∧
      newWatcher (some []) (fun _ _ => emptyDir) [http] [(http, c)] = .ok w ∧ t.Valid (some []) w ∧
      (tick (some []) w t).2 = [⟨ascii "a.php", ⟨watchedDir ++ [watchedFile], 1, ⟨false, 420⟩⟩, http⟩] ∧
      absAt [] (ascii "/w/a.php") = watchedDir ++ [watchedFile] := by
  intro c w t
  exact ⟨by decide, rfl, valid_single rfl ⟨by decide, by decide, by decide, by decide⟩, by decide, by decide⟩

end RoadRunner.Reload
