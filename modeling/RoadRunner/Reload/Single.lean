import RoadRunner.Reload.Watcher

/-!
# Watching directories without what is below them

In the mode that is not recursive the files of all directories of a service are listed under their bare names, so that
a later directory hides the files of the same names of the earlier ones.

* `Path.text_injective`: different paths have different texts, and no name is the text of a path.
* `lookup_retrieveFilesSingle`: the listing of a directory.
* `lookup_retrieveFileList`: the listing of a service is that of its last directory that has the key.
* `touched_reported_iff`: which changed files are reported.
-/

namespace RoadRunner.Reload

/-! ## Keys -/

/-- The names of a path are the parts of its text. -/
theorem splitOn_names {p : Path} (h : p ≠ []) :
    ([47].intercalate (p.map Subtype.val)).splitOn 47 = p.map Subtype.val := by
  refine List.splitOn_intercalate 47 ?_ (mt List.map_eq_nil_iff.mp h)
  intro n hn
  obtain ⟨name, -, rfl⟩ := List.mem_map.mp hn
  exact name.property.2.1

theorem names_ne_nil {p : Path} (h : p ≠ []) : [47].intercalate (p.map Subtype.val) ≠ [] := by
  intro hnil
  have hsplit := splitOn_names h
  rw [hnil, List.splitOn_nil] at hsplit
  have hmem : ([] : Bytes) ∈ p.map Subtype.val := by
    rw [← hsplit]
    exact List.mem_singleton.mpr rfl
  obtain ⟨name, -, hname⟩ := List.mem_map.mp hmem
  exact name.property.1 hname

theorem Path.text_injective : Function.Injective Path.text := by
  intro p q h
  have hnames : [47].intercalate (p.map Subtype.val) = [47].intercalate (q.map Subtype.val) := (List.cons.inj h).2
  by_cases hp : p = []
  · by_contra hq
    subst hp
    exact names_ne_nil (Ne.symm hq) hnames.symm
  by_cases hq : q = []
  · subst hq
    exact absurd hnames (names_ne_nil hp)
  have hsplit := congrArg (List.splitOn 47) hnames
  rw [splitOn_names hp, splitOn_names hq] at hsplit
  exact Subtype.val_injective.list_map hsplit

/-- A name has no slash. -/
theorem Path.text_ne_name (p : Path) (n : FileName) : p.text ≠ n.val := by
  intro h
  refine n.property.2.1 ?_
  rw [← h]
  exact List.mem_cons_self

/-! ## One directory -/

/-- The entries, as a list. -/
def Entries.toList : Entries → List (FileName × Node)
  | .nil => []
  | .cons name node rest => (name, node) :: rest.toList

/-- The files that `ioutil.ReadDir` finds. -/
def infos (path : Path) (es : List (FileName × Node)) : List (FileName × FileInfo) :=
  es.filterMap fun e => (e.2.info (path ++ [e.1])).map fun info => (e.1, info)

theorem readDir_eq (path : Path) :
    ∀ es : Entries, readDir path es =
      if es.toList.any fun e => e.2.isFailing then .error (.lib "lstat") else .ok (infos path es.toList)
  | .nil => rfl
  | .cons name node rest => by
    rw [readDir, readDir_eq path rest, Entries.toList, List.any_cons]
    by_cases hnode : node.isFailing = true
    · rw [if_pos hnode, hnode, Bool.true_or, if_pos rfl]
    · rw [if_neg hnode, Bool.eq_false_iff.mpr hnode, Bool.false_or]
      by_cases hrest : (rest.toList.any fun e => e.2.isFailing) = true
      · rw [if_pos hrest, if_pos hrest]
      · rw [if_neg hrest, if_neg hrest, infos, infos, List.filterMap_cons]
        cases node.info (path ++ [name]) <;> rfl

/-- What `retrieveFilesSingle` makes of the files of a directory. -/
def listing (c : Settings) (path : Path) (root : FileInfo) (es : List (FileName × Node)) : FileMap :=
  Fill.assign ((path.text, root) :: ((infos path es).filter fun i => records c path i.1).map fun i => (i.1.val, i.2))

theorem lookup_listing (c : Settings) (path : Path) (root : FileInfo) (es : List (FileName × Node)) (key : Bytes) :
    (listing c path root es).lookup key =
      (Fill.last (fun e => if records c path e.1 = true ∧ e.1.val = key then e.2.info (path ++ [e.1]) else none) es).or
        (if path.text = key then some root else none) := by
  rw [listing, Fill.lookup_assign, Fill.last_cons, Fill.last_map, Fill.last_filter, infos, Fill.last_filterMap]
  refine congrArg (Option.or · _) (Fill.last_congr fun e _ => ?_)
  cases e.2.info (path ++ [e.1]) with
  | none => rw [Option.map_none, Option.bind_none, ite_self]
  | some info =>
    rw [Option.map_some, Option.bind_some]
    by_cases hrecords : records c path e.1 = true <;> by_cases hkey : e.1.val = key <;> simp [hrecords, hkey]

/-- The listing of a directory under a name. -/
theorem lookup_listing_name (c : Settings) (path : Path) (root : FileInfo) (es : List (FileName × Node))
    (name : FileName) :
    (listing c path root es).lookup name.val =
      if records c path name then
        Fill.last (fun e => if e.1 = name then e.2.info (path ++ [name]) else none) es
      else none := by
  rw [lookup_listing, if_neg (path.text_ne_name name), Option.or_none]
  by_cases hrecords : records c path name = true
  · rw [if_pos hrecords]
    refine Fill.last_congr fun e _ => ?_
    by_cases hname : e.1 = name
    · rw [hname, if_pos ⟨hrecords, rfl⟩, if_pos rfl]
    · rw [if_neg fun h => hname (Subtype.ext h.2), if_neg hname]
  · rw [if_neg hrecords, Fill.last_eq_none_iff]
    rintro e -
    refine if_neg ?_
    rintro ⟨h, hname⟩
    exact hrecords (Subtype.ext hname ▸ h)

/-- The listing of a directory under its own path. -/
theorem lookup_listing_root (c : Settings) (path : Path) (root : FileInfo) (es : List (FileName × Node)) :
    (listing c path root es).lookup path.text = some root := by
  rw [lookup_listing, if_pos rfl, Fill.last_eq_none_iff.mpr, Option.none_or]
  rintro e -
  exact if_neg fun h => path.text_ne_name e.1 h.2.symm

/-- The files of a node. -/
def Node.files : Node → List (FileName × Node)
  | dir _ entries => entries.toList
  | _ => []

/-- The file of a name that is found in a directory. -/
def Node.entry (path : Path) (name : FileName) (node : Node) : Option FileInfo :=
  Fill.last (fun e => if e.1 = name then e.2.info (path ++ [name]) else none) node.files

theorem retrieveFilesSingle_dir {c : Settings} {path : Path} {stat : Stat} {entries : Entries} :
    retrieveFilesSingle c path (.dir stat entries) =
      if entries.toList.any fun e => e.2.isFailing then .error (.lib "lstat")
      else .ok (listing c path ⟨path, stat.modTime, ⟨true, stat.bits⟩⟩ entries.toList) := by
  rw [retrieveFilesSingle, readDir_eq]
  by_cases h : (entries.toList.any fun e => e.2.isFailing) = true
  · rw [if_pos h, if_pos h]
  · rw [if_neg h, if_neg h]
    rfl

/-- The listing of a directory, if it can be read. -/
theorem retrieveFilesSingle_ok {c : Settings} {path : Path} {node : Node} {m : FileMap}
    (h : retrieveFilesSingle c path node = .ok m) :
    ∃ root, node.info path = some root ∧ m = listing c path root node.files := by
  cases node with
  | gone => cases h
  | failing => cases h
  | unreadable stat => cases h
  | file stat =>
    cases h
    exact ⟨_, rfl, rfl⟩
  | dir stat entries =>
    rw [retrieveFilesSingle_dir] at h
    split at h
    · cases h
    · cases h
      exact ⟨_, rfl, rfl⟩

/-! ## All directories -/

/-- What the listing of a directory has under a key. -/
def listed (c : Settings) (disk : Disk) (key : Bytes) (path : Path) : Option FileInfo :=
  match retrieve c path (disk path) with
  | .ok m => m.lookup key
  | .error _ => none

/-- The directories of a service are the given paths. -/
def Roots (cwd : Option Path) (c : Settings) (roots : List Path) : Prop := c.directories.map (abs cwd) = roots.map some

section

variable {cwd : Option Path} {disk : Disk} {c : Settings}

/-- The listings are merged, and a later one wins. -/
theorem retrieveAll_ok {directories : List Bytes} {roots : List Path}
    (hroots : directories.map (abs cwd) = roots.map some) {acc scan : FileMap}
    (h : retrieveAll cwd disk c directories acc = .ok scan) :
    (∀ d ∈ roots, ∃ m, retrieve c d (disk d) = .ok m) ∧
      ∀ key, scan.lookup key = (Fill.last (listed c disk key) roots).or (acc.lookup key) := by
  induction directories generalizing roots acc with
  | nil =>
    obtain rfl := List.map_eq_nil_iff.mp hroots.symm
    cases h
    exact ⟨List.forall_mem_nil _, fun key => rfl⟩
  | cons dir directories ih =>
    cases roots with
    | nil => cases hroots
    | cons d roots =>
      obtain ⟨hdir, hrest⟩ := List.cons.inj hroots
      obtain ⟨root, list, hroot, hlist, h⟩ := retrieveAll_cons.mp h
      obtain rfl := Option.some.inj (hdir.symm.trans hroot)
      obtain ⟨hall, hlookup⟩ := ih hrest h
      refine ⟨List.forall_mem_cons.mpr ⟨⟨list, hlist⟩, hall⟩, fun key => ?_⟩
      rw [hlookup, Fill.lookup_union, Fill.last_cons, Option.or_assoc, listed, hlist]

theorem exists_retrieveAll {directories : List Bytes} {roots : List Path}
    (hroots : directories.map (abs cwd) = roots.map some)
    (h : ∀ d ∈ roots, ∃ m, retrieve c d (disk d) = .ok m) (acc : FileMap) :
    ∃ scan, retrieveAll cwd disk c directories acc = .ok scan := by
  induction directories generalizing roots acc with
  | nil => exact ⟨acc, rfl⟩
  | cons dir directories ih =>
    cases roots with
    | nil => cases hroots
    | cons d roots =>
      obtain ⟨hdir, hrest⟩ := List.cons.inj hroots
      obtain ⟨⟨list, hlist⟩, hall⟩ := List.forall_mem_cons.mp h
      obtain ⟨scan, hscan⟩ := ih hrest hall (list ∪ acc)
      exact ⟨scan, retrieveAll_cons.mpr ⟨d, list, hdir, hlist, hscan⟩⟩

/-- The listing of a service is that of its last directory that has the key. -/
theorem lookup_retrieveFileList {roots : List Path} (hroots : Roots cwd c roots) {scan : FileMap}
    (h : retrieveFileList cwd disk c = .ok scan) (key : Bytes) :
    scan.lookup key = Fill.last (listed c disk key) roots := by
  rw [(retrieveAll_ok hroots h).2, Finmap.lookup_empty, Option.or_none]

end

/-! ## A changed file -/

/-- A file of a directory has another time of modification, and the other files and directories are as they were. -/
structure Touched (path : Path) (name : FileName) (before after : Disk) : Prop where
  elsewhere : ∀ p, p ≠ path → after p = before p
  there : ∃ stat stat' entries entries' l r bits t t',
    before path = .dir stat entries ∧ entries.toList = l ++ (name, .file ⟨t, bits⟩) :: r ∧
      after path = .dir stat' entries' ∧ entries'.toList = l ++ (name, .file ⟨t', bits⟩) :: r ∧
      t ≠ t' ∧ ∀ e ∈ l ++ r, e.1 ≠ name

/-- A listing with another time of modification for one file. -/
structure Relisted (path : Path) (name : FileName) (m m' : FileMap) : Prop where
  file : ∃ i i', m.lookup name.val = some i ∧ m'.lookup name.val = some i' ∧ i.isDir = false ∧ i'.isDir = false ∧
    i'.file = path ++ [name] ∧ i.modTime ≠ i'.modTime
  root : m.lookup path.text ≠ none ∧ ∃ i', m'.lookup path.text = some i' ∧ i'.isDir = true
  other : ∀ key, key ≠ name.val → key ≠ path.text → m'.lookup key = m.lookup key

theorem relisted_listing {c : Settings} {path : Path} {name : FileName} (hrecords : records c path name = true)
    (root : FileInfo) {root' : FileInfo} (hroot' : root'.isDir = true) {l r : List (FileName × Node)}
    (hother : ∀ e ∈ l ++ r, e.1 ≠ name) {t t' : Int} (ht : t ≠ t') (bits : UInt32) :
    Relisted path name (listing c path root (l ++ (name, .file ⟨t, bits⟩) :: r))
      (listing c path root' (l ++ (name, .file ⟨t', bits⟩) :: r)) := by
  have hname : ∀ i s, (listing c path i (l ++ (name, .file ⟨s, bits⟩) :: r)).lookup name.val =
      some ⟨path ++ [name], s, ⟨false, bits⟩⟩ := by
    intro i s
    have hr : Fill.last (fun e : FileName × Node => if e.1 = name then e.2.info (path ++ [name]) else none) r = none :=
      Fill.last_eq_none_iff.mpr fun e he => if_neg (hother e (List.mem_append_right l he))
    rw [lookup_listing_name, if_pos hrecords, Fill.last_append, Fill.last_cons, hr, if_pos rfl]
    rfl
  refine ⟨⟨_, _, hname root t, hname root' t', rfl, rfl, rfl, ht⟩, ⟨?_, root', lookup_listing_root _ _ _ _, hroot'⟩, ?_⟩
  · rw [lookup_listing_root]
    exact Option.some_ne_none root
  · intro key hkey hroot
    have hskip : ¬ (records c path name = true ∧ name.val = key) := fun h => hkey h.2.symm
    rw [lookup_listing, lookup_listing, if_neg (Ne.symm hroot), if_neg (Ne.symm hroot), Fill.last_append,
      Fill.last_append, Fill.last_cons, Fill.last_cons, if_neg hskip, if_neg hskip]

section

variable {c : Settings} {path : Path} {name : FileName} {before after : Disk}

theorem retrieve_single (hmode : c.recursive = false) (path : Path) (node : Node) :
    retrieve c path node = retrieveFilesSingle c path node := by
  rw [retrieve, hmode]
  rfl

/-- The directory with the changed file is listed again. -/
theorem Touched.relisted (h : Touched path name before after) (hmode : c.recursive = false)
    (hrecords : records c path name = true) {m : FileMap} (hm : retrieve c path (before path) = .ok m) :
    ∃ m', retrieve c path (after path) = .ok m' ∧ Relisted path name m m' := by
  obtain ⟨stat, stat', entries, entries', l, r, bits, t, t', hbefore, hentries, hafter, hentries', ht, hother⟩ :=
    h.there
  rw [retrieve_single hmode, hbefore, retrieveFilesSingle_dir, hentries, List.any_append, List.any_cons] at hm
  rw [retrieve_single hmode, hafter, retrieveFilesSingle_dir, hentries', List.any_append, List.any_cons]
  split at hm
  · cases hm
  case isFalse hfailing =>
    cases hm
    exact ⟨_, if_neg hfailing, relisted_listing hrecords _ rfl hother ht bits⟩

/-- What the other directories have is as it was. -/
theorem Touched.listed_elsewhere (h : Touched path name before after) (key : Bytes) {p : Path} (hp : p ≠ path) :
    listed c after key p = listed c before key p := by
  rw [listed, listed, h.elsewhere p hp]

end

/-! ## What is reported -/

/-- A file of a listing in which nothing has changed is recorded with its time and mode. -/
theorem Unchanged.recorded {recorded scan : FileMap} (h : Unchanged recorded scan) {key : Bytes} {info : FileInfo}
    (hscan : scan.lookup key = some info) (hfile : info.isDir = false) :
    ∃ old, recorded.lookup key = some old ∧ ¬ Differs old info := by
  cases hold : recorded.lookup key with
  | none => exact absurd (.created hscan hfile hold) (h key info)
  | some old => exact ⟨old, rfl, fun hdiffers => h key info (.updated hscan hfile hold hdiffers)⟩

theorem unchanged_self (scan : FileMap) : Unchanged scan scan := by
  intro key info hchange
  cases hchange with
  | removed old gone =>
    rw [old] at gone
    cases gone
  | created new file old =>
    rw [new] at old
    cases old
  | updated new file old differs =>
    rw [new] at old
    cases old
    exact differs_irrefl info differs

/-- Only directories are listed in another way. -/
theorem Unchanged.of_same {recorded scan scan' : FileMap} (h : Unchanged recorded scan)
    (hsame : ∀ key, scan'.lookup key = scan.lookup key ∨
      scan.lookup key ≠ none ∧ ∃ i, scan'.lookup key = some i ∧ i.isDir = true) : Unchanged recorded scan' := by
  intro key info hchange
  rcases hsame key with heq | ⟨-, i, hi, hdir⟩
  · exact h key info (hchange.congr rfl heq.symm)
  · have hlisted : ∀ {j}, scan'.lookup key = some j → j.isDir = true := by
      intro j hj
      obtain rfl := Option.some.inj (hi.symm.trans hj)
      exact hdir
    cases hchange with
    | removed old gone =>
      rw [hi] at gone
      cases gone
    | created new file old => exact Bool.noConfusion (file.symm.trans (hlisted new))
    | updated new file old differs => exact Bool.noConfusion (file.symm.trans (hlisted new))

/-- A directory that is listed later has a file of the name. -/
def Hidden (c : Settings) (disk : Disk) (name : FileName) (later : List Path) : Prop :=
  ∃ d ∈ later, d.text ∉ c.ignored ∧ (disk d).entry d name ≠ none

/-- The later directories have something under the name exactly if the file is hidden. -/
theorem hidden_iff {c : Settings} {disk : Disk} {path : Path} {name : FileName} (hmode : c.recursive = false)
    (hrecords : records c path name = true) {later : List Path}
    (hok : ∀ d ∈ later, ∃ m, retrieve c d (disk d) = .ok m) :
    Hidden c disk name later ↔ Fill.last (listed c disk name.val) later ≠ none := by
  have hlisted : ∀ d ∈ later, listed c disk name.val d =
      if d.text ∉ c.ignored then (disk d).entry d name else none := by
    intro d hd
    obtain ⟨m, hm⟩ := hok d hd
    have hpattern : records c d name = decide (d.text ∉ c.ignored) := by
      simp only [records, Bool.and_eq_true] at hrecords ⊢
      rw [hrecords.2, Bool.and_true]
    rw [listed, hm]
    rw [retrieve_single hmode] at hm
    obtain ⟨root, -, rfl⟩ := retrieveFilesSingle_ok hm
    dsimp only
    rw [lookup_listing_name, hpattern, Node.entry]
    simp
  rw [Ne, Fill.last_eq_none_iff]
  constructor
  · rintro ⟨d, hd, hignored, hentry⟩ hnone
    have h := hnone d hd
    rw [hlisted d hd, if_pos hignored] at h
    exact hentry h
  · intro hsome
    by_contra hnot
    refine hsome fun d hd => ?_
    rw [hlisted d hd]
    split
    case isTrue hignored =>
      by_contra hentry
      exact hnot ⟨d, hd, hignored, hentry⟩
    · rfl

section

variable {cwd : Option Path} {c : Settings} {path : Path} {name : FileName} {before after : Disk} {l r : List Path}

/-- The listings of the service before and after the change: in both, the later directories come first, then the one
of the file, then the earlier ones. -/
theorem Touched.scans (h : Touched path name before after) (hmode : c.recursive = false)
    (hrecords : records c path name = true) (hroots : Roots cwd c (l ++ path :: r)) (hdistinct : (l ++ path :: r).Nodup)
    {scan : FileMap} (hscan : retrieveFileList cwd before c = .ok scan) :
    ∃ scan' m m', retrieveFileList cwd after c = .ok scan' ∧ Relisted path name m m' ∧
      ∀ key, scan.lookup key =
          ((Fill.last (listed c before key) r).or (m.lookup key)).or (Fill.last (listed c before key) l) ∧
        scan'.lookup key =
          ((Fill.last (listed c before key) r).or (m'.lookup key)).or (Fill.last (listed c before key) l) := by
  have hok := (retrieveAll_ok hroots hscan).1
  obtain ⟨m, hm⟩ := hok path (by simp)
  obtain ⟨m', hm', hrelisted⟩ := h.relisted hmode hrecords hm
  have hok' : ∀ d ∈ l ++ path :: r, ∃ m, retrieve c d (after d) = .ok m := by
    intro d hd
    by_cases hpath : d = path
    · subst hpath
      exact ⟨m', hm'⟩
    · rw [h.elsewhere d hpath]
      exact hok d hd
  obtain ⟨scan', hscan'⟩ := exists_retrieveAll hroots hok' ∅
  refine ⟨scan', m, m', hscan', hrelisted, fun key => ⟨?_, ?_⟩⟩
  · rw [lookup_retrieveFileList hroots hscan, Fill.last_append, Fill.last_cons, listed, hm]
  · have hne := List.nodup_middle.mp hdistinct
    rw [List.nodup_cons] at hne
    have hl : Fill.last (listed c after key) l = Fill.last (listed c before key) l :=
      Fill.last_congr fun d hd => h.listed_elsewhere key (ne_of_mem_of_not_mem (List.mem_append_left r hd) hne.1)
    have hr : Fill.last (listed c after key) r = Fill.last (listed c before key) r :=
      Fill.last_congr fun d hd => h.listed_elsewhere key (ne_of_mem_of_not_mem (List.mem_append_right l hd) hne.1)
    rw [lookup_retrieveFileList hroots hscan', Fill.last_append, Fill.last_cons, hl, hr, listed, hm']

end

/-- If the changed file is hidden by what comes first, everything but its directory is listed as before. -/
theorem Relisted.same_of_hidden {path : Path} {name : FileName} {m m' : FileMap} (h : Relisted path name m m')
    (first last : Bytes → Option FileInfo) (hhidden : first name.val ≠ none) (key : Bytes) :
    ((first key).or (m'.lookup key)).or (last key) = ((first key).or (m.lookup key)).or (last key) ∨
      ((first key).or (m.lookup key)).or (last key) ≠ none ∧
        ∃ i, ((first key).or (m'.lookup key)).or (last key) = some i ∧ i.isDir = true := by
  by_cases hname : key = name.val
  · subst hname
    obtain ⟨i, hi⟩ := Option.ne_none_iff_exists'.mp hhidden
    rw [hi]
    exact .inl rfl
  by_cases hroot : key = path.text
  · subst hroot
    obtain ⟨hsome, i', hi', hdir⟩ := h.root
    cases first path.text with
    | some i => exact .inl rfl
    | none =>
      rw [hi', Option.none_or, Option.none_or]
      refine .inr ⟨?_, i', rfl, hdir⟩
      rw [Ne, Option.or_eq_none_iff]
      exact fun hnone => hsome hnone.1
  · rw [h.other key hname hroot]
    exact .inl rfl

/-- **Files in several directories.** For every service that is not recursive, all distinct directories and all
contents of them, where the record agrees with the last listing: after a change of the time of modification of one
watched file the next tick reports it exactly if no later directory that is not ignored has a file of its name. -/
theorem touched_reported_iff (cwd : Option Path) (w : Watcher) (t : Tick) (ht : t.Valid cwd w) (service : Bytes)
    (c : WatcherConfig) (hc : w.lookup service = some c) (hmode : c.recursive = false) (path : Path) (l r : List Path)
    (hroots : Roots cwd c.toSettings (l ++ path :: r)) (hdistinct : (l ++ path :: r).Nodup) (before : Disk)
    (scan : FileMap) (hscan : retrieveFileList cwd before c.toSettings = .ok scan) (hrest : Unchanged c.files scan)
    (name : FileName) (hrecords : records c.toSettings path name = true)
    (htouched : Touched path name before (t.sights service).disk) :
    (∃ e ∈ (tick cwd w t).2, e.service = service ∧ e.info.file = path ++ [name]) ↔
      ¬ Hidden c.toSettings before name r := by
  obtain ⟨scan', m, m', hscan', hrelisted, hlookup⟩ := htouched.scans hmode hrecords hroots hdistinct hscan
  have hlist : fileList cwd (t.sights service).disk c.toSettings = scan' := by rw [fileList, hscan']
  have hlater : ∀ d ∈ r, ∃ m, retrieve c.toSettings d (before d) = .ok m :=
    fun d hd => (retrieveAll_ok hroots hscan).1 d (by simp [hd])
  rw [hidden_iff hmode hrecords hlater, not_not]
  constructor
  · rintro ⟨e, he, hservice, -⟩
    by_contra hhidden
    -- the file that hides the changed one is listed as before, and so is everything else
    have hunchanged : Unchanged c.files scan' := by
      refine hrest.of_same fun key => ?_
      rw [(hlookup key).1, (hlookup key).2]
      exact hrelisted.same_of_hidden (fun key => Fill.last (listed c.toSettings before key) r)
        (fun key => Fill.last (listed c.toSettings before key) l) hhidden key
    rw [← hlist] at hunchanged
    exact (silentFor_tick_iff ht hc).mpr hunchanged e he hservice
  · intro hnone
    obtain ⟨i, i', hi, hi', hfile, hfile', hpath, htime⟩ := hrelisted.file
    have hbefore : scan.lookup name.val = some i := by
      rw [(hlookup name.val).1, hnone, hi]
      rfl
    have hafter : scan'.lookup name.val = some i' := by
      rw [(hlookup name.val).2, hnone, hi']
      rfl
    obtain ⟨old, hold, hsame⟩ := hrest.recorded hbefore hfile
    have hdiffers : Differs old i' := by
      have htimes : old.modTime = i.modTime := by
        by_contra hne
        exact hsame (.inl hne)
      exact .inl (htimes ▸ htime)
    refine ⟨⟨name.val, i', service⟩, (mem_tick ht).mpr ⟨c, hc, ?_⟩, rfl, hpath⟩
    rw [hlist]
    exact .updated hafter hfile' hold hdiffers

/-- Another directory. -/
def otherDir : Path := [⟨ascii "v", by decide⟩]

/-- A file in it. -/
def otherFile : FileName := ⟨ascii "b.php", by decide⟩

/-- A service with two directories. -/
def twoDirectories : Settings := ⟨false, [ascii "/w", ascii "/v"], [], some [ascii ".php"]⟩

/-- `/w` has the watched file with a time of modification, and `/v` has a file of the name. -/
def twoFiles (modTime : Int) (name : FileName) : Disk := fun path =>
  if path = watchedDir then .dir ⟨0, 493⟩ (.cons watchedFile (.file ⟨modTime, 420⟩) .nil)
  else .dir ⟨0, 493⟩ (.cons name (.file ⟨1, 420⟩) .nil)

theorem touched_twoFiles (name : FileName) :
    Touched watchedDir watchedFile (twoFiles 1 name) (twoFiles 2 name) where
  elsewhere p hp := by rw [twoFiles, twoFiles, if_neg hp, if_neg hp]
  there := by
    refine ⟨⟨0, 493⟩, ⟨0, 493⟩, _, _, [], [], 420, 1, 2, rfl, rfl, rfl, rfl, by decide, ?_⟩
    exact List.forall_mem_nil _

/-- A file with another name in the later directory does not hide the changed one. -/
theorem touched_beside_other :
    let w := single http ⟨twoDirectories, fileList none (twoFiles 1 otherFile) twoDirectories⟩
    let keys := [ascii "/w", ascii "/v", ascii "a.php", ascii "b.php"]
    let t : Tick := ⟨[http], fun _ => ⟨twoFiles 2 otherFile, keys, keys, [], []⟩⟩
    newWatcher none (fun _ => twoFiles 1 otherFile) [http] [(http, twoDirectories)] = .ok w ∧ t.Valid none w ∧
      ∃ e ∈ (tick none w t).2, e.service = http ∧ e.info.file = watchedDir ++ [watchedFile] := by
  intro w keys t
  have ht : t.Valid none w := valid_single rfl ⟨by decide, by decide, by decide, by decide⟩
  refine ⟨rfl, ht, (touched_reported_iff none w t ht http _ rfl rfl watchedDir [] [otherDir] rfl (by decide)
    (twoFiles 1 otherFile) _ rfl (unchanged_self _) watchedFile (by decide) (touched_twoFiles otherFile)).mpr ?_⟩
  rintro ⟨d, hd, -, hentry⟩
  obtain rfl := List.mem_singleton.mp hd
  exact hentry rfl

/-- A file of the same name in the later directory hides the changed one. -/
theorem touched_hidden :
    let w := single http ⟨twoDirectories, fileList none (twoFiles 1 watchedFile) twoDirectories⟩
    let keys := [ascii "/w", ascii "/v", ascii "a.php"]
    let t : Tick := ⟨[http], fun _ => ⟨twoFiles 2 watchedFile, keys, keys, [], []⟩⟩
    newWatcher none (fun _ => twoFiles 1 watchedFile) [http] [(http, twoDirectories)] = .ok w ∧ t.Valid none w ∧
      Touched watchedDir watchedFile (twoFiles 1 watchedFile) (t.sights http).disk ∧ (tick none w t).2 = [] := by
  intro w keys t
  exact ⟨rfl, valid_single rfl ⟨by decide, by decide, by decide, by decide⟩, touched_twoFiles watchedFile, by decide⟩

end RoadRunner.Reload
