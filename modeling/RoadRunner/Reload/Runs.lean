import RoadRunner.Reload.Single
import RoadRunner.Lib.Run

/-!
# Runs of the watcher

A watcher is built with the first listings of its services, and then ticks for ever.

* `Visible`: the files that the scans of a service can find. The two modes apply the list of ignored paths in different
  places: a recursive walk leaves out an ignored path and what is below it, if it comes to the path; the other mode only
  asks whether the directory itself is ignored.
* `Reaches.inv`: what is recorded and reported is visible.
-/

namespace RoadRunner.Reload

/-! ## Runs -/

/-- A watcher and all events so far. -/
structure State where
  watcher : Watcher
  events : List Event

/-- The watcher and its events after a tick. -/
def advance (cwd : Option Path) (s : State) (t : Tick) : State :=
  ⟨(tick cwd s.watcher t).1, s.events ++ (tick cwd s.watcher t).2⟩

/-! ## Visible files -/

/-- A file that a walk from a path can find. -/
structure Walked (c : Settings) (root file : Path) : Prop where
  below : root <+: file
  open_between : ∀ p : Path, root <+: p → p <+: file → p.text ∉ c.ignored
  admitted : skips c.filePatterns file.base = false

/-- A file that the scan of a directory can find. -/
def VisibleFrom (c : Settings) (root file : Path) : Prop :=
  if c.recursive then Walked c root file
  else file = root ∨ ∃ name, file = root ++ [name] ∧ records c root name = true

/-- A file that the scans of a service can find. -/
def Visible (cwd : Option Path) (c : Settings) (file : Path) : Prop :=
  ∃ dir ∈ c.directories, ∃ root, abs cwd dir = some root ∧ VisibleFrom c root file

/-- A path between a directory and something below one of its files is the directory or at or below that file. -/
theorem eq_or_below {path p file : Path} {name : FileName} (hp : path <+: p) (hfile : p <+: file)
    (hname : path ++ [name] <+: file) : p = path ∨ path ++ [name] <+: p := by
  rcases List.prefix_or_prefix_of_prefix hfile hname with h | h
  · rcases List.prefix_concat_iff.mp h with heq | hle
    · exact .inr (heq ▸ List.prefix_refl _)
    · exact .inl (hle.eq_of_length_le hp.length_le)
  · exact .inr h

theorem visit_walked {c : Settings} {path : Path} {info : FileInfo} {rs : Records} (h : visit c path info = .ok rs)
    (hinfo : info.file = path) : ∀ r ∈ rs, Walked c path r.2.file := by
  unfold visit at h
  split at h
  · split at h
    · cases h
    · cases h
      exact List.forall_mem_nil _
  case isFalse hopen =>
    split at h
    · cases h
      exact List.forall_mem_nil _
    case isFalse hadmitted =>
      cases h
      intro r hr
      rw [List.mem_singleton.mp hr, hinfo]
      refine ⟨List.prefix_refl path, ?_, Bool.eq_false_iff.mpr hadmitted⟩
      intro p hp hp'
      rwa [hp'.eq_of_length_le hp.length_le]

/-- A directory whose files are walked is not ignored. -/
theorem not_ignored_of_visit {c : Settings} {path : Path} {info : FileInfo} (hdir : info.isDir = true) {rs : Records}
    (h : visit c path info = .ok rs) : path.text ∉ c.ignored := by
  intro hmem
  rw [visit, if_pos hmem, if_pos hdir] at h
  cases h

theorem Walked.of_entry {c : Settings} {path file : Path} {name : FileName} (h : Walked c (path ++ [name]) file)
    (hpath : path.text ∉ c.ignored) : Walked c path file where
  below := (List.prefix_append path [name]).trans h.below
  open_between p hp hp' := by
    rcases eq_or_below hp hp' h.below with rfl | hbelow
    · exact hpath
    · exact h.open_between p hbelow hp'
  admitted := h.admitted

mutual

theorem walk_walked (c : Settings) :
    ∀ (path : Path) (node : Node) (rs : Records), walk c path node = .ok rs → ∀ r ∈ rs, Walked c path r.2.file
  | path, .gone, rs, h => by cases h
  | path, .failing, rs, h => by cases h
  | path, .unreadable _, rs, h => by cases h
  | path, .file stat, rs, h => by
    rw [walk] at h
    exact visit_walked h rfl
  | path, .dir stat entries, rs, h => by
    rw [walk] at h
    cases hvisit : visit c path ⟨path, stat.modTime, ⟨true, stat.bits⟩⟩ with
    | error e =>
      rw [hvisit] at h
      cases h
    | ok here =>
      cases hentries : walkEntries c path entries with
      | error e =>
        rw [hvisit, hentries] at h
        cases h
      | ok below =>
        rw [hvisit, hentries] at h
        cases h
        intro r hr
        rcases List.mem_append.mp hr with hhere | hbelow
        · exact visit_walked hvisit rfl r hhere
        · obtain ⟨name, hwalked⟩ := walkEntries_walked c path entries below hentries r hbelow
          exact hwalked.of_entry (not_ignored_of_visit rfl hvisit)

theorem walkEntries_walked (c : Settings) :
    ∀ (path : Path) (entries : Entries) (rs : Records), walkEntries c path entries = .ok rs →
      ∀ r ∈ rs, ∃ name, Walked c (path ++ [name]) r.2.file
  | path, .nil, rs, h => by
    cases h
    exact List.forall_mem_nil _
  | path, .cons name node rest, rs, h => by
    rw [walkEntries] at h
    cases hnode : walk c (path ++ [name]) node with
    | error e =>
      rw [hnode] at h
      cases e with
      | skipDir => exact walkEntries_walked c path rest rs h
      | failed e => cases h
    | ok here =>
      cases hrest : walkEntries c path rest with
      | error e =>
        rw [hnode, hrest] at h
        cases h
      | ok below =>
        rw [hnode, hrest] at h
        cases h
        intro r hr
        rcases List.mem_append.mp hr with hhere | hbelow
        · exact ⟨name, walk_walked c (path ++ [name]) node here hnode r hhere⟩
        · exact walkEntries_walked c path rest below hrest r hbelow

end

theorem info_file {path : Path} {node : Node} {info : FileInfo} (h : node.info path = some info) :
    info.file = path := by
  cases node <;> cases h <;> rfl

theorem retrieve_visible {c : Settings} {root : Path} {node : Node} {m : FileMap} (h : retrieve c root node = .ok m)
    {key : Bytes} {info : FileInfo} (hkey : m.lookup key = some info) : VisibleFrom c root info.file := by
  unfold VisibleFrom
  unfold retrieve at h
  split
  case isTrue hmode =>
    rw [if_pos hmode, retrieveFilesRecursive] at h
    cases hwalk : walk c root node with
    | error e =>
      rw [hwalk] at h
      cases e with
      | failed e => cases h
      | skipDir =>
        cases h
        cases hkey
    | ok rs =>
      rw [hwalk] at h
      cases h
      rw [Fill.lookup_assign] at hkey
      obtain ⟨r, hr, hinfo⟩ := Fill.exists_of_last hkey
      split at hinfo
      · cases hinfo
        exact walk_walked c root node rs hwalk r hr
      · cases hinfo
  case isFalse hmode =>
    rw [if_neg hmode] at h
    obtain ⟨i, hi, rfl⟩ := retrieveFilesSingle_ok h
    rw [lookup_listing] at hkey
    rcases Option.or_eq_some_iff.mp hkey with hlast | ⟨-, hroot⟩
    · obtain ⟨e, -, he⟩ := Fill.exists_of_last hlast
      split at he
      case isTrue hrecords => exact .inr ⟨e.1, info_file he, hrecords.1⟩
      · cases he
    · split at hroot
      · cases hroot
        exact .inl (info_file hi)
      · cases hroot

theorem retrieveAll_visible {cwd : Option Path} {disk : Disk} {c : Settings} {directories : List Bytes}
    {acc scan : FileMap} (h : retrieveAll cwd disk c directories acc = .ok scan) {key : Bytes} {info : FileInfo}
    (hkey : scan.lookup key = some info) :
    acc.lookup key = some info ∨
      ∃ dir ∈ directories, ∃ root, abs cwd dir = some root ∧ VisibleFrom c root info.file := by
  induction directories generalizing acc with
  | nil =>
    cases h
    exact .inl hkey
  | cons dir directories ih =>
    obtain ⟨root, list, hroot, hlist, h⟩ := retrieveAll_cons.mp h
    rcases ih h with hunion | ⟨d, hd, hvisible⟩
    · rw [Fill.lookup_union] at hunion
      rcases Option.or_eq_some_iff.mp hunion with hhere | ⟨-, hacc⟩
      · exact .inr ⟨dir, List.mem_cons_self, root, hroot, retrieve_visible hlist hhere⟩
      · exact .inl hacc
    · exact .inr ⟨d, List.mem_cons_of_mem dir hd, hvisible⟩

theorem fileList_visible {cwd : Option Path} {disk : Disk} {c : Settings} {key : Bytes} {info : FileInfo}
    (hkey : (fileList cwd disk c).lookup key = some info) : Visible cwd c info.file := by
  unfold fileList at hkey
  split at hkey
  case h_1 scan hscan =>
    rcases retrieveAll_visible hscan hkey with hempty | hvisible
    · cases hempty
    · exact hvisible
  · cases hkey

/-! ## What is recorded and reported -/

/-- The record of a service after its first listing. -/
def listedFirst (cwd : Option Path) (disks : Bytes → Disk) (service : Bytes) (c : WatcherConfig) : WatcherConfig :=
  { c with files := fileList cwd (disks service) c.toSettings }

theorem initFs_ok {cwd : Option Path} {disks : Bytes → Disk} {order : List Bytes} (hnodup : order.Nodup)
    {w w' : Watcher} (h : initFs cwd disks order w = .ok w') (service : Bytes) :
    w'.lookup service =
      if service ∈ order then (w.lookup service).map (listedFirst cwd disks service) else w.lookup service := by
  induction order generalizing w with
  | nil =>
    cases h
    rfl
  | cons s order ih =>
    rw [List.nodup_cons] at hnodup
    rw [initFs] at h
    cases hs : w.lookup s with
    | none =>
      rw [hs] at h
      rw [ih hnodup.2 h]
      by_cases heq : service = s
      · subst heq
        simp [hs]
      · simp [heq]
    | some c =>
      rw [hs] at h
      dsimp only at h
      cases hfiles : retrieveFileList cwd (disks s) c.toSettings with
      | error e =>
        rw [hfiles] at h
        cases h
      | ok files =>
        rw [hfiles] at h
        rw [ih hnodup.2 h, Fill.lookup_insert]
        by_cases heq : service = s
        · subst heq
          simp [hs, hnodup.1, listedFirst, fileList, hfiles]
        · simp [heq]

theorem exists_initFs {cwd : Option Path} {disks : Bytes → Disk} (order : List Bytes) {w : Watcher}
    (hok : ∀ service c, w.lookup service = some c →
      ∃ files, retrieveFileList cwd (disks service) c.toSettings = .ok files) :
    ∃ w', initFs cwd disks order w = .ok w' := by
  induction order generalizing w with
  | nil => exact ⟨w, rfl⟩
  | cons s order ih =>
    rw [initFs]
    cases hs : w.lookup s with
    | none => exact ih hok
    | some c =>
      obtain ⟨files, hfiles⟩ := hok s c hs
      dsimp only
      rw [hfiles]
      refine ih fun service d hd => ?_
      rw [Fill.lookup_insert] at hd
      split at hd
      case isTrue heq =>
        cases hd
        subst heq
        exact ⟨files, hfiles⟩
      · exact hok service d hd

/-- The settings of the services do not change, and all files that are recorded or were reported are visible. -/
structure Inv (cwd : Option Path) (cfg : Bytes → Option Settings) (s : State) : Prop where
  settings : ∀ service c, s.watcher.lookup service = some c → cfg service = some c.toSettings
  recorded : ∀ service c, s.watcher.lookup service = some c →
    ∀ key info, c.files.lookup key = some info → Visible cwd c.toSettings info.file
  reported : ∀ e ∈ s.events, ∃ c, cfg e.service = some c ∧ Visible cwd c e.info.file

theorem Inv.advance {cwd : Option Path} {cfg : Bytes → Option Settings} {s : State} {t : Tick} (h : Inv cwd cfg s)
    (ht : t.Valid cwd s.watcher) : Inv cwd cfg (advance cwd s t) where
  settings service c hc := by
    rw [Reload.advance, (tick_spec ht).1] at hc
    obtain ⟨d, hd, rfl⟩ := Option.map_eq_some_iff.mp hc
    exact h.settings service d hd
  recorded service c hc key info hkey := by
    rw [Reload.advance, (tick_spec ht).1] at hc
    obtain ⟨d, hd, rfl⟩ := Option.map_eq_some_iff.mp hc
    rcases lookup_pollEvents_mem (ht.polls service d hd) hkey with hold | hnew
    · exact h.recorded service d hd key info hold
    · exact fileList_visible hnew
  reported e he := by
    rcases List.mem_append.mp he with hold | hnew
    · exact h.reported e hold
    · obtain ⟨c, hc, hchange⟩ := (mem_tick ht).mp hnew
      refine ⟨c.toSettings, h.settings e.service c hc, ?_⟩
      rcases hchange.mem with hrecorded | hscanned
      · exact h.recorded e.service c hc e.path e.info hrecorded
      · exact fileList_visible hscanned

/-- A watcher with settings: the map that `NewWatcher` builds before the first listings. -/
def unlisted (cfgs : List (Bytes × Settings)) : Watcher := Fill.assign (cfgs.map fun c => (c.1, ⟨c.2, ∅⟩))

theorem lookup_unlisted (cfgs : List (Bytes × Settings)) (service : Bytes) :
    (unlisted cfgs).lookup service = ((Fill.assign cfgs).lookup service).map fun c => ⟨c, ∅⟩ :=
  Fill.lookup_assign_map (fun c => (⟨c, ∅⟩ : WatcherConfig)) cfgs service

theorem newWatcher_ok {cwd : Option Path} {disks : Bytes → Disk} {order : List Bytes} {cfgs : List (Bytes × Settings)}
    (horder : Orders.Lists order (unlisted cfgs).keys) {w : Watcher} (h : newWatcher cwd disks order cfgs = .ok w)
    (service : Bytes) :
    w.lookup service = ((Fill.assign cfgs).lookup service).map fun c => listedFirst cwd disks service ⟨c, ∅⟩ := by
  rw [initFs_ok horder.1 h]
  split
  · rw [← unlisted, lookup_unlisted, Option.map_map]
    rfl
  case isFalse hnot =>
    have hnone := Fill.lookup_of_not_mem_order horder hnot
    rw [lookup_unlisted, Option.map_eq_none_iff] at hnone
    rw [← unlisted, lookup_unlisted, hnone]
    rfl

/-- The state after a run: a watcher is built with first listings, and then ticks. -/
def Reaches (cwd : Option Path) (cfgs : List (Bytes × Settings)) (s : State) : Prop :=
  ∃ disks order w ticks, Orders.Lists order (unlisted cfgs).keys ∧ newWatcher cwd disks order cfgs = .ok w ∧
    Run.Along (advance cwd) (fun s t => t.Valid cwd s.watcher) ⟨w, []⟩ ticks ∧
    s = Run.exec (advance cwd) ⟨w, []⟩ ticks

theorem Reaches.inv {cwd : Option Path} {cfgs : List (Bytes × Settings)} {s : State} (h : Reaches cwd cfgs s) :
    Inv cwd (fun service => (Fill.assign cfgs).lookup service) s := by
  obtain ⟨disks, order, w, ticks, horder, hw, halong, rfl⟩ := h
  refine Run.Along.invariant (fun s t hs ht => hs.advance ht) ?_ halong
  have hlookup := newWatcher_ok horder hw
  refine ⟨fun service c hc => ?_, fun service c hc key info hkey => ?_, List.forall_mem_nil _⟩
  · rw [hlookup] at hc
    obtain ⟨d, hd, rfl⟩ := Option.map_eq_some_iff.mp hc
    exact hd
  · rw [hlookup] at hc
    obtain ⟨d, hd, rfl⟩ := Option.map_eq_some_iff.mp hc
    exact fileList_visible hkey

/-! ## Runs that report a change -/

theorem exists_valid_orders (service : Bytes) (recorded scan : FileMap) :
    ∃ o : PollOrders, o.Valid service recorded scan := by
  obtain ⟨recordedOrder, hrecorded⟩ := Orders.exists_lists recorded.keys
  obtain ⟨scanned, hscanned⟩ := Orders.exists_lists scan.keys
  obtain ⟨creates, hcreates⟩ := Orders.exists_lists (compared service recorded scan scanned).creates.keys
  obtain ⟨removes, hremoves⟩ := Orders.exists_lists (removesOf recorded scan recordedOrder).keys
  exact ⟨⟨recordedOrder, scanned, creates, removes⟩, hrecorded, hscanned, hcreates, hremoves⟩

/-- If the first listing finds one disk and the next one another, the changes are reported. -/
theorem exists_report {cwd : Option Path} {cfgs : List (Bytes × Settings)} {service : Bytes} {c : Settings}
    (hc : (Fill.assign cfgs).lookup service = some c) (disk disk' : Disk)
    (hok : ∀ c', ∃ files, retrieveFileList cwd disk c' = .ok files) {key : Bytes} {info : FileInfo}
    (hchange : Change (fileList cwd disk c) (fileList cwd disk' c) key info) :
    ∃ s, Reaches cwd cfgs s ∧ ⟨key, info, service⟩ ∈ s.events := by
  obtain ⟨order, horder⟩ := Orders.exists_lists (unlisted cfgs).keys
  obtain ⟨w, hw⟩ : ∃ w, newWatcher cwd (fun _ => disk) order cfgs = .ok w :=
    exists_initFs order fun _ c' _ => hok c'.toSettings
  have hservice : w.lookup service = some (listedFirst cwd (fun _ => disk) service ⟨c, ∅⟩) := by
    rw [newWatcher_ok horder hw, hc]
    rfl
  -- some orders for each service
  have horders : ∀ s, ∃ o : PollOrders, ∀ c', w.lookup s = some c' →
      o.Valid s c'.files (fileList cwd disk' c'.toSettings) := by
    intro s
    cases hs : w.lookup s with
    | none => exact ⟨⟨[], [], [], []⟩, fun c' h => by cases h⟩
    | some c' =>
      obtain ⟨o, ho⟩ := exists_valid_orders s c'.files (fileList cwd disk' c'.toSettings)
      refine ⟨o, fun d hd => ?_⟩
      cases hd
      exact ho
  choose orders hvalid using horders
  obtain ⟨services, hservices⟩ := Orders.exists_lists w.keys
  have ht : Tick.Valid cwd w ⟨services, fun s => ⟨disk', orders s⟩⟩ := ⟨hservices, hvalid⟩
  refine ⟨_, ⟨fun _ => disk, order, w, [⟨services, fun s => ⟨disk', orders s⟩⟩], horder, hw, ⟨ht, trivial⟩, rfl⟩, ?_⟩
  exact List.mem_append_right [] ((mem_tick ht).mpr ⟨_, hservice, hchange⟩)

end RoadRunner.Reload
