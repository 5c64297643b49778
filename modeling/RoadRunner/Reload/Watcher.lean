import RoadRunner.Reload.Poll
import RoadRunner.Lib.Cut

/-!
# The file watcher

The model of the other functions of `reload/watcher.go`: how the directories of a service are listed, and what a tick
of the watcher does for all services.

* `Node`: what a scan finds at a path. `walk` is `filepath.Walk` with the function of `retrieveFilesRecursive`.
* `failed_scan_silent_iff`: after which failed scans nothing is reported.
-/

namespace RoadRunner.Reload

/-! ## Paths -/

/-- The text of a path. -/
def Path.text (p : Path) : Bytes := 47 :: [47].intercalate (p.map Subtype.val)

/-- `filepath.Base`, which is the name in the `os.FileInfo` of the path. -/
def Path.base (p : Path) : Bytes := (p.getLast?.map Subtype.val).getD [47]

/-- One part of a path that is made clean. -/
def enter (p : Path) (part : Bytes) : Path :=
  if h : part ≠ [] ∧ 47 ∉ part ∧ part ≠ ascii "." ∧ part ≠ ascii ".." then p ++ [⟨part, h⟩]
  else if part = ascii ".." then p.dropLast
  else p

/-- `filepath.Abs`, with the working directory if there is one. -/
def abs (cwd : Option Path) (dir : Bytes) : Option Path :=
  if dir.head? = some 47 then some ((dir.splitOn 47).foldl enter [])
  else cwd.map fun wd => (dir.splitOn 47).foldl enter wd

/-! ## What a scan finds -/

/-- The time of modification of a file, and the bits of its mode. -/
structure Stat where
  modTime : Int
  bits : UInt32
  deriving DecidableEq

mutual

/-- What a scan finds at a path. -/
inductive Node where
  /-- The file does not exist, or no longer. -/
  | gone
  /-- Another error of `stat`. -/
  | failing
  /-- Not a directory. -/
  | file (stat : Stat)
  /-- A directory that cannot be listed. -/
  | unreadable (stat : Stat)
  | dir (stat : Stat) (entries : Entries)

/-- The files of a directory. -/
inductive Entries where
  | nil
  | cons (name : FileName) (node : Node) (rest : Entries)

end

/-- `os.Stat` and `os.Lstat`. -/
def Node.info (p : Path) : Node → Option FileInfo
  | gone => none
  | failing => none
  | file stat => some ⟨p, stat.modTime, ⟨false, stat.bits⟩⟩
  | unreadable stat => some ⟨p, stat.modTime, ⟨true, stat.bits⟩⟩
  | dir stat _ => some ⟨p, stat.modTime, ⟨true, stat.bits⟩⟩

/-- The file cannot be read. -/
def Node.isFailing : Node → Bool
  | failing => true
  | _ => false

/-- The directories are scanned one after another while files may change, so nothing is assumed between what is found
at different paths. -/
abbrev Disk := Path → Node

/-! ## Listings -/

/-- `WatcherConfig` without `Files`. The hook of the plugin is `skips`, and the name of the service is the key under
which the watcher has it. -/
structure Settings where
  recursive : Bool
  directories : List Bytes
  ignored : List Bytes
  filePatterns : Option (List Bytes)
  deriving DecidableEq

/-- `WatcherConfig`. -/
structure WatcherConfig extends Settings where
  files : FileMap

/-- `ConvertIgnored`. -/
def convertIgnored (cwd : Option Path) (ignored : List Bytes) : Option (List Bytes) :=
  (ignored.mapM (abs cwd)).map fun paths => paths.map Path.text

/-- `FilterHooks` returns `errors.SkipFile`: no pattern is in the name. -/
def skips (patterns : Option (List Bytes)) (name : Bytes) : Bool :=
  !(patterns.getD []).any fun pattern => pattern <:+: name

/-- The entries of a `fileList`, in the order in which they are set. -/
abbrev Records := List (Bytes × FileInfo)

/-- An error of a walk. -/
inductive Stop where
  | skipDir
  | failed (err : Err)

/-- The function that `filepath.Walk` calls for a file without an error. -/
def visit (c : Settings) (path : Path) (info : FileInfo) : Except Stop Records :=
  if path.text ∈ c.ignored then if info.isDir then .error .skipDir else .ok []
  else if skips c.filePatterns path.base then .ok []
  else .ok [(path.text, info)]

/-- The same for a file with an error. -/
def visitError (call : String) : Except Stop Records :=
  .error (.failed (.op "retrieve files recursive" (.lib call)))

mutual

/-- `filepath.Walk`. The error of a listing is passed to the function before it looks at the path. -/
def walk (c : Settings) (path : Path) : Node → Except Stop Records
  | .gone => visitError "lstat"
  | .failing => visitError "lstat"
  | .file stat => visit c path ⟨path, stat.modTime, ⟨false, stat.bits⟩⟩
  | .unreadable _ => visitError "readDirNames"
  | .dir stat entries =>
    match visit c path ⟨path, stat.modTime, ⟨true, stat.bits⟩⟩ with
    | .error e => .error e
    | .ok here =>
      match walkEntries c path entries with
      | .error e => .error e
      | .ok below => .ok (here ++ below)

/-- The files of a directory. `visit` skips directories only. -/
def walkEntries (c : Settings) (path : Path) : Entries → Except Stop Records
  | .nil => .ok []
  | .cons name node rest =>
    match walk c (path ++ [name]) node with
    | .error .skipDir => walkEntries c path rest
    | .error (.failed e) => .error (.failed e)
    | .ok here =>
      match walkEntries c path rest with
      | .error e => .error e
      | .ok below => .ok (here ++ below)

end

/-- `retrieveFilesRecursive`. -/
def retrieveFilesRecursive (c : Settings) (root : Path) (node : Node) : Except Err FileMap :=
  match walk c root node with
  | .ok records => .ok (Fill.assign records)
  | .error .skipDir => .ok ∅
  | .error (.failed e) => .error e

/-- `ioutil.ReadDir`. A file that is gone after the names were read is left out. -/
def readDir (path : Path) : Entries → Except Err (List (FileName × FileInfo))
  | .nil => .ok []
  | .cons name node rest =>
    if node.isFailing then .error (.lib "lstat")
    else
      match readDir path rest with
      | .error e => .error e
      | .ok infos => .ok (((node.info (path ++ [name])).map fun info => (name, info)).toList ++ infos)

/-- The loop of `retrieveFilesSingle` records a file. -/
def records (c : Settings) (path : Path) (name : FileName) : Bool :=
  path.text ∉ c.ignored && !(c.filePatterns.isSome && skips c.filePatterns name.val)

/-- `retrieveFilesSingle`. -/
def retrieveFilesSingle (c : Settings) (path : Path) : Node → Except Err FileMap
  | .gone => .error (.lib "stat")
  | .failing => .error (.lib "stat")
  | .file stat => .ok (Fill.assign [(path.text, ⟨path, stat.modTime, ⟨false, stat.bits⟩⟩)])
  | .unreadable _ => .error (.lib "readdir")
  | .dir stat entries =>
    match readDir path entries with
    | .error e => .error e
    | .ok infos =>
      .ok (Fill.assign ((path.text, ⟨path, stat.modTime, ⟨true, stat.bits⟩⟩) ::
        (infos.filter fun i => records c path i.1).map fun i => (i.1.val, i.2)))

/-- The listing of one directory. -/
def retrieve (c : Settings) (path : Path) (node : Node) : Except Err FileMap :=
  if c.recursive then retrieveFilesRecursive c path node else retrieveFilesSingle c path node

/-- The loops of `retrieveFileList`. -/
def retrieveAll (cwd : Option Path) (disk : Disk) (c : Settings) : List Bytes → FileMap → Except Err FileMap
  | [], fileList => .ok fileList
  | dir :: directories, fileList =>
    match abs cwd dir with
    | none => .error (.lib "abs")
    | some fullPath =>
      match retrieve c fullPath (disk fullPath) with
      | .error e => .error e
      | .ok list => retrieveAll cwd disk c directories (list ∪ fileList)

/-- `retrieveFileList`. -/
def retrieveFileList (cwd : Option Path) (disk : Disk) (c : Settings) : Except Err FileMap :=
  retrieveAll cwd disk c c.directories ∅

/-- One directory in the loops of `retrieveFileList`. -/
theorem retrieveAll_cons {cwd : Option Path} {disk : Disk} {c : Settings} {dir : Bytes} {directories : List Bytes}
    {acc scan : FileMap} :
    retrieveAll cwd disk c (dir :: directories) acc = .ok scan ↔
      ∃ root list, abs cwd dir = some root ∧ retrieve c root (disk root) = .ok list ∧
        retrieveAll cwd disk c directories (list ∪ acc) = .ok scan := by
  rw [retrieveAll]
  constructor
  · intro h
    split at h
    · cases h
    case h_2 root hroot =>
      split at h
      · cases h
      case h_2 list hlist => exact ⟨root, list, hroot, hlist, h⟩
  · rintro ⟨root, list, hroot, hlist, h⟩
    rw [hroot]
    dsimp only
    rw [hlist]
    exact h

/-! ## The watcher -/

/-- `watcherConfigs`. -/
abbrev Watcher := Fill.Map Bytes WatcherConfig

/-- `initFs`, with the order in which the services are visited. -/
def initFs (cwd : Option Path) (disks : Bytes → Disk) : List Bytes → Watcher → Except Err Watcher
  | [], w => .ok w
  | service :: order, w =>
    match w.lookup service with
    | none => initFs cwd disks order w
    | some c =>
      match retrieveFileList cwd (disks service) c.toSettings with
      | .error e => .error (.op "watcher_init_fs" e)
      | .ok files => initFs cwd disks order (w.insert service { c with files })

/-- `NewWatcher`: the services by their names. -/
def newWatcher (cwd : Option Path) (disks : Bytes → Disk) (order : List Bytes) (configs : List (Bytes × Settings)) :
    Except Err Watcher :=
  initFs cwd disks order (Fill.assign (configs.map fun c => (c.1, ⟨c.2, ∅⟩)))

/-- What a tick finds for a service, and the orders of its loops. -/
structure Sight where
  disk : Disk
  orders : PollOrders

/-- A tick: what each service sees, and in which order they are visited. -/
structure Tick where
  order : List Bytes
  sights : Bytes → Sight

/-- What `waitEvent` passes to `pollEvents`: the error is dropped, and the listing is nil then. -/
def fileList (cwd : Option Path) (disk : Disk) (c : Settings) : FileMap :=
  match retrieveFileList cwd disk c with
  | .ok files => files
  | .error _ => ∅

/-- One service at a tick. -/
def tickService (cwd : Option Path) (sights : Bytes → Sight) (s : Watcher × List Event) (service : Bytes) :
    Watcher × List Event :=
  match s.1.lookup service with
  | none => s
  | some c =>
    let out := pollEvents service (sights service).orders c.files (fileList cwd (sights service).disk c.toSettings)
    (s.1.insert service { c with files := out.1 }, s.2 ++ out.2)

/-- One turn of the loop of `waitEvent`. -/
def tick (cwd : Option Path) (w : Watcher) (t : Tick) : Watcher × List Event :=
  t.order.foldl (tickService cwd t.sights) (w, [])

/-- The orders of the tick are orders of the maps. -/
structure Tick.Valid (cwd : Option Path) (w : Watcher) (t : Tick) : Prop where
  order : Orders.Lists t.order w.keys
  polls : ∀ service c, w.lookup service = some c →
    (t.sights service).orders.Valid service c.files (fileList cwd (t.sights service).disk c.toSettings)

section

variable {cwd : Option Path} {w : Watcher} {t : Tick}

/-- The record of a service after a tick. -/
def polled (cwd : Option Path) (t : Tick) (service : Bytes) (c : WatcherConfig) : WatcherConfig :=
  { c with
    files := (pollEvents service (t.sights service).orders c.files
      (fileList cwd (t.sights service).disk c.toSettings)).1 }

/-- A tick goes through the services one by one. -/
theorem tick_spec (ht : t.Valid cwd w) :
    (∀ service, (tick cwd w t).1.lookup service = (w.lookup service).map (polled cwd t service)) ∧
      (tick cwd w t).2 = t.order.flatMap fun service => (w.lookup service).elim [] fun c =>
        (pollEvents service (t.sights service).orders c.files
          (fileList cwd (t.sights service).disk c.toSettings)).2 := by
  have hfold := Fill.foldl_modify (polled cwd t)
    (fun service c => (pollEvents service (t.sights service).orders c.files
      (fileList cwd (t.sights service).disk c.toSettings)).2)
    ht.order.1 (tickService cwd t.sights)
    (fun s k v hv => by rw [tickService, hv]; rfl) (fun s k hk => by rw [tickService, hk]) w []
  refine ⟨fun service => ?_, hfold.2.trans (List.nil_append _)⟩
  rw [tick, hfold.1]
  split
  · rfl
  case isFalse h =>
    rw [Fill.lookup_of_not_mem_order ht.order h]
    rfl

/-- The events of a tick are the changes of the services. -/
theorem mem_tick (ht : t.Valid cwd w) {e : Event} :
    e ∈ (tick cwd w t).2 ↔ ∃ c, w.lookup e.service = some c ∧
      Change c.files (fileList cwd (t.sights e.service).disk c.toSettings) e.path e.info := by
  rw [(tick_spec ht).2, List.mem_flatMap]
  constructor
  · rintro ⟨service, -, he⟩
    cases hc : w.lookup service with
    | none =>
      rw [hc] at he
      cases he
    | some c =>
      rw [hc, Option.elim_some, mem_pollEvents (ht.polls service c hc)] at he
      obtain ⟨rfl, hchange⟩ := he
      exact ⟨c, hc, hchange⟩
  · rintro ⟨c, hc, hchange⟩
    refine ⟨e.service, (Fill.mem_order ht.order).mpr (by rw [hc]; exact Option.some_ne_none c), ?_⟩
    rw [hc, Option.elim_some, mem_pollEvents (ht.polls e.service c hc)]
    exact ⟨rfl, hchange⟩

end

/-! ## One service with one directory -/

/-- A watcher with one service. -/
def single (service : Bytes) (c : WatcherConfig) : Watcher := Fill.assign [(service, c)]

theorem lookup_single {service s : Bytes} {c d : WatcherConfig} (h : (single service c).lookup s = some d) :
    s = service ∧ d = c := by
  rw [single, Fill.lookup_assign, Fill.last_cons, Fill.last_nil, Option.none_or] at h
  split at h
  case isTrue hs => exact ⟨hs.symm, (Option.some.inj h).symm⟩
  · cases h

theorem valid_single {cwd : Option Path} {t : Tick} {service : Bytes} {c : WatcherConfig} (horder : t.order = [service])
    (hpoll : (t.sights service).orders.Valid service c.files (fileList cwd (t.sights service).disk c.toSettings)) :
    t.Valid cwd (single service c) where
  order := by
    rw [horder]
    exact ⟨List.nodup_singleton service, rfl⟩
  polls s d h := by
    obtain ⟨rfl, rfl⟩ := lookup_single h
    exact hpoll

/-- The service of the examples. -/
def http : Bytes := ascii "http"

/-- The file of the examples. -/
def watchedFile : FileName := ⟨ascii "a.php", by decide⟩

/-- The directory of the examples. -/
def watchedDir : Path := [⟨ascii "w", by decide⟩]

/-- A service with one directory. -/
def oneDirectory : Settings := ⟨false, [ascii "/w"], [], some [ascii ".php"]⟩

/-- The directory with one file. -/
def oneFile : Node := .dir ⟨0, 493⟩ (.cons watchedFile (.file ⟨1, 420⟩) .nil)

/-- The listing of the directory. -/
def oneFileList : FileMap :=
  Fill.assign
    [(ascii "/w", ⟨watchedDir, 0, ⟨true, 493⟩⟩), (ascii "a.php", ⟨watchedDir ++ [watchedFile], 1, ⟨false, 420⟩⟩)]

/-- The directory is not found. -/
def failedTick : Tick :=
  ⟨[http], fun _ => ⟨fun _ => .gone, [ascii "/w", ascii "a.php"], [], [], [ascii "a.php", ascii "/w"]⟩⟩

/-- The directory is found as it was. -/
def nextTick : Tick := ⟨[http], fun _ => ⟨fun _ => oneFile, [], [ascii "a.php", ascii "/w"], [ascii "a.php"], []⟩⟩

/-! ## Failed scans -/

section

variable {cwd : Option Path} {w : Watcher} {t : Tick}

/-- No event of the service. -/
def SilentFor (service : Bytes) (events : List Event) : Prop := ∀ e ∈ events, e.service ≠ service

theorem silentFor_tick_iff (ht : t.Valid cwd w) {service : Bytes} {c : WatcherConfig}
    (hc : w.lookup service = some c) :
    SilentFor service (tick cwd w t).2 ↔
      Unchanged c.files (fileList cwd (t.sights service).disk c.toSettings) := by
  constructor
  · intro hsilent pth info hchange
    exact hsilent ⟨pth, info, service⟩ ((mem_tick ht).mpr ⟨c, hc, hchange⟩) rfl
  · rintro hunchanged e he rfl
    obtain ⟨c', hc', hchange⟩ := (mem_tick ht).mp he
    obtain rfl := Option.some.inj (hc.symm.trans hc')
    exact hunchanged e.path e.info hchange

theorem unchanged_empty_iff {recorded : FileMap} : Unchanged recorded ∅ ↔ recorded = ∅ := by
  constructor
  · intro h
    refine Finmap.ext_lookup fun pth => ?_
    rw [Finmap.lookup_empty]
    cases hp : recorded.lookup pth with
    | none => rfl
    | some info => exact absurd (.removed hp (Finmap.lookup_empty pth)) (h pth info)
  · rintro rfl pth info hchange
    cases hchange with
    | removed old gone => cases old
    | created new file old => cases new
    | updated new file old differs => cases new

/-- **Failed scans.** For every watcher and every tick in which the scan of a service fails: the service has no event,
its record stays as it is, and there is no event after the next scan if that finds what was recorded, exactly if
nothing was recorded. -/
theorem failed_scan_silent_iff (ht : t.Valid cwd w) (service : Bytes) (c : WatcherConfig)
    (hc : w.lookup service = some c)
    (hfail : ∃ e, retrieveFileList cwd (t.sights service).disk c.toSettings = .error e) :
    (SilentFor service (tick cwd w t).2 ∧ (tick cwd w t).1.lookup service = some c ∧
        ∀ t' : Tick, t'.Valid cwd (tick cwd w t).1 →
          ∀ scan, retrieveFileList cwd (t'.sights service).disk c.toSettings = .ok scan → Unchanged c.files scan →
            SilentFor service (tick cwd (tick cwd w t).1 t').2) ↔
      c.files = ∅ := by
  have hlist : fileList cwd (t.sights service).disk c.toSettings = ∅ := by
    obtain ⟨e, he⟩ := hfail
    rw [fileList, he]
  have hsilent := silentFor_tick_iff ht hc
  rw [hlist, unchanged_empty_iff] at hsilent
  constructor
  · rintro ⟨h, -⟩
    exact hsilent.mp h
  · intro hempty
    have hsame : (tick cwd w t).1.lookup service = some c := by
      rw [(tick_spec ht).1, hc, Option.map_some, polled, hlist]
      have hfiles : (pollEvents service (t.sights service).orders c.files ∅).1 = c.files := by
        rw [hempty]
        refine Finmap.ext_lookup fun pth => ?_
        have hvalid := ht.polls service c hc
        rw [hlist, hempty] at hvalid
        rw [lookup_of_gone hvalid (Finmap.lookup_empty pth), Finmap.lookup_empty]
      rw [hfiles]
    refine ⟨hsilent.mpr hempty, hsame, ?_⟩
    intro t' ht' scan hscan hunchanged
    rw [silentFor_tick_iff ht' hsame, fileList, hscan]
    exact hunchanged

end

/-- Nothing is recorded, and the directory is not found. -/
theorem failed_scan_of_empty :
    let w := single http ⟨oneDirectory, ∅⟩
    let t : Tick := ⟨[http], fun _ => ⟨fun _ => .gone, [], [], [], []⟩⟩
    t.Valid none w ∧ SilentFor http (tick none w t).2 ∧ (tick none w t).1.lookup http = some ⟨oneDirectory, ∅⟩ := by
  intro w t
  have ht : t.Valid none w := valid_single rfl ⟨by decide, by decide, by decide, by decide⟩
  have h := (failed_scan_silent_iff ht http ⟨oneDirectory, ∅⟩ rfl ⟨.lib "stat", rfl⟩).mpr rfl
  exact ⟨ht, h.1, h.2.1⟩

/-- The directory is missing for one tick: all that was recorded is reported as removed, and then the file as
created. -/
theorem failed_scan_reported :
    let w := single http ⟨oneDirectory, oneFileList⟩
    newWatcher none (fun _ _ => oneFile) [http] [(http, oneDirectory)] = .ok w ∧ failedTick.Valid none w ∧
      retrieveFileList none (failedTick.sights http).disk oneDirectory = .error (.lib "stat") ∧
      (tick none w failedTick).2.map Event.path = [ascii "a.php", ascii "/w"] ∧
      nextTick.Valid none (tick none w failedTick).1 ∧ (nextTick.sights http).disk watchedDir = oneFile ∧
      (tick none (tick none w failedTick).1 nextTick).2.map Event.path = [ascii "a.php"] := by
  intro w
  refine ⟨rfl, valid_single rfl ⟨by decide, by decide, by decide, by decide⟩, rfl, by decide, ?_, rfl, by decide⟩
  have hafter : (tick none w failedTick).1 = single http ⟨oneDirectory, ∅⟩ := rfl
  rw [hafter]
  exact valid_single rfl ⟨by decide, by decide, by decide, by decide⟩

end RoadRunner.Reload
