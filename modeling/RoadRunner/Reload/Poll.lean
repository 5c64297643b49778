import RoadRunner.Basic
import RoadRunner.Lib.Orders
import RoadRunner.Lib.Fill

/-!
# Comparing two listings

The model of `pollEvents` of `reload/watcher.go`, which compares the recorded files of a service with a new listing,
brings the record up to date and emits an event for each difference. The order in which Go visits the entries of a map
is any order of its keys.

* `pollEvents_exact`: the events are the changes, and a second comparison finds none.
-/

namespace RoadRunner.Reload

/-! ## Files -/

/-- A name in a directory. -/
abbrev FileName := { n : Bytes // n ≠ [] ∧ 47 ∉ n ∧ n ≠ ascii "." ∧ n ≠ ascii ".." }

/-- An absolute path that is clean: the names from the root. -/
abbrev Path := List FileName

/-- `os.FileMode`: the bit of directories, and the other ones. -/
structure Mode where
  dir : Bool
  bits : UInt32
  deriving DecidableEq

/-- `os.FileInfo`. The path of the file is not part of it and not read by the watcher; it says which file is
described. -/
structure FileInfo where
  file : Path
  modTime : Int
  mode : Mode
  deriving DecidableEq

/-- `FileInfo.IsDir`. -/
def FileInfo.isDir (i : FileInfo) : Bool := i.mode.dir

/-- `map[string]os.FileInfo`. -/
abbrev FileMap := Fill.Map Bytes FileInfo

/-- `Event`. -/
structure Event where
  path : Bytes
  info : FileInfo
  service : Bytes
  deriving DecidableEq

/-! ## The comparison -/

/-- The orders in which the four loops visit their maps. -/
structure PollOrders where
  recorded : List Bytes
  scanned : List Bytes
  creates : List Bytes
  removes : List Bytes

/-- The state of the second loop: the recorded files, those to be added, and the events so far. -/
structure Poll where
  files : FileMap
  creates : FileMap
  events : List Event

/-- The first loop: a recorded path that is not in the listing. -/
def noteRemoved (recorded scan : FileMap) (removes : FileMap) (pth : Bytes) : FileMap :=
  if scan.lookup pth = none then Fill.put removes pth (recorded.lookup pth) else removes

/-- The modification time or the mode has changed. -/
def Differs (old new : FileInfo) : Prop := old.modTime ≠ new.modTime ∨ old.mode ≠ new.mode

instance (old new : FileInfo) : Decidable (Differs old new) := inferInstanceAs (Decidable (_ ∨ _))

/-- The second loop: a path of the listing. -/
def compare (service : Bytes) (scan : FileMap) (s : Poll) (pth : Bytes) : Poll :=
  match scan.lookup pth with
  | none => s
  | some info =>
    if info.isDir then s
    else
      match s.files.lookup pth with
      | none => { s with creates := s.creates.insert pth info }
      | some old =>
        if Differs old info then
          { s with files := s.files.insert pth info, events := s.events ++ [⟨pth, info, service⟩] }
        else s

/-- An event for a path of one of the two intermediate maps. -/
def event (service : Bytes) (m : FileMap) (pth : Bytes) : Option Event :=
  (m.lookup pth).map fun info => ⟨pth, info, service⟩

/-- The third loop. -/
def create (service : Bytes) (creates : FileMap) (s : FileMap × List Event) (pth : Bytes) : FileMap × List Event :=
  (Fill.put s.1 pth (creates.lookup pth), s.2 ++ (event service creates pth).toList)

/-- The last loop. -/
def remove (service : Bytes) (removes : FileMap) (s : FileMap × List Event) (pth : Bytes) : FileMap × List Event :=
  (s.1.erase pth, s.2 ++ (event service removes pth).toList)

/-- The paths to be removed, after the first loop. -/
def removesOf (recorded scan : FileMap) (order : List Bytes) : FileMap :=
  order.foldl (noteRemoved recorded scan) ∅

/-- The state after the second loop. -/
def compared (service : Bytes) (recorded scan : FileMap) (order : List Bytes) : Poll :=
  order.foldl (compare service scan) ⟨recorded, ∅, []⟩

/-- `pollEvents`: the recorded files and the events. -/
def pollEvents (service : Bytes) (o : PollOrders) (recorded scan : FileMap) : FileMap × List Event :=
  let removes := removesOf recorded scan o.recorded
  let s := compared service recorded scan o.scanned
  let s' := o.creates.foldl (create service s.creates) (s.files, s.events)
  o.removes.foldl (remove service removes) s'

/-- The orders are orders of the maps. -/
structure PollOrders.Valid (o : PollOrders) (service : Bytes) (recorded scan : FileMap) : Prop where
  of_recorded : Orders.Lists o.recorded recorded.keys
  of_scanned : Orders.Lists o.scanned scan.keys
  of_creates : Orders.Lists o.creates (compared service recorded scan o.scanned).creates.keys
  of_removes : Orders.Lists o.removes (removesOf recorded scan o.recorded).keys

/-! ## Changes -/

/-- A path that differs, with the file that is to be reported: the recorded one if it is gone, and the scanned one
otherwise. Directories of the listing are not compared. -/
inductive Change (recorded scan : FileMap) (pth : Bytes) (info : FileInfo) : Prop
  | removed (old : recorded.lookup pth = some info) (gone : scan.lookup pth = none)
  | created (new : scan.lookup pth = some info) (file : info.isDir = false) (old : recorded.lookup pth = none)
  | updated {before : FileInfo} (new : scan.lookup pth = some info) (file : info.isDir = false)
      (old : recorded.lookup pth = some before) (differs : Differs before info)

/-- The reported file was recorded or is listed. -/
theorem Change.mem {recorded scan : FileMap} {pth : Bytes} {info : FileInfo} (h : Change recorded scan pth info) :
    recorded.lookup pth = some info ∨ scan.lookup pth = some info := by
  cases h with
  | removed old gone => exact .inl old
  | created new file old => exact .inr new
  | updated new file old differs => exact .inr new

/-- Only what the maps have under the path counts. -/
theorem Change.congr {recorded recorded' scan scan' : FileMap} {pth : Bytes} {info : FileInfo}
    (h : Change recorded scan pth info) (hrecorded : recorded'.lookup pth = recorded.lookup pth)
    (hscan : scan'.lookup pth = scan.lookup pth) : Change recorded' scan' pth info := by
  cases h with
  | removed old gone => exact .removed (hrecorded.trans old) (hscan.trans gone)
  | created new file old => exact .created (hscan.trans new) file (hrecorded.trans old)
  | updated new file old differs => exact .updated (hscan.trans new) file (hrecorded.trans old) differs

/-! What the loops find for a path. -/

section

variable (recorded scan : FileMap) (pth : Bytes)

/-- The file that was there, and is gone. -/
def removed : Option FileInfo := if scan.lookup pth = none then recorded.lookup pth else none

/-- The file that is new. -/
def created : Option FileInfo :=
  (scan.lookup pth).bind fun info =>
    if info.isDir then none else if recorded.lookup pth = none then some info else none

/-- The file that is not the recorded one. -/
def updated : Option FileInfo :=
  (scan.lookup pth).bind fun info =>
    if info.isDir then none
    else (recorded.lookup pth).bind fun old => if Differs old info then some info else none

end

section

variable {recorded scan : FileMap} {pth : Bytes} {info : FileInfo}

theorem removed_eq_some :
    removed recorded scan pth = some info ↔ recorded.lookup pth = some info ∧ scan.lookup pth = none := by
  unfold removed
  split
  case isTrue h => exact (and_iff_left h).symm
  case isFalse h => exact iff_of_false (by simp) fun hboth => h hboth.2

theorem created_eq_some :
    created recorded scan pth = some info ↔
      scan.lookup pth = some info ∧ info.isDir = false ∧ recorded.lookup pth = none := by
  unfold created
  rw [Option.bind_eq_some_iff]
  constructor
  · rintro ⟨new, hnew, heq⟩
    split at heq
    · cases heq
    case isFalse hdir =>
      split at heq
      case isTrue hold =>
        cases heq
        exact ⟨hnew, Bool.eq_false_iff.mpr hdir, hold⟩
      · cases heq
  · rintro ⟨hnew, hdir, hold⟩
    refine ⟨info, hnew, ?_⟩
    rw [if_neg (by simp [hdir]), if_pos hold]

theorem updated_eq_some :
    updated recorded scan pth = some info ↔
      scan.lookup pth = some info ∧ info.isDir = false ∧ ∃ old, recorded.lookup pth = some old ∧ Differs old info := by
  unfold updated
  rw [Option.bind_eq_some_iff]
  constructor
  · rintro ⟨new, hnew, heq⟩
    split at heq
    · cases heq
    case isFalse hdir =>
      obtain ⟨old, hold, heq⟩ := Option.bind_eq_some_iff.mp heq
      split at heq
      case isTrue hdiffers =>
        cases heq
        exact ⟨hnew, Bool.eq_false_iff.mpr hdir, old, hold, hdiffers⟩
      · cases heq
  · rintro ⟨hnew, hdir, old, hold, hdiffers⟩
    refine ⟨info, hnew, ?_⟩
    rw [if_neg (by simp [hdir]), hold, Option.bind_some, if_pos hdiffers]

theorem change_iff :
    Change recorded scan pth info ↔
      removed recorded scan pth = some info ∨ created recorded scan pth = some info ∨
        updated recorded scan pth = some info := by
  rw [removed_eq_some, created_eq_some, updated_eq_some]
  constructor
  · rintro (⟨old, gone⟩ | ⟨new, file, old⟩ | ⟨new, file, old, differs⟩)
    · exact .inl ⟨old, gone⟩
    · exact .inr (.inl ⟨new, file, old⟩)
    · exact .inr (.inr ⟨new, file, _, old, differs⟩)
  · rintro (⟨old, gone⟩ | ⟨new, file, old⟩ | ⟨new, file, before, old, differs⟩)
    · exact .removed old gone
    · exact .created new file old
    · exact .updated new file old differs

end

/-! ## The loops -/

/-- The event of a path for which something is found. -/
def found (service : Bytes) (f : Bytes → Option FileInfo) (pth : Bytes) : Option Event :=
  (f pth).map fun info => ⟨pth, info, service⟩

theorem noteRemoved_eq (recorded scan removes : FileMap) (pth : Bytes) :
    noteRemoved recorded scan removes pth = Fill.put removes pth (removed recorded scan pth) := by
  unfold noteRemoved removed
  split <;> rfl

/-- The step of the second loop, for a path that the loop has not visited. -/
theorem compare_eq {service : Bytes} {recorded scan : FileMap} {s : Poll} {pth : Bytes}
    (h : s.files.lookup pth = recorded.lookup pth) :
    compare service scan s pth =
      ⟨Fill.put s.files pth (updated recorded scan pth), Fill.put s.creates pth (created recorded scan pth),
        s.events ++ (found service (updated recorded scan) pth).toList⟩ := by
  unfold compare found updated created
  cases hscan : scan.lookup pth with
  | none => simp [Fill.put]
  | some info =>
    by_cases hdir : info.isDir = true
    · simp [Fill.put, hdir]
    · rw [h]
      cases hold : recorded.lookup pth with
      | none => simp [Fill.put, hdir]
      | some old =>
        by_cases hdiffers : Differs old info
        · simp [Fill.put, hdir, hdiffers]
        · simp [Fill.put, hdir, hdiffers]

/-- The second loop over paths that it has not visited. -/
theorem foldl_compare {service : Bytes} {recorded scan : FileMap} {order : List Bytes} (hnodup : order.Nodup) {s : Poll}
    (h : ∀ pth ∈ order, s.files.lookup pth = recorded.lookup pth) :
    order.foldl (compare service scan) s =
      ⟨order.foldl (fun m p => Fill.put m p (updated recorded scan p)) s.files,
        order.foldl (fun m p => Fill.put m p (created recorded scan p)) s.creates,
        s.events ++ order.filterMap (found service (updated recorded scan))⟩ := by
  induction order generalizing s with
  | nil => simp
  | cons pth order ih =>
    rw [List.nodup_cons] at hnodup
    rw [List.foldl_cons, compare_eq (h pth List.mem_cons_self), ih hnodup.2, List.filterMap_cons, List.append_assoc]
    · cases found service (updated recorded scan) pth <;> rfl
    · -- the paths that are left are other ones
      intro p hp
      have hne : p ≠ pth := ne_of_mem_of_not_mem hp hnodup.1
      rw [Fill.lookup_put, if_neg hne]
      exact h p (List.mem_cons_of_mem pth hp)

section

variable {service : Bytes} {recorded scan : FileMap} {order : List Bytes}

theorem lookup_removesOf (ho : Orders.Lists order recorded.keys) (pth : Bytes) :
    (removesOf recorded scan order).lookup pth = removed recorded scan pth := by
  rw [removesOf, funext₂ (noteRemoved_eq recorded scan), Fill.lookup_foldl_put, Finmap.lookup_empty, Option.or_none]
  split
  · rfl
  case isFalse h => rw [removed, Fill.lookup_of_not_mem_order ho h, ite_self]

theorem compared_eq (ho : Orders.Lists order scan.keys) :
    compared service recorded scan order =
      ⟨order.foldl (fun m p => Fill.put m p (updated recorded scan p)) recorded,
        order.foldl (fun m p => Fill.put m p (created recorded scan p)) ∅,
        order.filterMap (found service (updated recorded scan))⟩ :=
  foldl_compare ho.1 fun _ _ => rfl

/-- A path that is not in the listing is not found by the second loop. -/
theorem not_found_of_not_mem (ho : Orders.Lists order scan.keys) {pth : Bytes} (h : pth ∉ order) :
    created recorded scan pth = none ∧ updated recorded scan pth = none := by
  rw [created, updated, Fill.lookup_of_not_mem_order ho h]
  exact ⟨rfl, rfl⟩

theorem lookup_creates (ho : Orders.Lists order scan.keys) (pth : Bytes) :
    (compared service recorded scan order).creates.lookup pth = created recorded scan pth := by
  rw [compared_eq ho, Fill.lookup_foldl_put, Finmap.lookup_empty, Option.or_none]
  split
  · rfl
  case isFalse h => rw [(not_found_of_not_mem ho h).1]

theorem lookup_files (ho : Orders.Lists order scan.keys) (pth : Bytes) :
    (compared service recorded scan order).files.lookup pth =
      (updated recorded scan pth).or (recorded.lookup pth) := by
  rw [compared_eq ho, Fill.lookup_foldl_put]
  split
  · rfl
  case isFalse h => rw [(not_found_of_not_mem ho h).2, Option.none_or]

end

/-! ## The whole comparison -/

section

variable {service : Bytes} {recorded scan : FileMap} {o : PollOrders}

theorem pollEvents_eq (ho : o.Valid service recorded scan) :
    pollEvents service o recorded scan =
      (o.removes.foldl (fun m p => m.erase p)
          (o.creates.foldl (fun m p => Fill.put m p (created recorded scan p))
            (compared service recorded scan o.scanned).files),
        o.scanned.filterMap (found service (updated recorded scan)) ++
          o.creates.filterMap (found service (created recorded scan)) ++
          o.removes.filterMap (found service (removed recorded scan))) := by
  have hcreate : create service (compared service recorded scan o.scanned).creates =
      fun t p => (Fill.put t.1 p (created recorded scan p),
        t.2 ++ (found service (created recorded scan) p).toList) := by
    funext t p
    rw [create, event, lookup_creates ho.of_scanned]
    rfl
  have hremove : remove service (removesOf recorded scan o.recorded) =
      fun t p => (t.1.erase p, t.2 ++ (found service (removed recorded scan) p).toList) := by
    funext t p
    rw [remove, event, lookup_removesOf ho.of_recorded]
    rfl
  rw [pollEvents, hcreate, hremove,
    Fill.foldl_emit (fun m p => Fill.put m p (created recorded scan p)) (found service (created recorded scan)),
    Fill.foldl_emit (fun m p => Finmap.erase p m) (found service (removed recorded scan)), compared_eq ho.of_scanned]

theorem mem_creates (ho : o.Valid service recorded scan) {pth : Bytes} :
    pth ∈ o.creates ↔ created recorded scan pth ≠ none := by
  rw [Fill.mem_order ho.of_creates, lookup_creates ho.of_scanned]

theorem mem_removes (ho : o.Valid service recorded scan) {pth : Bytes} :
    pth ∈ o.removes ↔ removed recorded scan pth ≠ none := by
  rw [Fill.mem_order ho.of_removes, lookup_removesOf ho.of_recorded]

/-- The record afterwards. -/
theorem lookup_pollEvents (ho : o.Valid service recorded scan) (pth : Bytes) :
    (pollEvents service o recorded scan).1.lookup pth =
      if removed recorded scan pth = none then
        (created recorded scan pth).or ((updated recorded scan pth).or (recorded.lookup pth))
      else none := by
  rw [pollEvents_eq ho, Fill.lookup_foldl_erase, Fill.lookup_foldl_put, lookup_files ho.of_scanned]
  by_cases hremoved : removed recorded scan pth = none
  · rw [if_neg fun hmem => mem_removes ho |>.mp hmem hremoved, if_pos hremoved]
    by_cases hcreated : created recorded scan pth = none
    · rw [hcreated, Option.none_or, ite_self]
    · rw [if_pos ((mem_creates ho).mpr hcreated)]
  · rw [if_pos ((mem_removes ho).mpr hremoved), if_neg hremoved]

/-- The record has what it had or what was scanned. -/
theorem lookup_pollEvents_mem (ho : o.Valid service recorded scan) {pth : Bytes} {info : FileInfo}
    (h : (pollEvents service o recorded scan).1.lookup pth = some info) :
    recorded.lookup pth = some info ∨ scan.lookup pth = some info := by
  rw [lookup_pollEvents ho] at h
  split at h
  · rcases Option.or_eq_some_iff.mp h with hcreated | ⟨-, h⟩
    · exact .inr (created_eq_some.mp hcreated).1
    rcases Option.or_eq_some_iff.mp h with hupdated | ⟨-, hold⟩
    · exact .inr (updated_eq_some.mp hupdated).1
    · exact .inl hold
  · cases h

theorem mem_filterMap_found {f : Bytes → Option FileInfo} {order : List Bytes} {e : Event} :
    e ∈ order.filterMap (found service f) ↔ e.path ∈ order ∧ e.service = service ∧ f e.path = some e.info := by
  rw [List.mem_filterMap]
  constructor
  · rintro ⟨pth, hmem, heq⟩
    obtain ⟨info, hinfo, rfl⟩ := Option.map_eq_some_iff.mp heq
    exact ⟨hmem, rfl, hinfo⟩
  · rintro ⟨hmem, rfl, hinfo⟩
    exact ⟨e.path, hmem, Option.map_eq_some_iff.mpr ⟨e.info, hinfo, rfl⟩⟩

theorem paths_filterMap_found (service : Bytes) (f : Bytes → Option FileInfo) (order : List Bytes) :
    (order.filterMap (found service f)).map Event.path = order.filter fun pth => (f pth).isSome := by
  induction order with
  | nil => rfl
  | cons pth order ih =>
    rw [List.filterMap_cons, List.filter_cons, ← ih, found]
    cases f pth <;> rfl

theorem mem_pollEvents (ho : o.Valid service recorded scan) {e : Event} :
    e ∈ (pollEvents service o recorded scan).2 ↔ e.service = service ∧ Change recorded scan e.path e.info := by
  have hscanned : updated recorded scan e.path = some e.info → e.path ∈ o.scanned := by
    intro h
    by_contra hnot
    rw [(not_found_of_not_mem ho.of_scanned hnot).2] at h
    cases h
  have hcreates : created recorded scan e.path = some e.info → e.path ∈ o.creates := by
    intro h
    rw [mem_creates ho, h]
    exact Option.some_ne_none _
  have hremoves : removed recorded scan e.path = some e.info → e.path ∈ o.removes := by
    intro h
    rw [mem_removes ho, h]
    exact Option.some_ne_none _
  rw [pollEvents_eq ho, change_iff, List.mem_append, List.mem_append, mem_filterMap_found, mem_filterMap_found,
    mem_filterMap_found]
  constructor
  · rintro ((⟨-, hservice, h⟩ | ⟨-, hservice, h⟩) | ⟨-, hservice, h⟩)
    · exact ⟨hservice, .inr (.inr h)⟩
    · exact ⟨hservice, .inr (.inl h)⟩
    · exact ⟨hservice, .inl h⟩
  · rintro ⟨hservice, h | h | h⟩
    · exact .inr ⟨hremoves h, hservice, h⟩
    · exact .inl (.inr ⟨hcreates h, hservice, h⟩)
    · exact .inl (.inl ⟨hscanned h, hservice, h⟩)

/-- No two of the loops find something for the same path. -/
theorem found_once {pth : Bytes} {i j : FileInfo} :
    ¬ (updated recorded scan pth = some i ∧ created recorded scan pth = some j) ∧
      ¬ (updated recorded scan pth = some i ∧ removed recorded scan pth = some j) ∧
      ¬ (created recorded scan pth = some i ∧ removed recorded scan pth = some j) := by
  rw [updated_eq_some, created_eq_some, created_eq_some, removed_eq_some]
  refine ⟨?_, ?_, ?_⟩
  · rintro ⟨⟨-, -, old, hold, -⟩, -, -, hnone⟩
    rw [hold] at hnone
    cases hnone
  · rintro ⟨⟨hnew, -⟩, -, hnone⟩
    rw [hnew] at hnone
    cases hnone
  · rintro ⟨⟨hnew, -⟩, -, hnone⟩
    rw [hnew] at hnone
    cases hnone

theorem nodup_pollEvents (ho : o.Valid service recorded scan) :
    ((pollEvents service o recorded scan).2.map Event.path).Nodup := by
  rw [pollEvents_eq ho, List.map_append, List.map_append, paths_filterMap_found, paths_filterMap_found,
    paths_filterMap_found, List.nodup_append', List.nodup_append']
  refine ⟨⟨ho.of_scanned.1.filter _, ho.of_creates.1.filter _, ?_⟩, ho.of_removes.1.filter _, ?_⟩
  · intro pth hupdated hcreated
    obtain ⟨i, hi⟩ := Option.isSome_iff_exists.mp (List.mem_filter.mp hupdated).2
    obtain ⟨j, hj⟩ := Option.isSome_iff_exists.mp (List.mem_filter.mp hcreated).2
    exact found_once.1 ⟨hi, hj⟩
  · intro pth hmem hremoved
    obtain ⟨j, hj⟩ := Option.isSome_iff_exists.mp (List.mem_filter.mp hremoved).2
    rcases List.mem_append.mp hmem with hupdated | hcreated
    · obtain ⟨i, hi⟩ := Option.isSome_iff_exists.mp (List.mem_filter.mp hupdated).2
      exact found_once.2.1 ⟨hi, hj⟩
    · obtain ⟨i, hi⟩ := Option.isSome_iff_exists.mp (List.mem_filter.mp hcreated).2
      exact found_once.2.2 ⟨hi, hj⟩

end

/-- Nothing differs. -/
def Unchanged (recorded scan : FileMap) : Prop := ∀ pth info, ¬ Change recorded scan pth info

theorem pollEvents_eq_nil_iff {service : Bytes} {recorded scan : FileMap} {o : PollOrders}
    (ho : o.Valid service recorded scan) : (pollEvents service o recorded scan).2 = [] ↔ Unchanged recorded scan := by
  rw [List.eq_nil_iff_forall_not_mem]
  constructor
  · intro h pth info hchange
    exact h ⟨pth, info, service⟩ ((mem_pollEvents ho).mpr ⟨rfl, hchange⟩)
  · intro h e he
    exact h e.path e.info ((mem_pollEvents ho).mp he).2

theorem differs_irrefl (info : FileInfo) : ¬ Differs info info := by
  rintro (h | h) <;> exact h rfl

/-- A file of the listing is recorded as it is there. -/
theorem lookup_of_scanned {service : Bytes} {recorded scan : FileMap} {o : PollOrders}
    (ho : o.Valid service recorded scan) {pth : Bytes} {info : FileInfo} (hnew : scan.lookup pth = some info)
    (hfile : info.isDir = false) :
    ∃ after, (pollEvents service o recorded scan).1.lookup pth = some after ∧ ¬ Differs after info := by
  have hremoved : removed recorded scan pth = none := if_neg (by rw [hnew]; exact Option.some_ne_none info)
  rw [lookup_pollEvents ho, if_pos hremoved]
  cases hold : recorded.lookup pth with
  | none =>
    rw [created_eq_some.mpr ⟨hnew, hfile, hold⟩]
    exact ⟨info, rfl, differs_irrefl info⟩
  | some old =>
    have hcreated : created recorded scan pth = none := by
      rw [created, hnew, Option.bind_some, if_neg (by simp [hfile]), if_neg (by simp [hold])]
    rw [hcreated, Option.none_or]
    by_cases hdiffers : Differs old info
    · rw [updated_eq_some.mpr ⟨hnew, hfile, old, hold, hdiffers⟩]
      exact ⟨info, rfl, differs_irrefl info⟩
    · have hupdated : updated recorded scan pth = none := by
        rw [updated, hnew, Option.bind_some, if_neg (by simp [hfile]), hold, Option.bind_some, if_neg hdiffers]
      rw [hupdated, Option.none_or]
      exact ⟨old, rfl, hdiffers⟩

/-- A path that is not in the listing is not recorded. -/
theorem lookup_of_gone {service : Bytes} {recorded scan : FileMap} {o : PollOrders}
    (ho : o.Valid service recorded scan) {pth : Bytes} (hgone : scan.lookup pth = none) :
    (pollEvents service o recorded scan).1.lookup pth = none := by
  have hremoved : removed recorded scan pth = recorded.lookup pth := if_pos hgone
  rw [lookup_pollEvents ho, hremoved, created, updated, hgone]
  split
  case isTrue hnone => exact hnone
  · rfl

/-- The record is brought up to date. -/
theorem unchanged_pollEvents {service : Bytes} {recorded scan : FileMap} {o : PollOrders}
    (ho : o.Valid service recorded scan) : Unchanged (pollEvents service o recorded scan).1 scan := by
  intro pth info hchange
  cases hchange with
  | removed old gone =>
    rw [lookup_of_gone ho gone] at old
    cases old
  | created new file old =>
    obtain ⟨after, hafter, -⟩ := lookup_of_scanned ho new file
    rw [hafter] at old
    cases old
  | updated new file old differs =>
    obtain ⟨after, hafter, hsame⟩ := lookup_of_scanned ho new file
    rw [hafter] at old
    cases old
    exact hsame differs

/-- **The exact difference.** For every record and every listing, whatever the orders: there is at most one event for a
path, there is one exactly for the changes, and a second comparison with the listing, in any orders, emits nothing. -/
theorem pollEvents_exact (service : Bytes) (recorded scan : FileMap) (o : PollOrders)
    (ho : o.Valid service recorded scan) :
    let out := pollEvents service o recorded scan
    (out.2.map Event.path).Nodup ∧
      (∀ e, e ∈ out.2 ↔ e.service = service ∧ Change recorded scan e.path e.info) ∧
      ∀ o' : PollOrders, o'.Valid service out.1 scan → (pollEvents service o' out.1 scan).2 = [] := by
  intro out
  refine ⟨nodup_pollEvents ho, fun e => mem_pollEvents ho, ?_⟩
  intro o' ho'
  exact (pollEvents_eq_nil_iff ho').mpr (unchanged_pollEvents ho)

/-- A file that is not a directory. -/
def plainFile (file : Path) (modTime : Int) : FileInfo := ⟨file, modTime, ⟨false, 420⟩⟩

/-- One path is removed, one is changed and one is created. -/
theorem pollEvents_three_changes :
    let recorded : FileMap := Fill.assign [(ascii "/a", plainFile [] 1), (ascii "/b", plainFile [] 1)]
    let scan : FileMap := Fill.assign [(ascii "/b", plainFile [] 2), (ascii "/c", plainFile [] 1)]
    let o : PollOrders := ⟨[ascii "/a", ascii "/b"], [ascii "/b", ascii "/c"], [ascii "/c"], [ascii "/a"]⟩
    o.Valid (ascii "http") recorded scan ∧
      ((pollEvents (ascii "http") o recorded scan).2.map Event.path = [ascii "/b", ascii "/c", ascii "/a"]) ∧
      ∀ e, e ∈ (pollEvents (ascii "http") o recorded scan).2 ↔
        e.service = ascii "http" ∧ Change recorded scan e.path e.info := by
  intro recorded scan o
  have hvalid : o.Valid (ascii "http") recorded scan := ⟨by decide, by decide, by decide, by decide⟩
  exact ⟨hvalid, by decide, (pollEvents_exact (ascii "http") recorded scan o hvalid).2.1⟩

end RoadRunner.Reload
