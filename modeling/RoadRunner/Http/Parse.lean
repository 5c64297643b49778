import RoadRunner.Http.Uploads
import RoadRunner.Lib.Orders

/-!
# Parsing forms and uploads

`parseData` and `parseUploads` of `http/handler/parse.go`. The maps of a request are iterated in an
order that the runtime chooses: a list of fields is one order.

* `parseUploads_eq_none_iff`: the positions of the files in the list make no difference for whether the
  tree can be built.
* `parse_total_iff`: which sets of fields can be parsed in every order.
-/

namespace RoadRunner.Http

/-- `parseData`: the fields of `PostForm` and then those of `MultipartForm.Value`. A nil map has no
fields. -/
def parseData (postForm value : List (Name × List Bytes)) : Option (Tree Bytes) := do
  let data ← postForm.foldlM dataTreePush []
  value.foldlM dataTreePush data

/-- The body of the loop of `parseUploads`, for one field. -/
def Uploads.add (u : Uploads) (field : Name × List FileHeader) : Option Uploads :=
  let files := field.2.map newUpload
  let list := u.list ++ files
  (fileTreePush u.tree (field.1, List.range' u.list.length files.length)).map fun tree => ⟨tree, list⟩

/-- `parseUploads`. -/
def parseUploads (file : List (Name × List FileHeader)) : Option Uploads := file.foldlM Uploads.add ⟨[], []⟩

/-- The fields with the positions of their files, where the list has `n` files already. -/
def positions (n : Nat) : List (Name × List FileHeader) → List (Name × List Nat)
  | [] => []
  | f :: fs => (f.1, List.range' n f.2.length) :: positions (n + f.2.length) fs

theorem positions_names (n : Nat) (fs : List (Name × List FileHeader)) :
    (positions n fs).map Prod.fst = fs.map Prod.fst := by
  induction fs generalizing n with
  | nil => rfl
  | cons f fs ih => simp only [positions, List.map_cons, ih]

theorem positions_ne_nil {n : Nat} {fs : List (Name × List FileHeader)} (h : ∀ f ∈ fs, f.2 ≠ []) :
    ∀ f ∈ positions n fs, f.2 ≠ [] := by
  induction fs generalizing n with
  | nil => simp [positions]
  | cons f fs ih =>
    intro g hg
    rcases List.mem_cons.mp hg with rfl | hg
    · rw [ne_eq, List.range'_eq_nil_iff, List.length_eq_zero_iff]
      exact h f List.mem_cons_self
    · exact ih (fun f' hf' => h f' (List.mem_cons_of_mem f hf')) g hg

/-- The loop of `parseUploads` builds the tree of the positions. -/
theorem foldlM_add_tree (fs : List (Name × List FileHeader)) (u : Uploads) :
    (fs.foldlM Uploads.add u).map Uploads.tree =
      (positions u.list.length fs).foldlM fileTreePush u.tree := by
  induction fs generalizing u with
  | nil => rfl
  | cons f fs ih =>
    simp only [List.foldlM_cons, Uploads.add, positions, List.length_map]
    cases fileTreePush u.tree (f.1, List.range' u.list.length f.2.length) with
    | none => rfl
    | some tree =>
      refine (ih ⟨tree, u.list ++ f.2.map newUpload⟩).trans ?_
      rw [List.length_append, List.length_map]
      rfl

/-- One order of the fields is parsed exactly if no field is under an earlier one. -/
theorem parseData_ne_none_iff {postForm value : List (Name × List Bytes)}
    (hpost : ∀ f ∈ postForm, f.2 ≠ []) (hvalue : ∀ f ∈ value, f.2 ≠ []) :
    parseData postForm value ≠ none ↔
      postForm.Pairwise (fun f g => ¬ Under f.1 g.1) ∧ value.Pairwise (fun f g => ¬ Under f.1 g.1) ∧
        ∀ f ∈ postForm, ∀ g ∈ value, ¬ Under f.1 g.1 := by
  have hboth : parseData postForm value = (postForm ++ value).foldlM (push List.getLast?) [] :=
    List.foldlM_append.symm
  have hne : ∀ f ∈ postForm ++ value, f.2 ≠ [] := fun f hf =>
    (List.mem_append.mp hf).elim (hpost f) (hvalue f)
  rw [hboth, ne_eq, pushAll_eq_none_iff (fun _ => List.getLast?_eq_none_iff.not.mpr) hne, not_not, List.pairwise_map,
    List.pairwise_append]

/-- One order of the upload fields is parsed exactly if no field is under an earlier one. -/
theorem parseUploads_eq_none_iff {file : List (Name × List FileHeader)} (hfile : ∀ f ∈ file, f.2 ≠ []) :
    parseUploads file = none ↔ ¬ (file.map Prod.fst).Pairwise fun k k' => ¬ Under k k' := by
  have htree := foldlM_add_tree file ⟨[], []⟩
  rw [← Option.map_eq_none_iff, parseUploads, htree, fileTreePush,
    pushAll_eq_none_iff (fun _ => List.head?_eq_none_iff.not.mpr) (positions_ne_nil hfile), positions_names]

/-- **Which forms can be parsed.** Over every order in which the maps can be iterated, `parseData` meets
no failing assertion exactly if no field of `PostForm` has another one of `PostForm` or of
`MultipartForm.Value` under it, and no field of the latter another one of it. The same holds for the
fields of `MultipartForm.File` and `parseUploads`. -/
theorem parse_total_iff (postForm value : List (Name × List Bytes))
    (file : List (Name × List FileHeader)) (hpost : ∀ f ∈ postForm, f.2 ≠ []) (hvalue : ∀ f ∈ value, f.2 ≠ [])
    (hfile : ∀ f ∈ file, f.2 ≠ []) :
    ((∀ postForm' value', postForm'.Perm postForm → value'.Perm value →
        parseData postForm' value' ≠ none) ↔
      (∀ f ∈ postForm, ∀ g ∈ postForm ++ value, ¬ Under f.1 g.1) ∧
        ∀ f ∈ value, ∀ g ∈ value, ¬ Under f.1 g.1) ∧
    ((∀ file', file'.Perm file → parseUploads file' ≠ none) ↔
      ∀ f ∈ file, ∀ g ∈ file, ¬ Under f.1 g.1) := by
  constructor
  · have hpost' : ∀ {l : List (Name × List Bytes)}, l.Perm postForm → ∀ f ∈ l, f.2 ≠ [] :=
      fun hp f hf => hpost f (hp.mem_iff.mp hf)
    have hvalue' : ∀ {l : List (Name × List Bytes)}, l.Perm value → ∀ f ∈ l, f.2 ≠ [] :=
      fun hv f hf => hvalue f (hv.mem_iff.mp hf)
    constructor
    · intro h
      have hall := fun postForm' value' hp hv =>
        (parseData_ne_none_iff (hpost' hp) (hvalue' hv)).mp (h postForm' value' hp hv)
      have hp := (Orders.forall_perm_pairwise_refl fun f => not_under_self f.1).mp
        fun postForm' hp => (hall postForm' value hp (.refl _)).1
      have hv := (Orders.forall_perm_pairwise_refl fun f => not_under_self f.1).mp
        fun value' hv => (hall postForm value' (.refl _) hv).2.1
      refine ⟨fun f hf g hg => ?_, hv⟩
      rcases List.mem_append.mp hg with hg | hg
      · exact hp f hf g hg
      · exact (hall postForm value (.refl _) (.refl _)).2.2 f hf g hg
    · rintro ⟨hp, hv⟩ postForm' value' hpp hvp
      refine (parseData_ne_none_iff (hpost' hpp) (hvalue' hvp)).mpr ⟨?_, ?_, fun f hf g hg => ?_⟩
      · exact (Orders.forall_perm_pairwise_refl fun f => not_under_self f.1).mpr
          (fun f hf g hg => hp f hf g (List.mem_append_left _ hg)) postForm' hpp
      · exact (Orders.forall_perm_pairwise_refl fun f => not_under_self f.1).mpr hv value' hvp
      · exact hp f (hpp.mem_iff.mp hf) g (List.mem_append_right _ (hvp.mem_iff.mp hg))
  · rw [← Orders.forall_perm_pairwise_refl fun f => not_under_self f.1]
    refine forall_congr' fun file' => forall_congr' fun hperm => ?_
    have hne : ∀ f ∈ file', f.2 ≠ [] := fun f hf => hfile f (hperm.mem_iff.mp hf)
    rw [ne_eq, parseUploads_eq_none_iff hne, not_not, List.pairwise_map]

/-- The fields `a[b]` and `a[c][]` beside `d`, and the files `e[]` and `f`. -/
theorem parse_total_siblings :
    let postForm : List (Name × List Bytes) := [("a[b]".toList, [[49]]), ("a[c][]".toList, [[50], [51]])]
    let value : List (Name × List Bytes) := [("d".toList, [[52]])]
    let file : List (Name × List FileHeader) :=
      [("e[]".toList, [⟨ascii "1.png", []⟩, ⟨ascii "2.png", []⟩]), ("f".toList, [⟨ascii "3.txt", []⟩])]
    (∀ postForm' value', postForm'.Perm postForm → value'.Perm value →
        parseData postForm' value' ≠ none) ∧
      ∀ file', file'.Perm file → parseUploads file' ≠ none := by
  intro postForm value file
  obtain ⟨hdata, hfile⟩ := parse_total_iff postForm value file (by decide +kernel) (by decide +kernel)
    (by decide +kernel)
  exact ⟨hdata.mpr (by decide +kernel), hfile.mpr (by decide +kernel)⟩

/-- The fields `a` and `a[b]` in this order: `a` is a string where a tree is expected. -/
theorem parse_fails_under_scalar :
    parseData [("a".toList, [[49]]), ("a[b]".toList, [[50]])] [] = none ∧
      parseUploads [("a".toList, [⟨ascii "1.png", []⟩]), ("a[b]".toList, [⟨ascii "2.png", []⟩])] = none :=
  ⟨rfl, rfl⟩

end RoadRunner.Http
