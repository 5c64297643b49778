import RoadRunner.Http.Parse

/-!
# Forms and the order of their fields

The fields of a form come from Go maps, in an order that the runtime chooses, and those of a multipart form are
pushed twice. Fields whose paths are apart make one tree, whatever the order and however often each is pushed.

* `form_tree`: all orders give the same tree, with the value of each field at its path and no other leaf.
-/

namespace RoadRunner.Http

/-- The path of the leaf of a field. -/
def path (f : Name × List Bytes) : List Name := address (fetchIndexes f.1)

/-- A form: fields with values and not too many indexes, whose paths are different and none of which is a beginning
of another. -/
structure IsForm (fields : List (Name × List Bytes)) : Prop where
  values : ∀ f ∈ fields, f.2 ≠ []
  level : ∀ f ∈ fields, (fetchIndexes f.1).length ≤ maxLevel
  apart : fields.Pairwise fun f g => path f ≠ path g ∧ ¬ path f <+: path g ∧ ¬ path g <+: path f

instance (fields : List (Name × List Bytes)) : Decidable (IsForm fields) :=
  decidable_of_iff ((∀ f ∈ fields, f.2 ≠ []) ∧ (∀ f ∈ fields, (fetchIndexes f.1).length ≤ maxLevel) ∧
      fields.Pairwise fun f g => path f ≠ path g ∧ ¬ path f <+: path g ∧ ¬ path g <+: path f)
    ⟨fun h => ⟨h.1, h.2.1, h.2.2⟩, fun h => ⟨h.values, h.level, h.apart⟩⟩

variable {fields gs : List (Name × List Bytes)}

theorem IsForm.eq_of_prefix (h : IsForm fields) {f g : Name × List Bytes} (hf : f ∈ fields) (hg : g ∈ fields)
    (hpre : path f <+: path g) : f = g := by
  have hsymm : Std.Symm fun f g : Name × List Bytes =>
      path f ≠ path g ∧ ¬ path f <+: path g ∧ ¬ path g <+: path f :=
    ⟨fun _ _ hfg => ⟨hfg.1.symm, hfg.2.2, hfg.2.1⟩⟩
  by_contra hne
  exact (h.apart.forall hf hg hne).2.1 hpre

/-- The leaf of a field, of which the values are there. -/
theorem IsForm.placed_eq (h : IsForm fields) {f : Name × List Bytes} (hf : f ∈ fields) :
    ∃ l, leafOf List.getLast? (fetchIndexes f.1) f.2 = some l ∧ placed List.getLast? f = some (path f, l) := by
  obtain ⟨l, hl⟩ := leafOf_isSome (fun _ => List.getLast?_eq_none_iff.not.mpr) (fetchIndexes f.1) (h.values f hf)
  refine ⟨l, hl, ?_⟩
  rw [placed, if_pos (h.level f hf), hl]
  rfl

/-- The leaves of the fields `gs`, in their order. -/
def leaves (gs : List (Name × List Bytes)) : List (List Name × Leaf Bytes) := gs.filterMap (placed List.getLast?)

theorem IsForm.mem_leaves (h : IsForm fields) (hgs : ∀ f, f ∈ gs ↔ f ∈ fields) {p : List Name} {l : Leaf Bytes} :
    (p, l) ∈ leaves gs ↔
      ∃ f ∈ fields, p = path f ∧ leafOf List.getLast? (fetchIndexes f.1) f.2 = some l := by
  rw [leaves, List.mem_filterMap]
  constructor
  · rintro ⟨f, hf, hplaced⟩
    obtain ⟨l', hl', hp⟩ := h.placed_eq ((hgs f).mp hf)
    cases hp.symm.trans hplaced
    exact ⟨f, (hgs f).mp hf, rfl, hl'⟩
  · rintro ⟨f, hf, rfl, hl⟩
    obtain ⟨l', hl', hp⟩ := h.placed_eq hf
    cases hl'.symm.trans hl
    exact ⟨f, (hgs f).mpr hf, hp⟩

/-- Fields that are apart are leaves that are apart. -/
theorem IsForm.leaves_apart (h : IsForm fields) (hgs : ∀ f, f ∈ gs ↔ f ∈ fields) : Trie.Apart (leaves gs) := by
  rintro ⟨p, l⟩ hl ⟨q, m⟩ hm hpre
  -- both leaves come from fields, and those are the same
  obtain ⟨f, hf, rfl, hfl⟩ := (h.mem_leaves hgs).mp hl
  obtain ⟨g, hg, rfl, hgm⟩ := (h.mem_leaves hgs).mp hm
  obtain rfl := h.eq_of_prefix hf hg hpre
  cases hfl.symm.trans hgm
  rfl

/-- Pushing the fields of a form, in any order and as often as it may be, shows their leaves. -/
theorem IsForm.push_shows (h : IsForm fields) (hgs : ∀ f, f ∈ gs ↔ f ∈ fields) :
    ∃ t, gs.foldlM dataTreePush [] = some t ∧ Trie.Shows (leaves gs) t := by
  have hne : ∀ e ∈ leaves gs, e.1 ≠ [] := by
    rintro ⟨p, l⟩ he
    obtain ⟨f, -, rfl, -⟩ := (h.mem_leaves hgs).mp he
    exact address_ne_nil (fetchIndexes_ne_nil f.1)
  obtain ⟨t, ht, hshows⟩ := Trie.placeAll_shows (h.leaves_apart hgs) hne
  refine ⟨t, ?_, hshows⟩
  rw [← ht]
  exact pushAll_eq_placeAll (fun _ => List.getLast?_eq_none_iff.not.mpr) (fun f hf => h.values f ((hgs f).mp hf)) []

theorem IsForm.leaves_iff (h : IsForm fields) {gs gs' : List (Name × List Bytes)} (hgs : ∀ f, f ∈ gs ↔ f ∈ fields)
    (hgs' : ∀ f, f ∈ gs' ↔ f ∈ fields) (e : List Name × Leaf Bytes) : e ∈ leaves gs ↔ e ∈ leaves gs' := by
  obtain ⟨p, l⟩ := e
  rw [h.mem_leaves hgs, h.mem_leaves hgs']

/-- **The tree of a form.** Pushing the fields of a form in any order, with any of them pushed again, succeeds and gives
the same tree. At the path of a field it has the last value of the field, or all of them if it is an array, and it has
no other leaves. -/
theorem form_tree (fields : List (Name × List Bytes)) (h : IsForm fields) (gs gs' : List (Name × List Bytes))
    (hgs : ∀ f, f ∈ gs ↔ f ∈ fields) (hgs' : ∀ f, f ∈ gs' ↔ f ∈ fields) :
    ∃ t t', gs.foldlM dataTreePush [] = some t ∧ gs'.foldlM dataTreePush [] = some t' ∧ Trie.Same t t' ∧
      (∀ f ∈ fields, Trie.look (path f) t = (leafOf List.getLast? (fetchIndexes f.1) f.2).map some) ∧
      ∀ p l, Trie.look p t = some (some l) →
        ∃ f ∈ fields, p = path f ∧ leafOf List.getLast? (fetchIndexes f.1) f.2 = some l := by
  obtain ⟨t, ht, hshows⟩ := h.push_shows hgs
  obtain ⟨t', ht', hshows'⟩ := h.push_shows hgs'
  refine ⟨t, t', ht, ht', hshows.same hshows' (h.leaves_iff hgs hgs'), fun f hf => ?_, fun p l hl => ?_⟩
  · obtain ⟨l, hl, -⟩ := h.placed_eq hf
    rw [hl, hshows.leaf_iff.mpr ((h.mem_leaves hgs).mpr ⟨f, hf, rfl, hl⟩)]
    rfl
  · exact (h.mem_leaves hgs).mp (hshows.leaf_iff.mp hl)

/-- The fields `a[b]`, `a[c][]` and `d`, and again in another order with one of them twice. -/
theorem form_tree_reordered :
    let ab : Name × List Bytes := ("a[b]".toList, [[49], [50]])
    let ac : Name × List Bytes := ("a[c][]".toList, [[51], [52]])
    let d : Name × List Bytes := ("d".toList, [[53]])
    ∃ t t', [ab, ac, d].foldlM dataTreePush [] = some t ∧ [d, ac, ab, d].foldlM dataTreePush [] = some t' ∧
      Trie.Same t t' ∧ Trie.look ["a".toList, "b".toList] t = some (some (.scalar [50])) ∧
      Trie.look ["a".toList, "c".toList] t = some (some (.array [[51], [52]])) := by
  intro ab ac d
  obtain ⟨t, t', ht, ht', hsame, hleaf, -⟩ := form_tree [ab, ac, d] (by decide +kernel) [ab, ac, d] [d, ac, ab, d]
    (fun _ => Iff.rfl) (fun f => by simp only [List.mem_cons, List.not_mem_nil, or_false]; tauto)
  exact ⟨t, t', ht, ht', hsame, hleaf ab (by simp), hleaf ac (by simp)⟩

/-- `parseData` gives the same tree for every order of its maps, also if they have fields in common. -/
theorem parseData_same (h : IsForm fields) {postForm value postForm' value' : List (Name × List Bytes)}
    (hall : ∀ f, f ∈ postForm ++ value ↔ f ∈ fields) (hpost : postForm'.Perm postForm) (hvalue : value'.Perm value) :
    ∃ t t', parseData postForm value = some t ∧ parseData postForm' value' = some t' ∧ Trie.Same t t' := by
  have happend : ∀ a b : List (Name × List Bytes), parseData a b = (a ++ b).foldlM dataTreePush [] :=
    fun a b => List.foldlM_append.symm
  have hall' : ∀ f, f ∈ postForm' ++ value' ↔ f ∈ fields := fun f => by
    rw [← hall f, (hpost.append hvalue).mem_iff]
  obtain ⟨t, ht, hshows⟩ := h.push_shows hall
  obtain ⟨t', ht', hshows'⟩ := h.push_shows hall'
  rw [happend, happend]
  exact ⟨t, t', ht, ht', hshows.same hshows' (h.leaves_iff hall hall')⟩

end RoadRunner.Http
