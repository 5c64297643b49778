import Mathlib

/-!
# Ordered buckets

A bucket is a finite map from keys to values, with a cursor that visits the keys in increasing
order: the collection type of an embedded key-value store. `Bucket K V` keeps its entries as a
list that is strictly increasing in the key, and carries the proof, so an unordered bucket or one
with a key twice cannot be built.

* `get`, `put`, `delete`: the map operations. Their laws are stated over membership of entries
  (`mem_put`, `mem_delete`, `get_eq_some`) and over `get` (`get_put`, `get_delete`).
* `first`: the cursor's first entry; `entries_of_first` splits it off.
* `range lo hi`: the entries a cursor visits from `seek lo` as long as the key is at most `hi`;
  `mem_range`: those between the two.
* `overlay`: the entries of one bucket put into another, in cursor order.
-/

/-- `UInt8` in its usual order, so that byte strings are ordered lexicographically. -/
instance UInt8.linearOrder : LinearOrder UInt8 where
  le_refl := UInt8.le_refl
  le_trans _ _ _ := UInt8.le_trans
  lt_iff_le_not_ge a b := by
    simp only [UInt8.lt_iff_toNat_lt, UInt8.le_iff_toNat_le]; omega
  le_antisymm _ _ := UInt8.le_antisymm
  le_total := UInt8.le_total
  toDecidableLE := inferInstance
  toDecidableLT := inferInstance
  toDecidableEq := inferInstance

/-- A finite map from `K` to `V`, its entries strictly increasing in the key. -/
structure Bucket (K V : Type) [LT K] where
  entries : List (K × V)
  sorted : entries.Pairwise fun a b => a.1 < b.1
  deriving DecidableEq

namespace Bucket

variable {K V : Type} [LinearOrder K]

instance : Membership (K × V) (Bucket K V) := ⟨fun b e => e ∈ b.entries⟩

theorem mem_def {b : Bucket K V} {e : K × V} : e ∈ b ↔ e ∈ b.entries := Iff.rfl

instance [DecidableEq V] (b : Bucket K V) (e : K × V) : Decidable (e ∈ b) :=
  inferInstanceAs (Decidable (e ∈ b.entries))

/-- The bucket without entries. -/
def empty : Bucket K V := ⟨[], .nil⟩

/-- The number of entries. -/
def length (b : Bucket K V) : Nat := b.entries.length

/-- The keys, in increasing order. -/
def keys (b : Bucket K V) : List K := b.entries.map Prod.fst

theorem mem_keys {b : Bucket K V} {k : K} : k ∈ b.keys ↔ ∃ v, (k, v) ∈ b := by
  simp [keys, mem_def]

theorem keys_nodup (b : Bucket K V) : b.keys.Nodup := by
  rw [keys, List.Nodup, List.pairwise_map]
  exact b.sorted.imp fun h => ne_of_lt h

/-- Two entries with one key are one entry. -/
theorem eq_of_mem {b : Bucket K V} {k : K} {v w : V} (hv : (k, v) ∈ b) (hw : (k, w) ∈ b) :
    v = w :=
  (Prod.mk.inj (List.inj_on_of_nodup_map b.keys_nodup hv hw rfl)).2

/-- The value of a key. -/
def get (b : Bucket K V) (k : K) : Option V := (b.entries.find? fun e => e.1 = k).map Prod.snd

theorem get_eq_some {b : Bucket K V} {k : K} {v : V} : b.get k = some v ↔ (k, v) ∈ b := by
  constructor
  · intro h
    obtain ⟨e, he, rfl⟩ := Option.map_eq_some_iff.mp h
    have hk : e.1 = k := by simpa using List.find?_some he
    rw [← hk]
    exact List.mem_of_find?_eq_some he
  · intro h
    cases hf : b.entries.find? (fun e => e.1 = k) with
    | none => exact absurd (List.find?_eq_none.mp hf _ h) (by simp)
    | some e =>
      have hk : e.1 = k := by simpa using List.find?_some hf
      have he : (k, e.2) ∈ b := by rw [← hk]; exact List.mem_of_find?_eq_some hf
      simp [get, hf, eq_of_mem he h]

/-- The entry `k ↦ v` in place of any other of `k`. -/
def put (b : Bucket K V) (k : K) (v : V) : Bucket K V where
  entries := b.entries.filter (fun e => e.1 < k) ++ (k, v) :: b.entries.filter (fun e => k < e.1)
  sorted := by
    refine List.pairwise_append.mpr ⟨b.sorted.filter _, List.pairwise_cons.mpr
      ⟨?_, b.sorted.filter _⟩, ?_⟩
    · intro e he; simpa using (List.mem_filter.mp he).2
    · intro e he e' he'
      have hlt : e.1 < k := by simpa using (List.mem_filter.mp he).2
      rcases List.mem_cons.mp he' with rfl | he'
      · exact hlt
      · exact hlt.trans (by simpa using (List.mem_filter.mp he').2)

theorem mem_put {b : Bucket K V} {k : K} {v : V} {e : K × V} :
    e ∈ b.put k v ↔ e = (k, v) ∨ (e.1 ≠ k ∧ e ∈ b) := by
  simp only [put, mem_def, List.mem_append, List.mem_cons, List.mem_filter, decide_eq_true_eq]
  constructor
  · rintro (⟨h, hl⟩ | rfl | ⟨h, hl⟩)
    · exact .inr ⟨hl.ne, h⟩
    · exact .inl rfl
    · exact .inr ⟨hl.ne', h⟩
  · rintro (rfl | ⟨hne, h⟩)
    · exact .inr (.inl rfl)
    · rcases lt_or_gt_of_ne hne with hl | hl
      · exact .inl ⟨h, hl⟩
      · exact .inr (.inr ⟨h, hl⟩)

theorem mem_put_self (b : Bucket K V) (k : K) (v : V) : (k, v) ∈ b.put k v := mem_put.mpr (.inl rfl)

/-- The bucket without the entry of `k`. -/
def delete (b : Bucket K V) (k : K) : Bucket K V where
  entries := b.entries.filter fun e => e.1 ≠ k
  sorted := b.sorted.filter _

theorem mem_delete {b : Bucket K V} {k : K} {e : K × V} :
    e ∈ b.delete k ↔ e.1 ≠ k ∧ e ∈ b := by
  simp [delete, mem_def, and_comm]

theorem delete_perm {b : Bucket K V} {k : K} {es : List (K × V)} (h : b.entries.Perm es) :
    (b.delete k).entries.Perm (es.filter fun e => e.1 ≠ k) := h.filter _

theorem mem_keys_put {b : Bucket K V} {k j : K} {v : V} :
    j ∈ (b.put k v).keys ↔ j = k ∨ j ∈ b.keys := by
  simp only [mem_keys, mem_put, Prod.mk.injEq]
  constructor
  · rintro ⟨w, ⟨rfl, -⟩ | ⟨-, h⟩⟩
    · exact .inl rfl
    · exact .inr ⟨w, h⟩
  · rintro (rfl | ⟨w, h⟩)
    · exact ⟨v, .inl ⟨rfl, rfl⟩⟩
    · by_cases hj : j = k
      · exact ⟨v, .inl ⟨hj, rfl⟩⟩
      · exact ⟨w, .inr ⟨hj, h⟩⟩

theorem mem_keys_delete {b : Bucket K V} {k j : K} : j ∈ (b.delete k).keys ↔ j ≠ k ∧ j ∈ b.keys := by
  simp only [mem_keys, mem_delete, exists_and_left]

theorem get_eq_none {b : Bucket K V} {k : K} : b.get k = none ↔ k ∉ b.keys := by
  rw [mem_keys, Option.eq_none_iff_forall_ne_some, not_exists]
  exact forall_congr' fun v => not_congr get_eq_some

theorem get_put (b : Bucket K V) (k j : K) (v : V) :
    (b.put k v).get j = if j = k then some v else b.get j := by
  ext w
  rw [get_eq_some, mem_put, Prod.mk.injEq]
  split
  case isTrue h => simp [h, eq_comm]
  case isFalse h => simp [h, get_eq_some]

theorem get_delete (b : Bucket K V) (k j : K) :
    (b.delete k).get j = if j = k then none else b.get j := by
  ext w
  rw [get_eq_some, mem_delete]
  split
  case isTrue h => simp [h]
  case isFalse h => simp [h, get_eq_some]

/-- A put of a key the bucket does not have adds one entry. -/
theorem put_perm {b : Bucket K V} {k : K} {v : V} (h : k ∉ b.keys) :
    (b.put k v).entries.Perm (b.entries ++ [(k, v)]) := by
  have hpart : b.entries.filter (fun e => k < e.1) = b.entries.filter fun e => !decide (e.1 < k) := by
    refine List.filter_congr fun e he => ?_
    have hne : e.1 ≠ k := by rintro rfl; exact h (List.mem_map_of_mem he)
    rcases lt_or_gt_of_ne hne with hl | hl
    · simp [hl, hl.le]
    · simp [hl, hl.le]
  simp only [put, hpart]
  exact List.perm_middle.trans ((List.filter_append_perm _ _).cons _ |>.trans
    (List.perm_append_singleton _ _).symm)

/-- A put of a key the bucket has adds no entry. -/
theorem length_put_of_mem {b : Bucket K V} {k : K} {v : V} (h : k ∈ b.keys) :
    (b.put k v).length = b.length := by
  have hperm : (b.put k v).keys.Perm b.keys := by
    refine (List.perm_ext_iff_of_nodup (keys_nodup _) (keys_nodup _)).mpr fun j => ?_
    rw [mem_keys_put, or_iff_right_iff_imp]
    rintro rfl
    exact h
  simpa [keys, length] using hperm.length_eq

/-- The cursor's first entry. -/
def first (b : Bucket K V) : Option (K × V) := b.entries.head?

theorem mem_of_first {b : Bucket K V} {e : K × V} (h : b.first = some e) : e ∈ b :=
  List.mem_of_head? h

/-- The entries are the first one and those that are left when it is deleted. -/
theorem entries_of_first {b : Bucket K V} {e : K × V} (h : b.first = some e) :
    b.entries = e :: (b.delete e.1).entries := by
  obtain ⟨es, hes⟩ := List.head?_eq_some_iff.mp h
  have hs := b.sorted
  rw [hes, List.pairwise_cons] at hs
  rw [hes]
  congr 1
  simp only [delete, hes, ne_eq, not_true_eq_false, decide_false, Bool.false_eq_true,
    not_false_eq_true, List.filter_cons_of_neg]
  exact (List.filter_eq_self.mpr fun e' he' => by simpa using (hs.1 e' he').ne').symm

/-- The entries a cursor visits from `seek lo` on, as long as the key is at most `hi`. -/
def range (b : Bucket K V) (lo hi : K) : List (K × V) :=
  (b.entries.dropWhile fun e => e.1 < lo).takeWhile fun e => e.1 ≤ hi

theorem mem_of_mem_range {b : Bucket K V} {lo hi : K} {e : K × V} (h : e ∈ b.range lo hi) : e ∈ b :=
  (List.dropWhile_sublist _).subset ((List.takeWhile_sublist _).subset h)

/-- On a sorted list `dropWhile` of the small keys leaves exactly the others. -/
theorem mem_dropWhile_lt {es : List (K × V)} (hs : es.Pairwise fun a b => a.1 < b.1) {lo : K} {e : K × V} :
    e ∈ es.dropWhile (fun e => e.1 < lo) ↔ e ∈ es ∧ lo ≤ e.1 := by
  induction es with
  | nil => simp
  | cons x es ih =>
    obtain ⟨hx, hs⟩ := List.pairwise_cons.mp hs
    by_cases hlo : x.1 < lo
    · rw [List.dropWhile_cons_of_pos (by simpa using hlo), ih hs, List.mem_cons]
      refine and_congr_left fun hle => ⟨.inr, fun h => h.resolve_left ?_⟩
      rintro rfl
      exact hle.not_gt hlo
    · rw [List.dropWhile_cons_of_neg (by simpa using hlo), iff_self_and]
      intro he
      rcases List.mem_cons.mp he with rfl | he
      · exact not_lt.mp hlo
      · exact (not_lt.mp hlo).trans (hx e he).le

/-- On a sorted list `takeWhile` of the keys up to `hi` takes all of these. -/
theorem mem_takeWhile_le {es : List (K × V)} (hs : es.Pairwise fun a b => a.1 < b.1) {hi : K} {e : K × V} :
    e ∈ es.takeWhile (fun e => e.1 ≤ hi) ↔ e ∈ es ∧ e.1 ≤ hi := by
  induction es with
  | nil => simp
  | cons x es ih =>
    obtain ⟨hx, hs⟩ := List.pairwise_cons.mp hs
    by_cases hhi : x.1 ≤ hi
    · rw [List.takeWhile_cons_of_pos (by simpa using hhi), List.mem_cons, List.mem_cons, ih hs, or_and_right]
      exact or_congr_left ⟨fun h => ⟨h, h ▸ hhi⟩, And.left⟩
    · rw [List.takeWhile_cons_of_neg (by simpa using hhi)]
      refine iff_of_false (by simp) ?_
      rintro ⟨he, hle⟩
      rcases List.mem_cons.mp he with rfl | he
      · exact hhi hle
      · exact hhi ((hx e he).le.trans hle)

/-- A cursor from `seek lo` up to `hi` visits exactly the entries with a key between the two. -/
theorem mem_range {b : Bucket K V} {lo hi : K} {e : K × V} :
    e ∈ b.range lo hi ↔ e ∈ b ∧ lo ≤ e.1 ∧ e.1 ≤ hi := by
  rw [range, mem_takeWhile_le (b.sorted.sublist (List.dropWhile_sublist _)), mem_dropWhile_lt b.sorted, and_assoc]
  rfl

/-- The entries of `src`, put into `b` in cursor order. -/
def overlay (b src : Bucket K V) : Bucket K V := src.entries.foldl (fun d e => d.put e.1 e.2) b

theorem mem_keys_foldl_put (es : List (K × V)) (b : Bucket K V) (k : K) :
    k ∈ (es.foldl (fun d e => d.put e.1 e.2) b).keys ↔ k ∈ es.map Prod.fst ∨ k ∈ b.keys := by
  induction es generalizing b with
  | nil => simp
  | cons e es ih =>
    rw [List.foldl_cons, ih, mem_keys_put, List.map_cons, List.mem_cons]
    tauto

/-- Entries that are put into the empty bucket show. -/
theorem foldl_put_empty_iff {es : List (K × V)} :
    es.foldl (fun d e => d.put e.1 e.2) (empty : Bucket K V) = empty ↔ es = [] := by
  refine ⟨fun h => ?_, fun h => by rw [h]; rfl⟩
  cases es with
  | nil => rfl
  | cons e es =>
    have hkey := (mem_keys_foldl_put (e :: es) empty e.1).mpr (.inl List.mem_cons_self)
    rw [h] at hkey
    cases hkey

/-- An overlay has the keys of both. -/
theorem mem_keys_overlay {b src : Bucket K V} {k : K} :
    k ∈ (b.overlay src).keys ↔ k ∈ src.keys ∨ k ∈ b.keys := mem_keys_foldl_put _ _ _

theorem mem_foldl_put (es : List (K × V)) (b : Bucket K V) {x : K × V}
    (h : x ∈ es.foldl (fun d e => d.put e.1 e.2) b) : x ∈ es ∨ x ∈ b := by
  induction es generalizing b with
  | nil => exact .inr h
  | cons e es ih =>
    rcases ih _ h with h | h
    · exact .inl (List.mem_cons_of_mem _ h)
    · rcases mem_put.mp h with rfl | ⟨-, h⟩
      · exact .inl List.mem_cons_self
      · exact .inr h

/-- An entry of an overlay comes from one of the two. -/
theorem mem_overlay {b src : Bucket K V} {x : K × V} (h : x ∈ b.overlay src) : x ∈ src ∨ x ∈ b :=
  mem_foldl_put _ _ h

end Bucket
