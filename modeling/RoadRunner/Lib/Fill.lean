import RoadRunner.Lib.Orders

/-!
# Filling and emptying maps in loops

A loop over some keys puts a value under each of them into a finite map, or removes it. What the map holds afterwards
depends on the keys and not on their order.

* `Fill.mem_order`: what is in an order of the keys of a map.
* `Fill.put`: a map with a new value for a key, if there is one.
* `Fill.lookup_foldl_put`, `Fill.lookup_foldl_erase`: the map after the loop.
* `Fill.foldl_emit`: what such a loop emits.
* `Fill.foldl_modify`: a loop that replaces values.
* `Fill.assign`: a map from a list of entries, of which the last one for a key counts.
* `Fill.lookup_of_foldlM_insert`: the map after a loop that ends at the first error.
-/

namespace Fill

variable {κ β : Type}

/-- A loop that also emits something for some of the keys. -/
theorem foldl_emit {σ ε : Type} (f : σ → κ → σ) (g : κ → Option ε) (order : List κ) (s : σ) (es : List ε) :
    order.foldl (fun t k => (f t.1 k, t.2 ++ (g k).toList)) (s, es) = (order.foldl f s, es ++ order.filterMap g) := by
  induction order generalizing s es with
  | nil => rw [List.foldl_nil, List.foldl_nil, List.filterMap_nil, List.append_nil]
  | cons k order ih =>
    rw [List.foldl_cons, ih, List.foldl_cons, List.filterMap_cons, List.append_assoc]
    cases g k <;> rfl

variable [DecidableEq κ]

/-- A finite map. -/
abbrev Map (κ β : Type) := Finmap fun _ : κ => β

/-- An order of the keys of a map has the keys with a value. -/
theorem mem_order {m : Map κ β} {order : List κ} (ho : Orders.Lists order m.keys) {k : κ} :
    k ∈ order ↔ m.lookup k ≠ none := by
  rw [ho.mem_iff, Finmap.mem_keys, Ne, Finmap.lookup_eq_none, not_not]

theorem lookup_of_not_mem_order {m : Map κ β} {order : List κ} (ho : Orders.Lists order m.keys) {k : κ}
    (h : k ∉ order) : m.lookup k = none := by
  rwa [mem_order ho, not_not] at h

/-- A map with a new value for a key, if there is one. -/
def put (m : Map κ β) (k : κ) : Option β → Map κ β
  | none => m
  | some v => m.insert k v

theorem lookup_insert (m : Map κ β) (k j : κ) (v : β) :
    (m.insert k v).lookup j = if j = k then some v else m.lookup j := by
  by_cases h : j = k
  · subst h
    rw [if_pos rfl, Finmap.lookup_insert]
  · rw [if_neg h, Finmap.lookup_insert_of_ne m h]

theorem lookup_put (m : Map κ β) (k j : κ) (v : Option β) :
    (put m k v).lookup j = if j = k then v.or (m.lookup j) else m.lookup j := by
  cases v with
  | none =>
    rw [Option.none_or, ite_self]
    rfl
  | some v => exact lookup_insert m k j v

theorem lookup_foldl_put (f : κ → Option β) (order : List κ) (m : Map κ β) (j : κ) :
    (order.foldl (fun m k => put m k (f k)) m).lookup j =
      if j ∈ order then (f j).or (m.lookup j) else m.lookup j := by
  induction order generalizing m with
  | nil => rfl
  | cons k order ih =>
    rw [List.foldl_cons, ih, lookup_put]
    by_cases hk : j = k
    · subst hk
      rw [if_pos rfl, if_pos List.mem_cons_self]
      cases f j <;> simp
    · rw [if_neg hk]
      simp [hk]

theorem lookup_foldl_erase (order : List κ) (m : Map κ β) (j : κ) :
    (order.foldl (fun m k => m.erase k) m).lookup j = if j ∈ order then none else m.lookup j := by
  induction order generalizing m with
  | nil => rfl
  | cons k order ih =>
    rw [List.foldl_cons, ih]
    by_cases hk : j = k
    · subst hk
      rw [Finmap.lookup_erase, if_pos List.mem_cons_self, ite_self]
    · rw [Finmap.lookup_erase_ne hk]
      simp [hk]

theorem lookup_union (m n : Map κ β) (j : κ) : (m ∪ n).lookup j = (m.lookup j).or (n.lookup j) := by
  by_cases h : j ∈ m
  · rw [Finmap.lookup_union_left h]
    obtain ⟨v, hv⟩ := Finmap.mem_iff.mp h
    rw [hv, Option.some_or]
  · rw [Finmap.lookup_union_right h, Finmap.lookup_eq_none.mpr h, Option.none_or]

/-- A loop over distinct keys that replaces the values under them, and emits something for each. -/
theorem foldl_modify {ε : Type} (f : κ → β → β) (g : κ → β → List ε) {order : List κ} (hnodup : order.Nodup)
    (step : Map κ β × List ε → κ → Map κ β × List ε)
    (hsome : ∀ t k v, t.1.lookup k = some v → step t k = (t.1.insert k (f k v), t.2 ++ g k v))
    (hnone : ∀ t k, t.1.lookup k = none → step t k = t) (m : Map κ β) (es : List ε) :
    (∀ j, (order.foldl step (m, es)).1.lookup j = if j ∈ order then (m.lookup j).map (f j) else m.lookup j) ∧
      (order.foldl step (m, es)).2 = es ++ order.flatMap fun k => (m.lookup k).elim [] (g k) := by
  induction order generalizing m es with
  | nil => exact ⟨fun j => rfl, (List.append_nil es).symm⟩
  | cons k order ih =>
    rw [List.nodup_cons] at hnodup
    -- what the rest of the loop reads is as it was
    cases hk : m.lookup k with
    | none =>
      obtain ⟨hlookup, hemitted⟩ := ih hnodup.2 m es
      rw [List.foldl_cons, hnone (m, es) k hk]
      refine ⟨fun j => ?_, ?_⟩
      · rw [hlookup]
        by_cases hj : j = k
        · subst hj
          simp [hk]
        · simp [hj]
      · rw [hemitted, List.flatMap_cons, hk]
        rfl
    | some v =>
      obtain ⟨hlookup, hemitted⟩ := ih hnodup.2 (m.insert k (f k v)) (es ++ g k v)
      rw [List.foldl_cons, hsome (m, es) k v hk]
      refine ⟨fun j => ?_, ?_⟩
      · rw [hlookup, lookup_insert]
        by_cases hj : j = k
        · subst hj
          simp [hk, hnodup.1]
        · simp [hj]
      · have hrest : ∀ j ∈ order, (m.insert k (f k v)).lookup j = m.lookup j := by
          intro j hj
          rw [lookup_insert, if_neg (ne_of_mem_of_not_mem hj hnodup.1)]
        rw [hemitted, List.flatMap_cons, hk, List.append_assoc]
        refine congrArg (fun r => es ++ (g k v ++ r)) (List.flatMap_congr fun j hj => ?_)
        rw [hrest j hj]

/-! ## Entries -/

/-- The entries one after the other. -/
def assign (entries : List (κ × β)) : Map κ β := entries.foldl (fun m e => m.insert e.1 e.2) ∅

/-- The last value that a function gives for the elements of a list. -/
def last {α : Type} (f : α → Option β) (l : List α) : Option β := l.foldl (fun v a => (f a).or v) none

theorem foldl_or {α : Type} (f : α → Option β) (l : List α) (v : Option β) :
    l.foldl (fun v a => (f a).or v) v = (last f l).or v := by
  induction l generalizing v with
  | nil => rfl
  | cons a l ih => rw [last, List.foldl_cons, List.foldl_cons, ih, ih, Option.or_none, Option.or_assoc]

@[simp] theorem last_nil {α : Type} (f : α → Option β) : last f [] = none := rfl

theorem last_cons {α : Type} (f : α → Option β) (a : α) (l : List α) : last f (a :: l) = (last f l).or (f a) := by
  rw [last, List.foldl_cons, foldl_or, Option.or_none]

theorem last_append {α : Type} (f : α → Option β) (l r : List α) : last f (l ++ r) = (last f r).or (last f l) := by
  rw [last, List.foldl_append, foldl_or]
  rfl

theorem last_congr {α : Type} {f g : α → Option β} {l : List α} (h : ∀ a ∈ l, f a = g a) : last f l = last g l := by
  induction l with
  | nil => rfl
  | cons a l ih =>
    rw [List.forall_mem_cons] at h
    rw [last_cons, last_cons, h.1, ih h.2]

theorem last_eq_none_iff {α : Type} {f : α → Option β} {l : List α} : last f l = none ↔ ∀ a ∈ l, f a = none := by
  induction l with
  | nil => simp
  | cons a l ih => rw [last_cons, Option.or_eq_none_iff, ih, List.forall_mem_cons, and_comm]

theorem exists_of_last {α : Type} {f : α → Option β} {l : List α} {v : β} (h : last f l = some v) :
    ∃ a ∈ l, f a = some v := by
  induction l with
  | nil => cases h
  | cons a l ih =>
    rw [last_cons] at h
    rcases Option.or_eq_some_iff.mp h with hl | ⟨-, ha⟩
    · obtain ⟨b, hb, hv⟩ := ih hl
      exact ⟨b, List.mem_cons_of_mem a hb, hv⟩
    · exact ⟨a, List.mem_cons_self, ha⟩

/-- All elements that have a value have the same one. -/
theorem last_eq_some {α : Type} {f : α → Option β} {l : List α} {v : β} (h : ∀ a ∈ l, f a = none ∨ f a = some v) {a : α}
    (ha : a ∈ l) (hv : f a = some v) : last f l = some v := by
  cases hl : last f l with
  | none =>
    rw [last_eq_none_iff.mp hl a ha] at hv
    cases hv
  | some u =>
    obtain ⟨b, hb, hu⟩ := exists_of_last hl
    rcases h b hb with hnone | hsome
    · rw [hnone] at hu
      cases hu
    · rw [← hu, hsome]

theorem last_map {α γ : Type} (f : γ → Option β) (g : α → γ) (l : List α) :
    last f (l.map g) = last (fun a => f (g a)) l := by
  rw [last, List.foldl_map]
  rfl

theorem last_filter {α : Type} (f : α → Option β) (p : α → Bool) (l : List α) :
    last f (l.filter p) = last (fun a => if p a then f a else none) l := by
  induction l with
  | nil => rfl
  | cons a l ih =>
    rw [List.filter_cons, last_cons]
    split
    · rw [last_cons, ih]
    · rw [ih, Option.or_none]

theorem last_filterMap {α γ : Type} (f : γ → Option β) (g : α → Option γ) (l : List α) :
    last f (l.filterMap g) = last (fun a => (g a).bind f) l := by
  induction l with
  | nil => rfl
  | cons a l ih =>
    rw [List.filterMap_cons, last_cons]
    cases g a with
    | none => rw [Option.bind_none, Option.or_none, ih]
    | some b => rw [last_cons, ih, Option.bind_some]

theorem last_option_map {α γ : Type} (f : α → Option β) (g : β → γ) (l : List α) :
    last (fun a => (f a).map g) l = (last f l).map g := by
  induction l with
  | nil => rfl
  | cons a l ih => rw [last_cons, last_cons, ih, Option.map_or]

theorem lookup_assign (entries : List (κ × β)) (k : κ) :
    (assign entries).lookup k = last (fun e => if e.1 = k then some e.2 else none) entries := by
  induction entries using List.reverseRecOn with
  | nil => rfl
  | append_singleton entries e ih =>
    rw [assign, List.foldl_append, last_append, last_cons, last_nil, Option.none_or, ← ih, List.foldl_cons,
      List.foldl_nil, lookup_insert]
    by_cases h : k = e.1
    · rw [if_pos h, if_pos h.symm]
      rfl
    · rw [if_neg h, if_neg (Ne.symm h)]
      rfl

theorem lookup_assign_map {γ : Type} (g : β → γ) (entries : List (κ × β)) (k : κ) :
    (assign (entries.map fun e => (e.1, g e.2))).lookup k = ((assign entries).lookup k).map g := by
  rw [lookup_assign, lookup_assign, last_map, ← last_option_map]
  refine last_congr fun e _ => ?_
  by_cases h : e.1 = k
  · rw [if_pos h, if_pos h]
    rfl
  · rw [if_neg h, if_neg h]
    rfl

/-! ## Loops that may fail -/

section

variable {ε γ : Type} {f : κ × γ → Except ε β}

/-- The values of the entries are in the map when the loop is over. -/
theorem lookup_of_foldlM_insert {entries : List (κ × γ)} (hnodup : (entries.map Prod.fst).Nodup) {m m' : Map κ β}
    (h : entries.foldlM (fun m e => (f e).map (m.insert e.1)) m = .ok m') :
    (∀ e ∈ entries, ∃ v, f e = .ok v ∧ m'.lookup e.1 = some v) ∧
      ∀ k ∉ entries.map Prod.fst, m'.lookup k = m.lookup k := by
  induction entries generalizing m with
  | nil =>
    cases h
    exact ⟨List.forall_mem_nil _, fun _ _ => rfl⟩
  | cons e entries ih =>
    rw [List.map_cons, List.nodup_cons] at hnodup
    rw [List.foldlM_cons] at h
    cases hv : f e with
    | error err =>
      rw [hv] at h
      cases h
    | ok v =>
      rw [hv] at h
      obtain ⟨hmem, hrest⟩ := ih hnodup.2 h
      refine ⟨List.forall_mem_cons.mpr ⟨⟨v, hv, ?_⟩, hmem⟩, fun k hk => ?_⟩
      · rw [hrest e.1 hnodup.1, lookup_insert, if_pos rfl]
      · rw [List.map_cons, List.mem_cons, not_or] at hk
        rw [hrest k hk.2, lookup_insert, if_neg hk.1]

/-- The error of the loop is that of an entry. -/
theorem exists_of_foldlM_insert {entries : List (κ × γ)} {m : Map κ β} {err : ε}
    (h : entries.foldlM (fun m e => (f e).map (m.insert e.1)) m = .error err) : ∃ e ∈ entries, f e = .error err := by
  induction entries generalizing m with
  | nil => cases h
  | cons e entries ih =>
    rw [List.foldlM_cons] at h
    cases hv : f e with
    | error err' =>
      rw [hv] at h
      cases h
      exact ⟨e, List.mem_cons_self, hv⟩
    | ok v =>
      rw [hv] at h
      obtain ⟨e', he', herr⟩ := ih h
      exact ⟨e', List.mem_cons_of_mem e he', herr⟩

end

end Fill
