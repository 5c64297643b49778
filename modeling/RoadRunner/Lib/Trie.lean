import Mathlib

/-!
# Trees of maps

A tree whose inner nodes are finite maps from keys to subtrees, and whose leaves carry values. A
leaf is placed at a path of keys: the maps on the way are made where they are missing, and what is
at the path itself is replaced. A path that leads through a leaf cannot be followed, so placing
there fails.

* `Trie.find`, `Trie.insert`: one map, as a list of entries.
* `Trie.place`: put a leaf at a path.
* `Trie.Blocked d p`: the path `p` leads through a leaf of `d`.
* `Trie.place_eq_none_iff`, `Trie.blocked_place`: placing fails exactly on a blocked path, and blocks
  exactly the paths that lead through the new leaf.
* `Trie.placeAll_eq_none_iff`: placing leaf after leaf fails exactly if a path leads through the path of
  an earlier one.
* `Trie.look`, `Trie.Same`: what is at a path, and trees that do not differ in it.
* `Trie.look_place`, `Trie.placeAll_shows`: leaves whose paths are apart make a tree that is determined by
  the set of them (`Trie.Shows`).
-/

/-- A leaf, or a map from keys to subtrees. -/
inductive Trie (K L : Type) where
  | leaf (l : L)
  | node (entries : List (K × Trie K L))

namespace Trie

variable {K L : Type}

/-- The path `p` leads through `q`: `q` is a proper beginning of `p`. -/
def Through (q p : List K) : Prop := q <+: p ∧ q ≠ p

instance [DecidableEq K] (q p : List K) : Decidable (Through q p) :=
  inferInstanceAs (Decidable (q <+: p ∧ q ≠ p))

theorem through_cons {k : K} {q p : List K} : Through (k :: q) (k :: p) ↔ Through q p := by
  simp [Through, List.cons_prefix_cons]

theorem not_through_of_ne {k k' : K} (h : k' ≠ k) (q p : List K) : ¬ Through (k' :: q) (k :: p) :=
  fun hp => h (List.cons_prefix_cons.mp hp.1).1

/-- No path of a leaf is a beginning of the path of another one. -/
def Apart (fs : List (List K × L)) : Prop := ∀ f ∈ fs, ∀ g ∈ fs, f.1 <+: g.1 → f = g

theorem Apart.not_through {fs : List (List K × L)} (h : Apart fs) {f g : List K × L} (hf : f ∈ fs) (hg : g ∈ fs) :
    ¬ Through f.1 g.1 :=
  fun ht => ht.2 (congrArg Prod.fst (h f hf g hg ht.1))

/-- A node on the way to a leaf is not under another leaf. -/
theorem Apart.not_under {fs : List (List K × L)} (hapart : Apart fs) {f : List K × L} (hmem : f ∈ fs) (hf : f.1 ≠ [])
    {p : List K} (hp : p = [] ∨ ∃ g ∈ fs, Through p g.1) : ¬ f.1 <+: p := by
  intro hpre
  rcases hp with rfl | ⟨g, hg, ht⟩
  · exact hf (List.prefix_nil.mp hpre)
  · obtain rfl := hapart f hmem g hg (hpre.trans ht.1)
    exact ht.2 (ht.1.eq_of_length (Nat.le_antisymm ht.1.length_le hpre.length_le))

variable [DecidableEq K]

/-- The subtree at a key. -/
def find (k : K) : List (K × Trie K L) → Option (Trie K L)
  | [] => none
  | e :: d => if e.1 = k then some e.2 else find k d

/-- The map with a subtree at a key. -/
def insert (k : K) (t : Trie K L) : List (K × Trie K L) → List (K × Trie K L)
  | [] => [(k, t)]
  | e :: d => if e.1 = k then (k, t) :: d else e :: insert k t d

/-- Put the leaf `l` at a path. -/
def place : List K → L → List (K × Trie K L) → Option (List (K × Trie K L))
  | [], _, _ => none
  | [k], l, d => some (insert k (.leaf l) d)
  | k :: k' :: p, l, d =>
    match find k d with
    | some (.leaf _) => none
    | some (.node t) => (place (k' :: p) l t).map fun t => insert k (.node t) d
    | none => (place (k' :: p) l []).map fun t => insert k (.node t) d

/-- The path leads through a leaf. -/
def Blocked : List (K × Trie K L) → List K → Prop
  | _, [] => False
  | _, [_] => False
  | d, k :: k' :: p =>
    match find k d with
    | some (.leaf _) => True
    | some (.node t) => Blocked t (k' :: p)
    | none => False

@[simp] theorem find_insert_self (k : K) (t : Trie K L) (d : List (K × Trie K L)) :
    find k (insert k t d) = some t := by
  induction d with
  | nil => simp [insert, find]
  | cons e d ih =>
    unfold insert
    split
    · simp [find]
    · rename_i h; simp [find, h, ih]

theorem find_insert_ne {k k' : K} (h : k' ≠ k) (t : Trie K L) (d : List (K × Trie K L)) :
    find k (insert k' t d) = find k d := by
  induction d with
  | nil => simp [insert, find, h]
  | cons e d ih =>
    unfold insert
    split
    · rename_i he
      subst he
      simp [find, h]
    · simp only [find, ih]

theorem not_blocked_nil (p : List K) : ¬ Blocked ([] : List (K × Trie K L)) p := by
  rcases p with _ | ⟨k, _ | ⟨k', p⟩⟩ <;> simp [Blocked, find]

/-- What is blocked after the subtree at `k` became `t`. -/
theorem blocked_insert_self {k k' : K} {p : List K} (t : Trie K L) (d : List (K × Trie K L)) :
    Blocked (insert k t d) (k :: k' :: p) ↔
      match t with
      | .leaf _ => True
      | .node t => Blocked t (k' :: p) := by
  simp only [Blocked, find_insert_self]
  cases t <;> rfl

theorem blocked_insert_ne {k k' : K} (h : k' ≠ k) (t : Trie K L) (d : List (K × Trie K L))
    (p : List K) : Blocked (insert k' t d) (k :: p) ↔ Blocked d (k :: p) := by
  cases p with
  | nil => simp [Blocked]
  | cons k'' p => simp only [Blocked, find_insert_ne h]

/-- Placing a leaf fails exactly if the path leads through a leaf. -/
theorem place_eq_none_iff {p : List K} (hp : p ≠ []) (l : L) (d : List (K × Trie K L)) :
    place p l d = none ↔ Blocked d p := by
  induction p generalizing d with
  | nil => exact absurd rfl hp
  | cons k p ih =>
    cases p with
    | nil => simp [place, Blocked]
    | cons k' p =>
      rw [place, Blocked]
      cases hk : find k d with
      | none =>
        simp only [Option.map_eq_none_iff, ih (List.cons_ne_nil k' p)]
        exact iff_of_false (not_blocked_nil _) id
      | some t =>
        cases t with
        | leaf l' => simp
        | node t => simp only [Option.map_eq_none_iff, ih (List.cons_ne_nil k' p)]

/-- The subtree at a key, or the empty one where there is none. -/
def Sub (k : K) (d t : List (K × Trie K L)) : Prop := find k d = some (.node t) ∨ find k d = none ∧ t = []

theorem Sub.blocked {k k' : K} {d t : List (K × Trie K L)} (h : Sub k d t) (p : List K) :
    Blocked d (k :: k' :: p) ↔ Blocked t (k' :: p) := by
  rcases h with hk | ⟨hk, rfl⟩
  · simp only [Blocked, hk]
  · simp only [Blocked, hk]
    exact iff_of_false id (not_blocked_nil _)

/-- Placing goes through the subtree at the first key, or through a new one. -/
theorem place_cons {k k' : K} {q : List K} {l : L} {d d' : List (K × Trie K L)}
    (h : place (k :: k' :: q) l d = some d') :
    ∃ t t', place (k' :: q) l t = some t' ∧ d' = insert k (.node t') d ∧ Sub k d t := by
  rw [place] at h
  cases hk : find k d with
  | none =>
    rw [hk] at h
    obtain ⟨t', ht', rfl⟩ := Option.map_eq_some_iff.mp h
    exact ⟨[], t', ht', rfl, .inr ⟨hk, rfl⟩⟩
  | some t =>
    rw [hk] at h
    cases t with
    | leaf l' => cases h
    | node t =>
      obtain ⟨t', ht', rfl⟩ := Option.map_eq_some_iff.mp h
      exact ⟨t, t', ht', rfl, .inl hk⟩

/-- A new leaf blocks exactly the paths that lead through it. -/
theorem blocked_place {q : List K} {l : L} {d d' : List (K × Trie K L)} (h : place q l d = some d')
    (p : List K) : Blocked d' p ↔ Blocked d p ∨ Through q p := by
  induction q generalizing d d' p with
  | nil => cases h
  | cons k q ih =>
    -- a path with another first key, or with no further one, is not affected
    rcases p with _ | ⟨k₀, _ | ⟨k₁, p⟩⟩
    · simp [Blocked, Through]
    · simp [Blocked, Through, List.cons_prefix_cons]
    cases q with
    | nil =>
      obtain rfl : insert k (.leaf l) d = d' := Option.some.inj h
      by_cases hk : k = k₀
      · subst hk
        rw [blocked_insert_self]
        exact iff_of_true trivial (.inr (by simp [Through, List.cons_prefix_cons]))
      · rw [blocked_insert_ne hk, or_iff_left (not_through_of_ne hk _ _)]
    | cons k' q =>
      obtain ⟨t, t', ht', rfl, hd⟩ := place_cons h
      by_cases hk : k = k₀
      · subst hk
        rw [blocked_insert_self, hd.blocked, through_cons]
        exact ih ht' (k₁ :: p)
      · rw [blocked_insert_ne hk, or_iff_left (not_through_of_ne hk _ _)]

/-- Put leaf after leaf. -/
def placeAll (fs : List (List K × L)) (d : List (K × Trie K L)) : Option (List (K × Trie K L)) :=
  fs.foldlM (fun d f => place f.1 f.2 d) d

/-- Placing leaf after leaf fails exactly if a path is blocked from the start, or leads through the
path of an earlier leaf. -/
theorem placeAll_eq_none_iff {fs : List (List K × L)} (hfs : ∀ f ∈ fs, f.1 ≠ [])
    (d : List (K × Trie K L)) :
    placeAll fs d = none ↔
      (∃ f ∈ fs, Blocked d f.1) ∨ ¬ fs.Pairwise fun f g => ¬ Through f.1 g.1 := by
  induction fs generalizing d with
  | nil => simp [placeAll]
  | cons f fs ih =>
    have hf := place_eq_none_iff (hfs f List.mem_cons_self) f.2 d
    rw [placeAll, List.foldlM_cons]
    cases hplace : place f.1 f.2 d with
    | none => exact iff_of_true rfl (.inl ⟨f, List.mem_cons_self, hf.mp hplace⟩)
    | some d' =>
      have hfree : ¬ Blocked d f.1 := fun hb => by rw [hf.mpr hb] at hplace; cases hplace
      refine (ih (fun g hg => hfs g (List.mem_cons_of_mem f hg)) d').trans ?_
      simp only [blocked_place hplace, List.pairwise_cons, List.mem_cons, exists_eq_or_imp, hfree,
        false_or]
      constructor
      · rintro (⟨g, hg, hb | ht⟩ | hp)
        · exact .inl ⟨g, hg, hb⟩
        · exact .inr fun h => h.1 g hg ht
        · exact .inr fun h => hp h.2
      · rintro (⟨g, hg, hb⟩ | hp)
        · exact .inl ⟨g, hg, .inl hb⟩
        · by_cases hall : ∀ g ∈ fs, ¬ Through f.1 g.1
          · exact .inr fun h => hp ⟨hall, h⟩
          · obtain ⟨g, hg, ht⟩ : ∃ g ∈ fs, Through f.1 g.1 := by simpa using hall
            exact .inl ⟨g, hg, .inr ht⟩

/-! ## What is at a path -/

/-- What is at a path: nothing, a map (`none`), or a leaf. -/
def look : List K → List (K × Trie K L) → Option (Option L)
  | [], _ => some none
  | k :: p, d =>
    match find k d with
    | none => none
    | some (.leaf l) => if p = [] then some (some l) else none
    | some (.node t) => look p t

/-- The same maps and the same leaves at every path, in whatever order the entries are. -/
def Same (d d' : List (K × Trie K L)) : Prop := ∀ p, look p d = look p d'

theorem look_insert_ne {k k' : K} (h : k' ≠ k) (t : Trie K L) (d : List (K × Trie K L)) (p : List K) :
    look (k :: p) (insert k' t d) = look (k :: p) d := by
  simp only [look, find_insert_ne h]

theorem Sub.look {k : K} {d t : List (K × Trie K L)} (h : Sub k d t) {p : List K} (hp : p ≠ []) :
    look (k :: p) d = look p t := by
  rcases h with hk | ⟨hk, rfl⟩
  · simp only [Trie.look, hk]
  · obtain ⟨k', p, rfl⟩ := List.exists_cons_of_ne_nil hp
    simp only [Trie.look, hk, find]

/-- What is at the paths after a leaf is placed at `q`: the leaf at `q`, nothing below it, maps above it, and what was
there elsewhere. -/
theorem look_place {q : List K} {l : L} {d d' : List (K × Trie K L)} (h : place q l d = some d') (p : List K) :
    look p d' =
      if p = q then some (some l) else if q <+: p then none else if p <+: q then some none else look p d := by
  induction q generalizing d d' p with
  | nil => cases h
  | cons k q ih =>
    cases p with
    | nil => simp [look]
    | cons k₀ p =>
      cases q with
      | nil =>
        obtain rfl : insert k (.leaf l) d = d' := Option.some.inj h
        by_cases hk : k = k₀
        · subst hk
          cases p <;> simp [look, List.cons_prefix_cons]
        · rw [look_insert_ne hk]
          simp [List.cons_prefix_cons, hk, Ne.symm hk]
      | cons k' q =>
        obtain ⟨t, t', ht', rfl, hsub⟩ := place_cons h
        by_cases hk : k = k₀
        · subst hk
          have hlook : look (k :: p) (insert k (.node t') d) = look p t' := by simp only [look, find_insert_self]
          rw [hlook, ih ht' p]
          simp only [List.cons.injEq, true_and, List.cons_prefix_cons]
          by_cases hp : p = []
          · subst hp
            simp
          · rw [hsub.look hp]
        · rw [look_insert_ne hk]
          simp [List.cons_prefix_cons, hk, Ne.symm hk]

/-- The tree has the leaves `fs`, the maps that lead to them, and nothing else. -/
structure Shows (fs : List (List K × L)) (d : List (K × Trie K L)) : Prop where
  leaf : ∀ f ∈ fs, look f.1 d = some (some f.2)
  node : ∀ p, p = [] ∨ (∃ f ∈ fs, Through p f.1) → look p d = some none
  empty : ∀ p, p ≠ [] → (∀ f ∈ fs, ¬ p <+: f.1) → look p d = none

/-- Every path is that of a leaf, leads to one, or leads nowhere. -/
theorem path_cases (fs : List (List K × L)) (p : List K) :
    (∃ f ∈ fs, f.1 = p) ∨ (p = [] ∨ ∃ f ∈ fs, Through p f.1) ∨ (p ≠ [] ∧ ∀ f ∈ fs, ¬ p <+: f.1) := by
  by_cases hleaf : ∃ f ∈ fs, f.1 = p
  · exact .inl hleaf
  by_cases hnode : p = [] ∨ ∃ f ∈ fs, Through p f.1
  · exact .inr (.inl hnode)
  · refine .inr (.inr ⟨fun hp => hnode (.inl hp), fun f hf hpre => hnode (.inr ⟨f, hf, hpre, ?_⟩)⟩)
    exact fun heq => hleaf ⟨f, hf, heq.symm⟩

theorem Shows.place {fs : List (List K × L)} {f : List K × L} {d d' : List (K × Trie K L)} (hs : Shows fs d)
    (hapart : Apart (fs ++ [f])) (hf : f.1 ≠ []) (h : place f.1 f.2 d = some d') : Shows (fs ++ [f]) d' := by
  have hlast : f ∈ fs ++ [f] := List.mem_append_right _ (List.mem_singleton_self f)
  have hold : ∀ g ∈ fs, g ∈ fs ++ [f] := fun g hg => List.mem_append_left _ hg
  refine ⟨?leaf, ?node, ?empty⟩
  case leaf =>
    intro g hg
    rw [look_place h]
    by_cases heq : g.1 = f.1
    · obtain rfl : g = f := hapart g hg f hlast (heq ▸ List.prefix_refl _)
      rw [if_pos rfl]
    · have hgf : ¬ g.1 <+: f.1 := fun hp => heq (congrArg Prod.fst (hapart g hg f hlast hp))
      have hfg : ¬ f.1 <+: g.1 := fun hp => heq (congrArg Prod.fst (hapart f hlast g hg hp)).symm
      rw [if_neg heq, if_neg hfg, if_neg hgf]
      refine hs.leaf g ((List.mem_append.mp hg).resolve_right fun hg => ?_)
      exact heq (congrArg Prod.fst (List.mem_singleton.mp hg))
  case node =>
    intro p hp
    have hbelow : ¬ f.1 <+: p := hapart.not_under hlast hf hp
    have hne : p ≠ f.1 := fun heq => hbelow (heq ▸ List.prefix_refl p)
    rw [look_place h, if_neg hne, if_neg hbelow]
    split
    · rfl
    · rename_i hnot
      refine hs.node p (hp.imp_right ?_)
      rintro ⟨g, hg, ht⟩
      refine ⟨g, (List.mem_append.mp hg).resolve_right fun hg => hnot ?_, ht⟩
      rw [← List.mem_singleton.mp hg]
      exact ht.1
  case empty =>
    intro p hp hnone
    have hpf : ¬ p <+: f.1 := hnone f hlast
    have hne : p ≠ f.1 := fun heq => hpf (heq ▸ List.prefix_refl p)
    rw [look_place h, if_neg hne]
    split
    · rfl
    · exact hs.empty p hp fun g hg => hnone g (hold g hg)

/-- Leaves whose paths are apart are placed one beside the other, also if some are placed again. -/
theorem placeAll_shows {fs : List (List K × L)} (hapart : Apart fs) (hne : ∀ f ∈ fs, f.1 ≠ []) :
    ∃ d, placeAll fs [] = some d ∧ Shows fs d := by
  induction fs using List.reverseRecOn with
  | nil =>
    refine ⟨[], rfl, List.forall_mem_nil _, ?_, ?_⟩
    · rintro p (rfl | ⟨f, hf, -⟩)
      · rfl
      · cases hf
    · intro p hp _
      obtain ⟨k, p, rfl⟩ := List.exists_cons_of_ne_nil hp
      rfl
  | append_singleton fs f ih =>
    have hlast : f ∈ fs ++ [f] := List.mem_append_right _ (List.mem_singleton_self f)
    obtain ⟨d, hd, hs⟩ := ih (fun g hg g' hg' => hapart g (List.mem_append_left _ hg) g' (List.mem_append_left _ hg'))
      fun g hg => hne g (List.mem_append_left _ hg)
    have hall : placeAll (fs ++ [f]) [] = Trie.place f.1 f.2 d := by
      rw [placeAll, List.foldlM_append, ← placeAll, hd]
      exact bind_pure (Trie.place f.1 f.2 d)
    -- no path leads through an earlier one
    have hsome : placeAll (fs ++ [f]) [] ≠ none := by
      rw [ne_eq, placeAll_eq_none_iff hne, not_or, not_not]
      refine ⟨fun ⟨g, _, hb⟩ => not_blocked_nil _ hb, ?_⟩
      exact List.pairwise_of_forall_mem_list fun g hg g' hg' => hapart.not_through hg hg'
    obtain ⟨d', hd'⟩ := Option.ne_none_iff_exists'.mp hsome
    exact ⟨d', hd', hs.place hapart (hne f hlast) (hall ▸ hd')⟩

theorem Shows.leaf_iff {fs : List (List K × L)} {d : List (K × Trie K L)} (h : Shows fs d) {p : List K} {l : L} :
    look p d = some (some l) ↔ (p, l) ∈ fs := by
  refine ⟨fun hl => ?_, fun hmem => h.leaf (p, l) hmem⟩
  rcases path_cases fs p with ⟨f, hf, rfl⟩ | hnode | ⟨hp, hnone⟩
  · cases (h.leaf f hf).symm.trans hl
    exact hf
  · cases (h.node p hnode).symm.trans hl
  · cases (h.empty p hp hnone).symm.trans hl

/-- A tree is determined by the set of its leaves. -/
theorem Shows.same {fs gs : List (List K × L)} {d d' : List (K × Trie K L)} (h : Shows fs d) (h' : Shows gs d')
    (hmem : ∀ f, f ∈ fs ↔ f ∈ gs) : Same d d' := by
  intro p
  rcases path_cases fs p with ⟨f, hf, rfl⟩ | hnode | ⟨hp, hnone⟩
  · rw [h.leaf f hf, h'.leaf f ((hmem f).mp hf)]
  · have hnode' : p = [] ∨ ∃ f ∈ gs, Through p f.1 :=
      hnode.imp_right fun ⟨f, hf, ht⟩ => ⟨f, (hmem f).mp hf, ht⟩
    rw [h.node p hnode, h'.node p hnode']
  · rw [h.empty p hp hnone, h'.empty p hp fun f hf => hnone f ((hmem f).mpr hf)]

end Trie
