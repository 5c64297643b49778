import RoadRunner.Lib.Traverse

/-!
# Depth-first walks without a set of visited nodes

A graph is given by `succ : α → List α`, the successors of a node in order, with repetitions where
an edge is there twice. A walk that keeps no set of visited nodes meets a node once for every route
to it, and does not come to an end where a route runs into a cycle. Both are made precise here, for
an arbitrary type of nodes.

* `Unfold.collect succ own n a`: the walk from `a` that gathers `own` of every node it meets, with
  `n` bounding its depth; `none` if it goes deeper.
* `Unfold.follow succ a r`: the node that the route `r` leads to, a route being the positions of the
  edges it takes.
* `Unfold.returns_iff_acyclic`: on finitely many nodes the walk comes to an end exactly if no cycle
  can be reached.
* `Unfold.collect_routes`: what the walk gathers is `own` of the end of each route, one after the
  other.
* `Unfold.count_eq_one_iff`: a value that one node alone has is gathered once exactly if there is one
  route to that node.
-/

namespace Unfold

universe u v

variable {α : Type u} {β : Type v} (succ : α → List α) (own : α → List β)

/-- The walk from a node, its depth bounded by the first argument. -/
def collect : Nat → α → Option (List β)
  | 0, _ => none
  | n + 1, a => ((succ a).mapM (collect n)).map fun found => own a ++ found.flatten

/-- The node at the end of a route. -/
def follow : α → List Nat → Option α
  | a, [] => some a
  | a, i :: r => ((succ a)[i]?).bind fun b => follow b r

/-- The edges of the graph, against their direction. -/
def Below (b a : α) : Prop := b ∈ succ a

/-- Some route leads from `a` to `b`. -/
def Reaches : α → α → Prop := Relation.ReflTransGen fun a b => b ∈ succ a

/-- The node lies on a cycle. -/
def Cyclic (a : α) : Prop := Relation.TransGen (fun a b => b ∈ succ a) a a

variable {succ own}

/-! ### Where the walk comes to an end -/

theorem collect_succ_eq_some_iff {n : Nat} {a : α} {found : List β} :
    collect succ own (n + 1) a = some found ↔
      ∃ parts, List.Forall₂ (fun b part => collect succ own n b = some part) (succ a) parts ∧
        own a ++ parts.flatten = found := by
  simp only [collect, Option.map_eq_some_iff, Traverse.mapM_eq_some_iff]

/-- A deeper bound changes nothing. -/
theorem collect_le {n m : Nat} (hnm : n ≤ m) {a : α} {found : List β}
    (h : collect succ own n a = some found) : collect succ own m a = some found := by
  induction n generalizing m a found with
  | zero => cases h
  | succ n ih =>
    obtain ⟨m, rfl⟩ : ∃ k, m = k + 1 := ⟨m - 1, by omega⟩
    rw [collect_succ_eq_some_iff] at h ⊢
    obtain ⟨parts, hparts, heq⟩ := h
    exact ⟨parts, hparts.imp fun b part hb => ih (by omega) hb, heq⟩

/-- One bound for all nodes of a list. -/
theorem exists_bound {as : List α} (h : ∀ a ∈ as, ∃ n found, collect succ own n a = some found) :
    ∃ n, ∀ a ∈ as, ∃ found, collect succ own n a = some found := by
  induction as with
  | nil => exact ⟨0, by simp⟩
  | cons a as ih =>
    obtain ⟨⟨n, found, hn⟩, has⟩ := List.forall_mem_cons.mp h
    obtain ⟨m, hm⟩ := ih has
    refine ⟨max n m, List.forall_mem_cons.mpr ⟨⟨found, collect_le (by omega) hn⟩, fun b hb => ?_⟩⟩
    obtain ⟨found', hb'⟩ := hm b hb
    exact ⟨found', collect_le (by omega) hb'⟩

theorem returns_iff_acc {a : α} :
    (∃ n found, collect succ own n a = some found) ↔ Acc (Below succ) a := by
  constructor
  · rintro ⟨n, found, h⟩
    induction n generalizing a found with
    | zero => cases h
    | succ n ih =>
      obtain ⟨parts, hparts, -⟩ := collect_succ_eq_some_iff.mp h
      refine Acc.intro a fun b hb => ?_
      have hall := Traverse.isSome_mapM_iff.mp (Option.isSome_of_mem (Traverse.mapM_eq_some_iff.mpr hparts))
      obtain ⟨part, hpart⟩ := Option.isSome_iff_exists.mp (hall b hb)
      exact ih part hpart
  · intro h
    induction h with
    | intro a _ ih =>
      obtain ⟨n, hn⟩ := exists_bound ih
      obtain ⟨parts, hparts⟩ := Option.isSome_iff_exists.mp
        (Traverse.isSome_mapM_iff.mpr fun b hb => Option.isSome_iff_exists.mpr (hn b hb))
      exact ⟨n + 1, _, collect_succ_eq_some_iff.mpr ⟨parts, Traverse.mapM_eq_some_iff.mp hparts, rfl⟩⟩

theorem not_rel_self_of_acc {r : α → α → Prop} {a : α} (h : Acc r a) : ¬ r a a := by
  induction h with
  | intro a _ ih => exact fun hr => ih a hr hr

theorem acc_of_reaches {a b : α} (ha : Acc (Below succ) a) (h : Reaches succ a b) : Acc (Below succ) b := by
  induction h with
  | refl => exact ha
  | tail _ hb ih => exact ih.inv hb

/-- On finitely many nodes, a node is accessible exactly if no cycle can be reached from it. -/
theorem acc_iff_acyclic [Finite α] {a : α} :
    Acc (Below succ) a ↔ ∀ b, Reaches succ a b → ¬ Cyclic succ b := by
  constructor
  · intro ha b hab hb
    have hacc : Acc (Relation.TransGen (Below succ)) b := (acc_of_reaches ha hab).transGen
    exact not_rel_self_of_acc hacc (Relation.transGen_swap.mp hb)
  · intro h
    -- the strict order "comes after, on a route from `a`" on the nodes that `a` reaches
    let after : α → α → Prop := fun y x => Reaches succ a x ∧ Relation.TransGen (fun x y => y ∈ succ x) x y
    have : IsTrans α after := ⟨fun z y x hz hy => ⟨hy.1, hy.2.trans hz.2⟩⟩
    have : Std.Irrefl after := ⟨fun x hx => h x hx.1 hx.2⟩
    have hwf : WellFounded after := Finite.wellFounded_of_trans_of_irrefl after
    have hacc : ∀ x, Reaches succ a x → Acc (Below succ) x := by
      intro x
      induction x using hwf.induction with
      | _ x ih =>
        intro hx
        exact Acc.intro x fun y hy => ih y ⟨hx, .single hy⟩ (hx.tail hy)
    exact hacc a .refl

theorem returns_iff_acyclic [Finite α] {a : α} :
    (∃ n found, collect succ own n a = some found) ↔ ∀ b, Reaches succ a b → ¬ Cyclic succ b :=
  returns_iff_acc.trans acc_iff_acyclic

/-- A walk that has come to an end has met no cycle. -/
theorem acyclic_of_collect [Finite α] (own : α → List β) (n : Nat) (a : α)
    (h : (collect succ own n a).isSome) (b : α) (hb : Reaches succ a b) : ¬ Cyclic succ b := by
  obtain ⟨found, hfound⟩ := Option.isSome_iff_exists.mp h
  exact returns_iff_acyclic.mp ⟨n, found, hfound⟩ b hb

/-! ### What the walk gathers -/

theorem follow_iff_reaches {a b : α} : (∃ r, follow succ a r = some b) ↔ Reaches succ a b := by
  constructor
  · rintro ⟨r, hr⟩
    induction r generalizing a with
    | nil =>
      obtain rfl : a = b := Option.some.inj hr
      exact .refl
    | cons i r ih =>
      obtain ⟨c, hc, hcb⟩ := Option.bind_eq_some_iff.mp hr
      exact .head (List.mem_of_getElem? hc) (ih hcb)
  · intro h
    induction h using Relation.ReflTransGen.head_induction_on with
    | refl => exact ⟨[], rfl⟩
    | head hac _ ih =>
      obtain ⟨i, hi⟩ := List.mem_iff_getElem?.mp hac
      obtain ⟨r, hr⟩ := ih
      exact ⟨i :: r, by rw [follow, hi]; exact hr⟩

variable (succ) in
/-- The node at the end of a route whose first step chooses one of the nodes `as`. -/
def enter (as : List α) : List Nat → Option α
  | [] => none
  | i :: r => (as[i]?).bind fun b => follow succ b r

/-- A route that enters at the next node. -/
def later : List Nat → List Nat
  | [] => []
  | i :: r => (i + 1) :: r

variable (own) in
/-- `routes` are the routes that `walk` can take, each once, and `found` is `own` of the end of each. -/
structure Gathers (walk : List Nat → Option α) (routes : List (List Nat)) (found : List β) : Prop where
  nodup : routes.Nodup
  mem : ∀ r, r ∈ routes ↔ ∃ b, walk r = some b
  found_eq : found = routes.flatMap fun r => (walk r).elim [] own

/-- A route that enters a list takes a step. -/
theorem Gathers.cons_of_mem {as : List α} {routes : List (List Nat)} {found : List β}
    (h : Gathers own (enter succ as) routes found) {r : List Nat} (hr : r ∈ routes) : ∃ i q, r = i :: q := by
  obtain ⟨c, hc⟩ := (h.mem r).mp hr
  cases r with
  | nil => cases hc
  | cons i q => exact ⟨i, q, rfl⟩

theorem Gathers.enter_nil : Gathers own (enter succ []) [] [] := by
  refine ⟨List.nodup_nil, fun r => ?_, rfl⟩
  cases r <;> simp [enter]

/-- The routes that enter at the first node of a list, and those that enter later. -/
theorem Gathers.enter_cons {b : α} {as : List α} {first others : List (List Nat)} {part rest : List β}
    (hb : Gathers own (follow succ b) first part) (has : Gathers own (enter succ as) others rest) :
    Gathers own (enter succ (b :: as)) (first.map (0 :: ·) ++ others.map later) (part ++ rest) where
  nodup := by
    refine List.Nodup.append ?_ ?_ ?_
    · exact hb.nodup.map fun x y hxy => (List.cons.inj hxy).2
    · refine has.nodup.map_on fun x hx y hy hxy => ?_
      obtain ⟨i, q, rfl⟩ := has.cons_of_mem hx
      obtain ⟨j, p, rfl⟩ := has.cons_of_mem hy
      simpa [later] using hxy
    · intro r hr hr'
      obtain ⟨q, -, rfl⟩ := List.mem_map.mp hr
      obtain ⟨y, hy, hyr⟩ := List.mem_map.mp hr'
      obtain ⟨i, p, rfl⟩ := has.cons_of_mem hy
      simp [later] at hyr
  mem r := by
    rw [List.mem_append, List.mem_map, List.mem_map]
    constructor
    · rintro (⟨q, hq, rfl⟩ | ⟨y, hy, rfl⟩)
      · exact (hb.mem q).mp hq
      · obtain ⟨i, p, rfl⟩ := has.cons_of_mem hy
        exact (has.mem _).mp hy
    · rintro ⟨c, hc⟩
      match r, hc with
      | 0 :: q, hc => exact Or.inl ⟨q, (hb.mem q).mpr ⟨c, hc⟩, rfl⟩
      | (i + 1) :: q, hc => exact Or.inr ⟨i :: q, (has.mem _).mpr ⟨c, hc⟩, rfl⟩
  found_eq := by
    rw [hb.found_eq, has.found_eq, List.flatMap_append, List.flatMap_map, List.flatMap_map]
    congr 1
    refine List.flatMap_congr fun r hr => ?_
    obtain ⟨i, p, rfl⟩ := has.cons_of_mem hr
    rfl

/-- The empty route comes first, then those that enter a successor. -/
theorem Gathers.follow {a : α} {routes : List (List Nat)} {found : List β}
    (h : Gathers own (enter succ (succ a)) routes found) :
    Gathers own (follow succ a) ([] :: routes) (own a ++ found) where
  nodup := by
    refine List.nodup_cons.mpr ⟨fun hr => ?_, h.nodup⟩
    obtain ⟨i, q, hnil⟩ := h.cons_of_mem hr
    cases hnil
  mem r := by
    cases r with
    | nil => simp [Unfold.follow]
    | cons i r =>
      rw [List.mem_cons, or_iff_right (List.cons_ne_nil i r), h.mem]
      rfl
  found_eq := by
    rw [List.flatMap_cons, h.found_eq]
    congr 1
    refine List.flatMap_congr fun r hr => ?_
    obtain ⟨i, q, rfl⟩ := h.cons_of_mem hr
    rfl

theorem exists_gathers_enter {as : List α} {parts : List (List β)}
    (h : List.Forall₂ (fun b part => ∃ routes, Gathers own (follow succ b) routes part) as parts) :
    ∃ routes, Gathers own (enter succ as) routes parts.flatten := by
  induction h with
  | nil => exact ⟨[], .enter_nil⟩
  | cons hb _ ih =>
    obtain ⟨first, hfirst⟩ := hb
    obtain ⟨others, hothers⟩ := ih
    exact ⟨_, hfirst.enter_cons hothers⟩

/-- The walk gathers `own` at the end of each route, and takes every route once. -/
theorem collect_routes {n : Nat} {a : α} {found : List β} (h : collect succ own n a = some found) :
    ∃ routes, Gathers own (follow succ a) routes found := by
  induction n generalizing a found with
  | zero => cases h
  | succ n ih =>
    obtain ⟨parts, hparts, rfl⟩ := collect_succ_eq_some_iff.mp h
    obtain ⟨routes, hroutes⟩ := exists_gathers_enter (hparts.imp fun b part hb => ih hb)
    exact ⟨_, hroutes.follow⟩

theorem mem_collect {n : Nat} {a : α} {found : List β} (h : collect succ own n a = some found) {x : β} :
    x ∈ found ↔ ∃ b, Reaches succ a b ∧ x ∈ own b := by
  obtain ⟨routes, -, hmem, rfl⟩ := collect_routes h
  rw [List.mem_flatMap]
  constructor
  · rintro ⟨r, hr, hx⟩
    obtain ⟨b, hb⟩ := (hmem r).mp hr
    rw [hb] at hx
    exact ⟨b, follow_iff_reaches.mp ⟨r, hb⟩, hx⟩
  · rintro ⟨b, hb, hx⟩
    obtain ⟨r, hr⟩ := follow_iff_reaches.mpr hb
    exact ⟨r, (hmem r).mpr ⟨b, hr⟩, by rw [hr]; exact hx⟩

/-- In a list without repetitions, one element meets a condition exactly if it is met and all that meet
it are equal. -/
theorem countP_eq_one_iff {l : List α} (hl : l.Nodup) {p : α → Bool} (hp : ∃ x ∈ l, p x) :
    l.countP p = 1 ↔ ∀ x ∈ l, ∀ y ∈ l, p x → p y → x = y := by
  rw [List.countP_eq_length_filter, List.length_eq_one_iff]
  constructor
  · rintro ⟨z, hz⟩ x hx y hy hpx hpy
    have hx' : x ∈ [z] := hz ▸ List.mem_filter.mpr ⟨hx, hpx⟩
    have hy' : y ∈ [z] := hz ▸ List.mem_filter.mpr ⟨hy, hpy⟩
    rw [List.mem_singleton.mp hx', List.mem_singleton.mp hy']
  · intro h
    obtain ⟨x, hx, hpx⟩ := hp
    have hsame : ∀ y ∈ l.filter p, y = x := fun y hy =>
      h y (List.mem_filter.mp hy).1 x hx (List.mem_filter.mp hy).2 hpx
    have hxf : x ∈ l.filter p := List.mem_filter.mpr ⟨hx, hpx⟩
    have hnodup : (l.filter p).Nodup := hl.filter p
    generalize l.filter p = f at hsame hxf hnodup
    match f, hsame, hxf, hnodup with
    | [y], hsame, _, _ => exact ⟨y, rfl⟩
    | y :: z :: f, hsame, _, hnodup =>
      have hyz : y = z := (hsame y (by simp)).trans (hsame z (by simp)).symm
      simp [hyz] at hnodup

theorem count_flatMap_eq_countP [DecidableEq β] {l : List α} {g : α → List β} {p : α → Bool} {x : β}
    (h : ∀ a ∈ l, (g a).count x = if p a then 1 else 0) : (l.flatMap g).count x = l.countP p := by
  induction l with
  | nil => rfl
  | cons a l ih =>
    obtain ⟨ha, hl⟩ := List.forall_mem_cons.mp h
    rw [List.flatMap_cons, List.count_append, ha, ih hl, List.countP_cons, Nat.add_comm]

/-- The walk gathers `x` as often as there are routes to the one node that has it. -/
theorem count_eq_one_iff [DecidableEq β] {n : Nat} {a b : α} {found : List β} {x : β}
    (h : collect succ own n a = some found) (hab : Reaches succ a b) (hx : (own b).count x = 1)
    (hother : ∀ c, Reaches succ a c → x ∈ own c → c = b) :
    found.count x = 1 ↔ ∀ r r', follow succ a r = some b → follow succ a r' = some b → r = r' := by
  classical
  obtain ⟨routes, hnodup, hmem, rfl⟩ := collect_routes h
  have hcount : ∀ r ∈ routes, ((follow succ a r).elim [] own).count x =
      if decide (follow succ a r = some b) = true then 1 else 0 := by
    intro r hr
    obtain ⟨c, hc⟩ := (hmem r).mp hr
    rw [hc]
    by_cases hcb : c = b
    · simpa [hcb] using hx
    · have hxc : x ∉ own c := fun hxc => hcb (hother c (follow_iff_reaches.mp ⟨r, hc⟩) hxc)
      simpa [hcb] using List.count_eq_zero.mpr hxc
  rw [count_flatMap_eq_countP hcount, countP_eq_one_iff hnodup]
  · simp only [decide_eq_true_eq]
    constructor
    · intro huniq r r' hr hr'
      exact huniq r ((hmem r).mpr ⟨b, hr⟩) r' ((hmem r').mpr ⟨b, hr'⟩) hr hr'
    · intro huniq r _ r' _ hr hr'
      exact huniq r r' hr hr'
  · obtain ⟨r, hr⟩ := follow_iff_reaches.mpr hab
    exact ⟨r, (hmem r).mpr ⟨b, hr⟩, decide_eq_true hr⟩

end Unfold
