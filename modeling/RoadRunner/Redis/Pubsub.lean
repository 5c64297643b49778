import RoadRunner.Basic
import RoadRunner.Lib.Interleave

/-!
# The Redis pub/sub driver

The model of `Subscribe` and `Unsubscribe` of `redis/pubsub/pubsub.go`, as calls that run side by side.
Redis has a set of connection ids for each topic, which all nodes share, and the node has one channel that
is subscribed to topics. Each command is one step, and no command fails.

`Subscribe` adds the connection to the sets and then subscribes the channel. `Unsubscribe` takes it out
of the sets and then, for each topic, asks whether the set is gone and, if so, drops the topic from the
channel: two steps, with no lock around them.

* `EndsWell`: the calls in progress can return so that the state is `Ok`; in a state without calls that
  is `Ok` itself (`endsWell_quiet_iff`). `endsWell_iff_kept`: it can be read off the state.
* `endsWell_iff_undropped`: along a run it holds in every state exactly if no `Subscribe` ends while the
  drop of one of its topics, decided before, is still to come.
-/

namespace RoadRunner.Redis

open Update

/-- The sets of the topics, as pairs of a topic and a connection, and the topics of the node's channel. -/
structure Server where
  sets : Finset (Bytes × Bytes)
  subscribed : Finset Bytes
  deriving DecidableEq

/-- A call in progress, by the command it sends next. -/
inductive Progress where
  /-- `Subscribe`: `SADD` to the set of the next topic of `todo`; then `SUBSCRIBE` to all. -/
  | adding (conn : Bytes) (added todo : List Bytes)
  /-- `Unsubscribe`: `SREM` from the set of the next topic of `todo`; then the second loop. -/
  | removing (conn : Bytes) (removed todo : List Bytes)
  /-- `Unsubscribe`: `EXISTS` of the next topic. -/
  | checking (todo : List Bytes)
  /-- `Unsubscribe`: `UNSUBSCRIBE` from the topic, whose set was gone. -/
  | dropping (topic : Bytes) (todo : List Bytes)
  | returned
  deriving DecidableEq

namespace Progress

/-- The next command of a call. -/
def step (s : Server) : Progress → Server × Progress
  | adding conn added (topic :: todo) =>
    ({ s with sets := insert (topic, conn) s.sets }, adding conn (added ++ [topic]) todo)
  | adding _ added [] => ({ s with subscribed := s.subscribed ∪ added.toFinset }, returned)
  | removing conn removed (topic :: todo) =>
    ({ s with sets := s.sets.erase (topic, conn) }, removing conn (removed ++ [topic]) todo)
  | removing _ removed [] => (s, checking removed)
  | checking (topic :: todo) =>
    if ∃ p ∈ s.sets, p.1 = topic then (s, checking todo) else (s, dropping topic todo)
  | checking [] => (s, returned)
  | dropping topic todo => ({ s with subscribed := s.subscribed.erase topic }, checking todo)
  | returned => (s, returned)

/-- How many steps are left at most. -/
def left : Progress → Nat
  | adding _ _ todo => todo.length + 1
  | removing _ removed todo => 2 * removed.length + 3 * todo.length + 2
  | checking todo => 2 * todo.length + 1
  | dropping _ todo => 2 * todo.length + 2
  | returned => 0

theorem left_step (s : Server) (p : Progress) (h : p ≠ returned) : (p.step s).2.left < p.left := by
  match p with
  | adding conn added (topic :: todo) => simp [step, left]
  | adding conn added [] => simp [step, left]
  | removing conn removed (topic :: todo) =>
    simp [step, left]
    omega
  | removing conn removed [] => simp [step, left]
  | checking (topic :: todo) =>
    rw [step]
    split
    · simp [left]
    · simp [left]
      omega
  | checking [] => simp [step, left]
  | dropping topic todo => simp [step, left]
  | returned => exact absurd rfl h

/-- The call has still to subscribe the channel to the topic. -/
def Subscribes (topic : Bytes) : Progress → Prop
  | adding _ added todo => topic ∈ added ∨ topic ∈ todo
  | _ => False

/-- The call has still to take the connection out of the set of the topic. -/
def Removes (conn topic : Bytes) : Progress → Prop
  | removing conn' _ todo => conn' = conn ∧ topic ∈ todo
  | _ => False

/-- The call has found the set of the topic gone, and drops it. -/
def Drops (topic : Bytes) : Progress → Prop
  | dropping topic' _ => topic' = topic
  | _ => False

end Progress

open Progress

/-- The server and the calls of the node. -/
abbrev State := Interleave.State Server Progress

/-- A call is made, or the `n`-th call sends its next command. -/
inductive Move where
  | subscribe (conn : Bytes) (topics : List Bytes)
  | unsubscribe (conn : Bytes) (topics : List Bytes)
  | next (n : Nat)

/-- One step of the node. -/
def step (st : State) : Move → State
  | .subscribe conn topics => { st with procs := st.procs ++ [adding conn [] topics] }
  | .unsubscribe conn topics => { st with procs := st.procs ++ [removing conn [] topics] }
  | .next n => Interleave.next Progress.step st n

/-- The calls in progress send their commands, in some order. -/
def finish (st : State) (ns : List Nat) : State := Interleave.finish Progress.step st ns

/-- No call is in progress. -/
def Quiet (st : State) : Prop := ∀ p ∈ st.procs, p = returned

instance (st : State) : Decidable (Quiet st) := inferInstanceAs (Decidable (∀ p ∈ st.procs, p = returned))

section

variable (node : Bytes → Bool)

/-- The state before the first call: the sets have connections of other nodes only. -/
def State.init (others : Finset (Bytes × Bytes)) : State := ⟨⟨others.filter fun p => node p.2 = false, ∅⟩, []⟩

/-- The channel is subscribed to every topic whose set has a connection of this node. -/
def Ok (st : State) : Prop := ∀ p ∈ st.shared.sets, node p.2 = true → p.1 ∈ st.shared.subscribed

instance (st : State) : Decidable (Ok node st) :=
  inferInstanceAs (Decidable (∀ p ∈ st.shared.sets, node p.2 = true → p.1 ∈ st.shared.subscribed))

/-- The calls in progress can return so that the state is `Ok`. -/
def EndsWell (st : State) : Prop := ∃ ns, Quiet (finish st ns) ∧ Ok node (finish st ns)

/-- What keeps the topic of a connection: the connection is about to leave it, it is about to be
subscribed to, or it is, and no call is about to drop it. -/
def KeptAt (st : State) (topic conn : Bytes) : Prop :=
  (∃ p ∈ st.procs, p.Removes conn topic) ∨ (∃ p ∈ st.procs, p.Subscribes topic) ∨
    (topic ∈ st.shared.subscribed ∧ ¬ ∃ p ∈ st.procs, p.Drops topic)

/-- Every subscription of a connection of the node is kept. -/
def Kept (st : State) : Prop :=
  ∀ topic conn, (topic, conn) ∈ st.shared.sets → node conn = true → KeptAt st topic conn

/-- No `Subscribe` ends that is the last to subscribe to a topic with a connection that stays, while a call
is about to drop the topic. -/
def Undropped (st : State) : Move → Prop
  | .next n => ∀ conn added, st.procs[n]? = some (adding conn added []) → ∀ topic ∈ added,
      (∃ p ∈ st.procs, p.Drops topic) → ∀ conn', (topic, conn') ∈ st.shared.sets → node conn' = true →
        (∃ p ∈ st.procs, p.Removes conn' topic) ∨ Elsewhere st.procs n (Subscribes topic)
  | _ => True

variable {node} {st : State} {n : Nat}

/-! ### One command -/

theorem keptAt_iff {p : Progress} (hp : st.procs[n]? = some p) {topic conn : Bytes} :
    KeptAt st topic conn ↔
      (p.Removes conn topic ∨ Elsewhere st.procs n (Removes conn topic)) ∨
        (p.Subscribes topic ∨ Elsewhere st.procs n (Subscribes topic)) ∨
        (topic ∈ st.shared.subscribed ∧ ¬ (p.Drops topic ∨ Elsewhere st.procs n (Drops topic))) := by
  rw [KeptAt, exists_iff_elsewhere hp, exists_iff_elsewhere hp, exists_iff_elsewhere hp]

theorem keptAt_next_iff {p : Progress} (hp : st.procs[n]? = some p) {topic conn : Bytes} :
    KeptAt (Interleave.next Progress.step st n) topic conn ↔
      ((p.step st.shared).2.Removes conn topic ∨ Elsewhere st.procs n (Removes conn topic)) ∨
        ((p.step st.shared).2.Subscribes topic ∨ Elsewhere st.procs n (Subscribes topic)) ∨
        (topic ∈ (p.step st.shared).1.subscribed ∧
          ¬ ((p.step st.shared).2.Drops topic ∨ Elsewhere st.procs n (Drops topic))) := by
  rw [Interleave.next_of_some hp, KeptAt, exists_set_iff hp, exists_set_iff hp, exists_set_iff hp]

/-- Every command but a `SUBSCRIBE` keeps what is kept. -/
theorem kept_next {p : Progress} (hp : st.procs[n]? = some p) (hsub : ∀ conn added, p ≠ adding conn added [])
    (h : Kept node st) : Kept node (Interleave.next Progress.step st n) := by
  intro topic conn hmem hnode
  rw [keptAt_next_iff hp]
  rw [Interleave.next_of_some hp] at hmem
  have hold : (topic, conn) ∈ st.shared.sets → _ := fun hmem => (keptAt_iff hp).mp (h topic conn hmem hnode)
  match p with
  | adding conn' added (topic' :: todo) =>
    simp only [Progress.step, Finset.mem_insert, Prod.mk.injEq] at hmem
    simp only [Progress.step, Removes, Subscribes, Drops, List.mem_append, List.mem_cons] at hold ⊢
    grind
  | adding conn' added [] => exact absurd rfl (hsub conn' added)
  | removing conn' removed (topic' :: todo) =>
    simp only [Progress.step, Finset.mem_erase, ne_eq, Prod.mk.injEq] at hmem
    simp only [Progress.step, Removes, Subscribes, Drops, List.mem_cons] at hold ⊢
    grind
  | removing conn' removed [] =>
    simp only [Progress.step] at hmem
    simp only [Progress.step, Removes, Subscribes, Drops, List.not_mem_nil] at hold ⊢
    grind
  | checking (topic' :: todo) =>
    rw [Progress.step] at hmem ⊢
    split at hmem
    · rename_i hex
      simp only [if_pos hex, Removes, Subscribes, Drops] at hold ⊢
      exact hold hmem
    · rename_i hex
      -- the set of the topic is gone, so it is not the one that is dropped
      have hne : topic' ≠ topic := fun heq => hex ⟨_, hmem, heq.symm⟩
      simp only [if_neg hex, Removes, Subscribes, Drops, hne] at hold ⊢
      exact hold hmem
  | checking [] => exact hold hmem
  | dropping topic' todo =>
    simp only [Progress.step] at hmem
    simp only [Progress.step, Removes, Subscribes, Drops, Finset.mem_erase] at hold ⊢
    grind
  | returned => exact hold hmem

section Subscribe

variable {conn : Bytes} {added : List Bytes} (hp : st.procs[n]? = some (adding conn added []))

include hp

theorem keptAt_subscribe_iff (topic conn' : Bytes) :
    KeptAt (Interleave.next Progress.step st n) topic conn' ↔
      Elsewhere st.procs n (Removes conn' topic) ∨ Elsewhere st.procs n (Subscribes topic) ∨
        ((topic ∈ st.shared.subscribed ∨ topic ∈ added) ∧ ¬ Elsewhere st.procs n (Drops topic)) := by
  rw [keptAt_next_iff hp]
  simp only [Progress.step, Removes, Subscribes, Drops, false_or, Finset.mem_union, List.mem_toFinset]

theorem undropped_subscribe_iff : Undropped node st (.next n) ↔ ∀ topic ∈ added,
    Elsewhere st.procs n (Drops topic) → ∀ conn', (topic, conn') ∈ st.shared.sets → node conn' = true →
      Elsewhere st.procs n (Removes conn' topic) ∨ Elsewhere st.procs n (Subscribes topic) := by
  simp only [Undropped, hp, Option.some.injEq, adding.injEq, and_true, exists_iff_elsewhere hp, Removes, Drops,
    false_or]
  constructor
  · intro h
    exact h conn added ⟨rfl, rfl⟩
  · rintro h _ _ ⟨rfl, rfl⟩
    exact h

/-- A `SUBSCRIBE` keeps what is kept exactly if none of its topics is about to be dropped. -/
theorem kept_subscribe_iff (h : Kept node st) :
    Kept node (Interleave.next Progress.step st n) ↔ Undropped node st (.next n) := by
  have hsets : (Interleave.next Progress.step st n).shared.sets = st.shared.sets := by
    rw [Interleave.next_of_some hp]
    rfl
  rw [undropped_subscribe_iff hp]
  simp only [Kept, hsets, keptAt_subscribe_iff hp]
  constructor
  · intro hkept topic _ hdrop conn' hmem hnode
    have := hkept topic conn' hmem hnode
    tauto
  · intro hund topic conn' hmem hnode
    have hold := (keptAt_iff hp).mp (h topic conn' hmem hnode)
    simp only [Removes, Subscribes, Drops, List.not_mem_nil, or_false, false_or] at hold
    by_cases hadded : topic ∈ added
    · by_cases hdrop : Elsewhere st.procs n (Drops topic)
      · have hstays := hund topic hadded hdrop conn' hmem hnode
        tauto
      · exact .inr (.inr ⟨.inr hadded, hdrop⟩)
    · tauto

end Subscribe

/-- A call that is made changes neither the sets nor the topics of the channel, and drops nothing. -/
theorem kept_call {p : Progress} (hp : ∀ topic, ¬ p.Drops topic) (h : Kept node st) :
    Kept node { st with procs := st.procs ++ [p] } := by
  intro topic conn hmem hnode
  have hold := h topic conn hmem hnode
  have hdrops := hp topic
  simp only [KeptAt, List.mem_append, List.mem_singleton, or_and_right, exists_or, exists_eq_left] at hold ⊢
  rcases hold with hr | hs | ⟨hsub, hnone⟩
  · exact .inl (.inl hr)
  · exact .inr (.inl (.inl hs))
  · exact .inr (.inr ⟨hsub, fun hd => hd.elim hnone hdrops⟩)

/-- One step of the node. -/
theorem kept_step_iff (h : Kept node st) (a : Move) : Kept node (step st a) ↔ Undropped node st a := by
  match a with
  | .subscribe conn topics => exact iff_of_true (kept_call (fun _ h => h) h) trivial
  | .unsubscribe conn topics => exact iff_of_true (kept_call (fun _ h => h) h) trivial
  | .next n =>
    show Kept node (Interleave.next Progress.step st n) ↔ _
    by_cases hsub : ∃ conn added, st.procs[n]? = some (adding conn added [])
    · obtain ⟨conn, added, hp⟩ := hsub
      exact kept_subscribe_iff hp h
    · refine iff_of_true ?_ fun conn added hp => absurd ⟨conn, added, hp⟩ hsub
      cases hp : st.procs[n]? with
      | none =>
        rw [Interleave.next_of_none hp]
        exact h
      | some p => exact kept_next hp (fun conn added heq => hsub ⟨conn, added, heq ▸ hp⟩) h

/-! ### The calls return -/

/-- The channel misses the topic of a connection of the node, and no call will change that. -/
def Lost (topic conn : Bytes) (st : State) : Prop := (topic, conn) ∈ st.shared.sets ∧ ¬ KeptAt st topic conn

theorem lost_next {topic conn : Bytes} (n : Nat) (h : Lost topic conn st) :
    Lost topic conn (Interleave.next Progress.step st n) := by
  cases hp : st.procs[n]? with
  | none =>
    rw [Interleave.next_of_none hp]
    exact h
  | some p =>
    obtain ⟨hmem, hlost⟩ := h
    rw [Lost, keptAt_next_iff hp, Interleave.next_of_some hp]
    rw [keptAt_iff hp] at hlost
    match p with
    | adding conn' added (topic' :: todo) =>
      simp only [Progress.step, Removes, Subscribes, Drops, Finset.mem_insert, List.mem_append, List.mem_cons]
        at hlost ⊢
      grind
    | adding conn' added [] =>
      simp only [Progress.step, Removes, Subscribes, Drops, Finset.mem_union, List.mem_toFinset] at hlost ⊢
      grind
    | removing conn' removed (topic' :: todo) =>
      simp only [Progress.step, Removes, Subscribes, Drops, Finset.mem_erase, List.mem_cons] at hlost ⊢
      grind
    | removing conn' removed [] =>
      simp only [Progress.step, Removes, Subscribes, Drops] at hlost ⊢
      grind
    | checking (topic' :: todo) =>
      rw [Progress.step]
      split <;> simp only [Removes, Subscribes, Drops] at hlost ⊢ <;> tauto
    | checking [] => exact ⟨hmem, hlost⟩
    | dropping topic' todo =>
      simp only [Progress.step, Removes, Subscribes, Drops, Finset.mem_erase] at hlost ⊢
      grind
    | returned => exact ⟨hmem, hlost⟩

theorem keptAt_of_quiet (h : Quiet st) (topic conn : Bytes) :
    KeptAt st topic conn ↔ topic ∈ st.shared.subscribed := by
  have hnone : ∀ q : Progress → Prop, ¬ q returned → ¬ ∃ p ∈ st.procs, q p := by
    rintro q hq ⟨p, hp, hqp⟩
    exact hq (h p hp ▸ hqp)
  rw [KeptAt, or_iff_right (hnone _ id), or_iff_right (hnone _ id), and_iff_left (hnone _ id)]

/-- Without calls in progress, that the topics are kept is that the channel is subscribed to them. -/
theorem kept_of_quiet (h : Quiet st) : Kept node st ↔ Ok node st := by
  constructor
  · intro hkept p hp hnode
    exact (keptAt_of_quiet h p.1 p.2).mp (hkept p.1 p.2 hp hnode)
  · intro hok topic conn hmem hnode
    exact (keptAt_of_quiet h topic conn).mpr (hok (topic, conn) hmem hnode)

/-- Some call can send its command and all stays kept: every other command comes before a `SUBSCRIBE`. -/
theorem exists_kept_next (h : Kept node st) (hcalls : ∃ p ∈ st.procs, p ≠ returned) :
    ∃ n p, st.procs[n]? = some p ∧ p ≠ returned ∧ Kept node (Interleave.next Progress.step st n) := by
  by_cases hfirst : ∃ p ∈ st.procs, p ≠ returned ∧ ∀ conn added, p ≠ adding conn added []
  · obtain ⟨p, hmem, hp, hsub⟩ := hfirst
    obtain ⟨n, hn⟩ := List.mem_iff_getElem?.mp hmem
    exact ⟨n, p, hn, hp, kept_next hn hsub h⟩
  · push Not at hfirst
    obtain ⟨p, hmem, hp⟩ := hcalls
    obtain ⟨conn, added, rfl⟩ := hfirst p hmem hp
    obtain ⟨n, hn⟩ := List.mem_iff_getElem?.mp hmem
    refine ⟨n, _, hn, hp, (kept_subscribe_iff hn h).mpr ?_⟩
    -- every call that is left is a `Subscribe`, so nothing is about to be dropped
    rintro - - - topic - ⟨q, hq, hdrops⟩
    by_cases hret : q = returned
    · subst hret
      exact hdrops.elim
    · obtain ⟨conn', added', rfl⟩ := hfirst q hq hret
      exact hdrops.elim

theorem endsWell_iff_kept : EndsWell node st ↔ Kept node st := by
  constructor
  · rintro ⟨ns, hquiet, hok⟩ topic conn hmem hnode
    by_contra hlost
    obtain ⟨hmem', hlost'⟩ : Lost topic conn (finish st ns) :=
      Run.exec_invariant (fun st n h => lost_next n h) ns ⟨hmem, hlost⟩
    exact hlost' ((keptAt_of_quiet hquiet topic conn).mpr (hok _ hmem' hnode))
  · intro h
    obtain ⟨ns, hkept, hquiet⟩ := Interleave.exists_finish left_step
      (fun st hst hcalls => exists_kept_next hst hcalls) h
    exact ⟨ns, hquiet, (kept_of_quiet hquiet).mp hkept⟩

/-- Without calls in progress, to end well is that the channel is subscribed. -/
theorem endsWell_quiet_iff (h : Quiet st) : EndsWell node st ↔ Ok node st :=
  endsWell_iff_kept.trans (kept_of_quiet h)

/-! ### Runs -/

theorem kept_init (others : Finset (Bytes × Bytes)) : Kept node (State.init node others) := by
  intro topic conn hmem hnode
  have hfalse : node conn = false := (Finset.mem_filter.mp hmem).2
  rw [hnode] at hfalse
  cases hfalse

/-- In every state of a run the calls in progress can return with the channel subscribed to the topics of
the node's connections (and is subscribed, when there are none) exactly if no `Subscribe` of the run
ends before a drop of its topic that was decided before. -/
theorem endsWell_iff_undropped (node : Bytes → Bool) (others : Finset (Bytes × Bytes)) (moves : List Move) :
    ((∀ bs cs, moves = bs ++ cs → EndsWell node (Run.exec step (State.init node others) bs)) ↔
      Run.Along step (Undropped node) (State.init node others) moves) ∧
    ∀ st, Quiet st → (EndsWell node st ↔ Ok node st) := by
  refine ⟨?_, fun st h => endsWell_quiet_iff h⟩
  simp only [endsWell_iff_kept]
  refine Run.Along.always_iff (I := fun _ => True) ?_ ?_ trivial (kept_init others)
  · intro st a _ hkept hund
    exact ⟨trivial, (kept_step_iff hkept a).mpr hund⟩
  · intro st a _ hkept hkept'
    exact (kept_step_iff hkept a).mp hkept'

end

/-- One connection leaves a topic and another joins it: the set is found gone, the other connection is
added and the channel subscribed, and then the channel is unsubscribed. -/
def rejoin (topic conn₁ conn₂ : Bytes) : List Move :=
  [.subscribe conn₁ [topic], .next 0, .next 0,
   .unsubscribe conn₁ [topic], .next 1, .next 1, .next 1,
   .subscribe conn₂ [topic], .next 2, .next 2,
   .next 1, .next 1]

/-- No call is in progress, the set of the topic has the second connection, and the channel is not
subscribed to it. -/
theorem rejoin_not_subscribed :
    let st := Run.exec step (State.init (fun _ => true) ∅) (rejoin [110] [1] [2])
    Quiet st ∧ st.shared.sets = {([110], [2])} ∧ st.shared.subscribed = ∅ ∧ ¬ Ok (fun _ => true) st := by
  decide

end RoadRunner.Redis
