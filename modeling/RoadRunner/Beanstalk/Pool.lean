import RoadRunner.Basic
import RoadRunner.Lib.Guarded

/-!
# The connections of the beanstalk driver

`ConnPool` of `beanstalk/beanstalkjobs/connection.go`, for any number of `Put`, `Reserve`, `Delete`, `Stats` and `Stop`
calls side by side. A call that meets a broken connection gives its read lock back, dials two new connections with the
write lock, takes the read lock again and tries once more. `redial` does not close the connections it replaces.

* `ConnPool`: the four fields, each with the number of the dial that its connection is from, and the connections that
  are open.
* `calls_safe`: an attempt sees fields of one dial, a second attempt is on connections of a later dial than the first,
  and all calls can return.
* `replaced_stay_open`: a connection that is open and was replaced is never closed.
-/

namespace RoadRunner.Beanstalk.Pool

open Guarded (Hold)

/-- `connT` is for the tube, `connTS` for the tube set and for all else. -/
inductive Side where
  | tube
  | tubeSet
  deriving DecidableEq

/-- The fields of `ConnPool` that `redial` stores. -/
inductive Field where
  | t
  | ts
  | conn
  | connT
  deriving DecidableEq

/-- `ConnPool`, and the connections that it has dialled. -/
structure ConnPool where
  /-- The dial that the connection of a field is from. -/
  fields : Field → Nat := fun _ => 0
  /-- The number of the next dial. -/
  next : Nat := 1
  /-- The connections that are open. -/
  opened : List (Nat × Side) := [(0, .tube), (0, .tubeSet)]

/-- The calls that use a connection. -/
inductive Op where
  | put
  | reserve
  | delete
  | stats
  deriving DecidableEq

/-- The field that a call uses. -/
def Op.field : Op → Field
  | put => .t
  | reserve => .ts
  | delete | stats => .conn

/-- What the server, or a dial, answers. -/
inductive World where
  | ok
  /-- An error that `checkAndRedial` returns. -/
  | refused
  /-- A `net.OpError` or `EOF`. -/
  | broken
  /-- The first dial of a try fails. -/
  | noTube
  /-- The second one fails. -/
  | noTubeSet
  | dialed
  /-- The back-off has come to its end. -/
  | gaveUp
  deriving DecidableEq

/-- Where a call is. -/
inductive Phase where
  /-- Before `RLock`. -/
  | called (op : Op)
  /-- With the read lock, before an attempt; `tried` are the dials of the attempts so far. -/
  | trying (op : Op) (tried : List Nat)
  /-- With the read lock, before the deferred `RUnlock`. -/
  | leaving (tried : List Nat) (err : Option Err)
  /-- In `checkAndRedial`, before `RUnlock`; `g` is the dial of the attempt. -/
  | broken (op : Op) (g : Nat)
  /-- In `redial`, before `Lock`. -/
  | redial (op : Op) (g : Nat)
  | waiting (op : Op) (g : Nat)
  /-- With the lock, before a try of the back-off. -/
  | dialing (op : Op) (g : Nat)
  /-- With the lock, before the field `f` is stored. -/
  | storing (op : Op) (g : Nat) (f : Field) (dial : Nat)
  /-- With the lock, before `Unlock`. -/
  | unlocking (op : Op) (g : Nat) (ok : Bool)
  /-- Before the second `RLock`. -/
  | relocking (op : Op) (g : Nat) (ok : Bool)
  /-- `Stop`, before `Lock`. -/
  | stop
  | stopping
  | closing
  | closingT
  | stopped
  | returned (tried : List Nat) (err : Option Err)

/-- The error of an attempt. -/
def answer : World → Option Err
  | .ok => none
  | .broken => some (.lib "net.OpError")
  | _ => some (.lib "beanstalk.ConnError")

/-- The errors of the attempt and of `checkAndRedial`. -/
def both (err errN : Err) : Err := .errorf₂ "err: %s\nerr redial: %s" err errN

/-- The error of `checkAndRedial` when `redial` has failed. -/
def errRedial : Err :=
  .op "connection_pool_check_redial" (.errorf₂ "%v:%v" (.lib "net.OpError") (.lib "backoff.Retry"))

/-- An attempt. Only the first one redials. -/
def attempt (op : Op) (tried : List Nat) (g : Nat) (w : World) : Phase :=
  match tried, w with
  | [], .broken => .broken op g
  | [], .ok => .leaving [g] none
  | [], w => .leaving [g] ((answer w).map fun err => both err err)
  | tried, w => .leaving (tried ++ [g]) (answer w)

/-- A try of the back-off. -/
def dial (d : ConnPool) (op : Op) (g : Nat) : World → ConnPool × Phase
  | .noTube => (d, .dialing op g)
  | .noTubeSet => ({ d with next := d.next + 1, opened := d.opened ++ [(d.next, .tube)] }, .dialing op g)
  | .dialed =>
    ({ d with next := d.next + 1, opened := d.opened ++ [(d.next, .tube), (d.next, .tubeSet)] },
      .storing op g .t d.next)
  | _ => (d, .unlocking op g false)

/-- The field that is stored next. -/
def store (op : Op) (g : Nat) (dial : Nat) : Field → Phase
  | .t => .storing op g .ts dial
  | .ts => .storing op g .conn dial
  | .conn => .storing op g .connT dial
  | .connT => .unlocking op g true

/-- The next step of a call. -/
def move (d : ConnPool) (p : Phase) (w : World) : Guarded.Move ConnPool Phase :=
  match p with
  | .called op => ⟨.rlock, d, .trying op []⟩
  | .trying op tried => ⟨.skip, d, attempt op tried (d.fields op.field) w⟩
  | .leaving tried err => ⟨.runlock, d, .returned tried err⟩
  | .broken op g => ⟨.runlock, d, .redial op g⟩
  | .redial op g => ⟨.announce, d, .waiting op g⟩
  | .waiting op g => ⟨.lock, d, .dialing op g⟩
  | .dialing op g => ⟨.skip, (dial d op g w).1, (dial d op g w).2⟩
  | .storing op g f e => ⟨.skip, { d with fields := Function.update d.fields f e }, store op g e f⟩
  | .unlocking op g ok => ⟨.unlock, d, .relocking op g ok⟩
  | .relocking op g ok =>
    ⟨.rlock, d, if ok then .trying op [g] else .leaving [g] (some (both (.lib "net.OpError") errRedial))⟩
  | .stop => ⟨.announce, d, .stopping⟩
  | .stopping => ⟨.lock, d, .closing⟩
  | .closing => ⟨.skip, { d with opened := d.opened.filter (· ≠ (d.fields .conn, .tubeSet)) }, .closingT⟩
  | .closingT => ⟨.skip, { d with opened := d.opened.filter (· ≠ (d.fields .connT, .tube)) }, .stopped⟩
  | .stopped => ⟨.unlock, d, .returned [] none⟩
  | .returned tried err => ⟨.skip, d, .returned tried err⟩

/-- What can happen: a call, `Stop`, or a step of a call. -/
inductive Event where
  | call (op : Op)
  | stop
  /-- The call `i` goes on. -/
  | go (i : Nat) (w : World)

/-- One event. -/
def step (s : Guarded.State ConnPool Phase) : Event → Guarded.State ConnPool Phase
  | .call op => Guarded.step move s (.start (.called op))
  | .stop => Guarded.step move s (.start .stop)
  | .go i w => Guarded.step move s (.go i w)

/-- The pool as `NewConnPool` returns it. -/
def start : Guarded.State ConnPool Phase := { data := {} }

/-! ## The mutex -/

/-- What a call holds of the lock. -/
def hold : Phase → Hold
  | .trying _ _ | .leaving _ _ | .broken _ _ => .read
  | .waiting _ _ | .stopping => .wait
  | .dialing _ _ | .storing _ _ _ _ | .unlocking _ _ _ | .closing | .closingT | .stopped => .write
  | .called _ | .redial _ _ | .relocking _ _ _ | .stop | .returned _ _ => .nothing

theorem hold_attempt (op : Op) (tried : List Nat) (g : Nat) (w : World) : hold (attempt op tried g w) = .read := by
  unfold attempt
  split <;> rfl

theorem hold_dial (d : ConnPool) (op : Op) (g : Nat) (w : World) : hold (dial d op g w).2 = .write := by
  unfold dial
  split <;> rfl

theorem disciplined : Guarded.Disciplined move hold := by
  intro d p w
  cases p with
  | trying op tried => exact congrArg some (hold_attempt op tried _ w).symm
  | dialing op g => exact congrArg some (hold_dial d op g w).symm
  | storing op g f e => cases f <;> rfl
  | relocking op g ok => cases ok <;> rfl
  | _ => rfl

/-! ## The fields -/

/-- All fields are from one dial. -/
def Calm (d : ConnPool) : Prop := ∃ e, e < d.next ∧ ∀ f, d.fields f = e

/-- All fields are from later dials. -/
def Above (d : ConnPool) (g : Nat) : Prop := ∀ f, g < d.fields f

/-- There were at most two attempts, the second on a later dial. -/
def Retried (tried : List Nat) : Prop := tried.length ≤ 2 ∧ tried.Pairwise (· < ·)

/-- The order in which the fields are stored. -/
def Field.rank : Field → Nat
  | .t => 0
  | .ts => 1
  | .conn => 2
  | .connT => 3

/-- What a call relies on for its own data. -/
def Own (d : ConnPool) : Phase → Prop
  | .called _ | .stop | .stopping => True
  | .trying _ tried => tried = [] ∨ ∃ g, tried = [g] ∧ Above d g
  | .leaving tried _ | .returned tried _ => Retried tried
  | .broken _ g | .redial _ g | .waiting _ g => g < d.next
  | .dialing _ g => g < d.next ∧ Calm d
  | .storing _ g f e => g < e ∧ e < d.next ∧ ∀ f', if f'.rank < f.rank then d.fields f' = e else d.fields f' < e
  | .unlocking _ g ok => Calm d ∧ (ok = true → Above d g)
  | .relocking _ g ok => ok = true → Above d g
  | .closing | .closingT | .stopped => Calm d

theorem retried_singleton (g : Nat) : Retried [g] := ⟨by simp, by simp⟩

theorem own_attempt {d : ConnPool} {op : Op} {tried : List Nat} (h : Own d (.trying op tried)) (hcalm : Calm d)
    (w : World) :
    Own d (attempt op tried (d.fields op.field) w) := by
  rcases h with rfl | ⟨g, rfl, hg⟩
  · obtain ⟨e, he, hfields⟩ := hcalm
    cases w with
    | broken =>
      show d.fields op.field < d.next
      rw [hfields]
      exact he
    | _ => exact retried_singleton _
  · have hlt : g < d.fields op.field := hg op.field
    have : Retried ([g] ++ [d.fields op.field]) := ⟨by simp, by simpa using hlt⟩
    cases w <;> exact this

theorem own_dial {d : ConnPool} {op : Op} {g : Nat} (h : Own d (.dialing op g)) (w : World) :
    Own (dial d op g w).1 (dial d op g w).2 := by
  obtain ⟨hg, e, he, hfields⟩ := h
  cases w with
  | noTube => exact ⟨hg, e, he, hfields⟩
  | noTubeSet => exact ⟨Nat.lt_succ_of_lt hg, e, Nat.lt_succ_of_lt he, hfields⟩
  | dialed =>
    refine ⟨hg, Nat.lt_succ_self _, fun f' => ?_⟩
    rw [if_neg (show ¬ f'.rank < Field.t.rank from Nat.not_lt_zero _)]
    show d.fields f' < d.next
    rw [hfields]
    exact he
  | _ => exact ⟨⟨e, he, hfields⟩, fun h => by cases h⟩

theorem own_store {d : ConnPool} {op : Op} {g : Nat} {f : Field} {e : Nat} (h : Own d (.storing op g f e)) :
    Own { d with fields := Function.update d.fields f e } (store op g e f) := by
  obtain ⟨hg, he, hfields⟩ := h
  have hstored : ∀ f', if f'.rank < f.rank + 1 then Function.update d.fields f e f' = e
      else Function.update d.fields f e f' < e := by
    intro f'
    by_cases hff : f' = f
    · subst hff
      rw [if_pos (Nat.lt_succ_self _), Function.update_self]
    · have hrank : f'.rank < f.rank + 1 ↔ f'.rank < f.rank := by
        have hne : f'.rank ≠ f.rank := by
          intro heq
          revert hff heq
          cases f <;> cases f' <;> decide
        omega
      simp only [hrank, Function.update_of_ne hff]
      exact hfields f'
  cases f with
  | connT =>
    have hall : ∀ f', Function.update d.fields .connT e f' = e := by
      intro f'
      have := hstored f'
      rwa [if_pos (by cases f' <;> decide)] at this
    exact ⟨⟨e, he, hall⟩, fun _ f' => Nat.lt_of_lt_of_eq hg (hall f').symm⟩
  | _ => exact ⟨hg, he, hstored⟩

/-- A dial that stores its fields leaves no field on an earlier dial than before. -/
theorem above_store {d : ConnPool} {op : Op} {g g' : Nat} {f : Field} {e : Nat} (h : Own d (.storing op g f e))
    (habove : Above d g') : Above { d with fields := Function.update d.fields f e } g' := by
  intro f'
  have hf : d.fields .connT < e := by
    have := h.2.2 .connT
    rwa [if_neg (by cases f <;> decide)] at this
  show g' < Function.update d.fields f e f'
  by_cases hff : f' = f
  · subst hff
    rw [Function.update_self]
    exact Nat.lt_trans (habove .connT) hf
  · rw [Function.update_of_ne hff]
    exact habove f'

theorem move_data_of_not_write {d : ConnPool} {p : Phase} (h : hold p ≠ .write) (w : World) :
    (move d p w).data = d := by
  cases p with
  | dialing | storing | unlocking | closing | closingT | stopped => exact absurd rfl h
  | _ => rfl

theorem next_le_move (d : ConnPool) (p : Phase) (w : World) : d.next ≤ (move d p w).data.next := by
  cases p with
  | dialing op g => cases w <;> first | exact le_rfl | exact Nat.le_succ _
  | _ => exact le_rfl

/-- A move leaves no field on an earlier dial than before. -/
theorem above_move {d : ConnPool} {p : Phase} (h : Own d p) (w : World) {g : Nat} (habove : Above d g) :
    Above (move d p w).data g := by
  cases p with
  | dialing op g' => cases w <;> exact habove
  | storing op g' f e => exact above_store h habove
  | _ => exact habove

theorem rule : Guarded.Rule move hold Calm Own where
  own d p w h hsees := by
    cases p with
    | called op => exact .inl rfl
    | trying op tried => exact own_attempt h (hsees (.inl rfl)) w
    | waiting op g => exact ⟨h, hsees (.inr (.inr rfl))⟩
    | dialing op g => exact own_dial h w
    | storing op g f e => exact own_store h
    | unlocking op g ok => exact h.2
    | relocking op g ok =>
      cases ok with
      | true => exact .inr ⟨g, rfl, h rfl⟩
      | false => exact retried_singleton g
    | stopping => exact hsees (.inr (.inr rfl))
    | stopped => exact ⟨by simp, by simp⟩
    | _ => exact h
  calm d p w _ hp hcalm := by rwa [move_data_of_not_write hp]
  unlock d p w h hp hact := by
    cases p with
    | unlocking op g ok => exact h.1
    | stopped => exact h
    | dialing | storing | closing | closingT => cases hact
    | _ => cases hp
  other d p w q hp hq hexcl := by
    by_cases hw : hold p = .write
    · obtain ⟨hread, hwrite⟩ := hexcl hw
      cases q with
      | called | stop | stopping => trivial
      | returned tried err => exact hq
      | redial op g | waiting op g => exact Nat.lt_of_lt_of_le hq (next_le_move d p w)
      | relocking op g ok => exact fun hok => above_move hp w (hq hok)
      | trying | leaving | broken => exact absurd rfl hread
      | _ => exact absurd rfl hwrite
    · rw [move_data_of_not_write hw]
      exact hq

/-- What holds in every run. -/
abbrev Inv (s : Guarded.State ConnPool Phase) : Prop := Guarded.Inv hold Calm Own s

theorem inv_start : Inv start :=
  ⟨⟨rfl, rfl, rfl⟩, fun _ => ⟨0, Nat.one_pos, fun _ => rfl⟩, List.forall_mem_nil _⟩

theorem inv_step {s : Guarded.State ConnPool Phase} (h : Inv s) (e : Event) : Inv (step s e) := by
  cases e with
  | call op => exact h.start move rfl trivial
  | stop => exact h.start move rfl trivial
  | go i w => exact h.next disciplined rule i w

theorem inv_exec (es : List Event) : Inv (Run.exec step start es) :=
  Run.exec_invariant (I := Inv) (fun _ e h => inv_step h e) es inv_start

/-! ## The calls return -/

/-- The call has returned. -/
def Phase.ended : Phase → Prop
  | .returned _ _ => True
  | _ => False

/-- How far a call is from its end, when the back-off gives up. -/
def Phase.rank : Phase → Nat
  | .called _ => 14
  | .broken _ _ => 13
  | .redial _ _ => 12
  | .waiting _ _ => 11
  | .dialing _ _ => 10
  | .storing _ _ f _ => 9 - f.rank
  | .unlocking _ _ _ | .stop => 5
  | .relocking _ _ _ | .stopping => 4
  | .trying _ _ | .closing => 3
  | .closingT => 2
  | .leaving _ _ | .stopped => 1
  | .returned _ _ => 0

theorem exists_rank_lt (d : ConnPool) (p : Phase) (h : ¬ p.ended) : ∃ w, (move d p w).thread.rank < p.rank := by
  cases p with
  | trying op tried =>
    refine ⟨.ok, ?_⟩
    cases tried <;> exact Nat.lt_of_sub_eq_succ rfl
  | dialing op g => exact ⟨.gaveUp, Nat.lt_of_sub_eq_succ rfl⟩
  | storing op g f e => exact ⟨.ok, by cases f <;> exact Nat.lt_of_sub_eq_succ rfl⟩
  | relocking op g ok => exact ⟨.ok, by cases ok <;> exact Nat.lt_of_sub_eq_succ rfl⟩
  | returned => exact absurd trivial h
  | _ => exact ⟨.ok, Nat.lt_of_sub_eq_succ rfl⟩

/-- **The pool under any interleaving.** For any calls and `Stop`s side by side, with any errors and any dials
failing: an attempt sees the four fields on connections of one dial; a call makes at most two attempts, and the second
is on connections of a later dial than the first; and all calls can return, which leaves the mutex free. -/
theorem calls_safe (es : List Event) :
    let s := Run.exec step start es
    (∀ op tried, .trying op tried ∈ s.threads → ∃ e, ∀ f, s.data.fields f = e) ∧
      (∀ tried err, .returned tried err ∈ s.threads → tried.length ≤ 2 ∧ tried.Pairwise (· < ·)) ∧
      ∃ es', let s' := Run.exec step s es'
        (∀ p ∈ s'.threads, p.ended) ∧ s'.mutex.readers = 0 ∧ s'.mutex.waiting = 0 ∧ s'.mutex.writer = false := by
  intro s
  have hs : Inv s := inv_exec es
  refine ⟨fun op tried hmem => ?_, fun tried err hmem => hs.own _ hmem, ?_⟩
  · obtain ⟨e, -, he⟩ := hs.calm (hs.balanced.writer_of_read hmem rfl)
    exact ⟨e, he⟩
  · have hended : ∀ p : Phase, p.ended → hold p = .nothing := by
      intro p hp
      cases p with
      | returned => rfl
      | _ => exact absurd hp id
    obtain ⟨gos, hinv, hdone⟩ := hs.exists_finish disciplined rule hended Phase.rank exists_rank_lt
    have hfinish : Run.exec step s (gos.map fun g => .go g.1 g.2) = Guarded.finish move s gos := List.foldl_map
    refine ⟨gos.map fun g => .go g.1 g.2, ?_⟩
    rw [hfinish]
    exact ⟨hdone, hinv.balanced.free fun p hp => hended p (hdone p hp)⟩

/-! ## The connections that are replaced -/

/-- A connection that is open and older than all fields stays open. -/
theorem opened_move {d : ConnPool} (p : Phase) (w : World) {x : Nat × Side} (hx : x ∈ d.opened) (habove : Above d x.1) :
    x ∈ (move d p w).data.opened := by
  have hkeep : ∀ f side, x ∈ d.opened.filter (· ≠ (d.fields f, side)) := by
    intro f side
    refine List.mem_filter.mpr ⟨hx, decide_eq_true fun heq => ?_⟩
    have := habove f
    rw [heq] at this
    exact Nat.lt_irrefl _ this
  cases p with
  | dialing op g => cases w <;> first | exact hx | exact List.mem_append_left _ hx
  | closing => exact hkeep .conn .tubeSet
  | closingT => exact hkeep .connT .tube
  | _ => exact hx

/-- **What `redial` replaces is never closed.** In every state that a run reaches, a connection that is open and from an
earlier dial than the fields stays open in every continuation, whatever is called: no call and no `Stop` closes it. -/
theorem replaced_stay_open (es es' : List Event) (x : Nat × Side) :
    let s := Run.exec step start es
    let s' := Run.exec step s es'
    x ∈ s.data.opened → (∀ f, x.1 < s.data.fields f) → x ∈ s'.data.opened ∧ ∀ f, x.1 < s'.data.fields f := by
  intro s s' hx habove
  have hstep : ∀ t e, (Inv t ∧ x ∈ t.data.opened ∧ Above t.data x.1) →
      Inv (step t e) ∧ x ∈ (step t e).data.opened ∧ Above (step t e).data x.1 := by
    rintro t e ⟨ht, hopen, hold⟩
    refine ⟨inv_step ht e, ?_⟩
    cases e with
    | call op => exact ⟨hopen, hold⟩
    | stop => exact ⟨hopen, hold⟩
    | go i w =>
      have hstep := Guarded.stepped move t (.go i w)
      show x ∈ (Guarded.step move t (.go i w)).data.opened ∧ Above (Guarded.step move t (.go i w)).data x.1
      generalize Guarded.step move t (.go i w) = t' at hstep ⊢
      cases hstep with
      | blocked => exact ⟨hopen, hold⟩
      | go hi hact => exact ⟨opened_move _ w hopen hold, above_move (ht.own _ (List.mem_of_getElem? hi)) w hold⟩
  exact (Run.exec_invariant hstep es' ⟨inv_exec es, hx, habove⟩).2

/-- A `Reserve` whose connection is broken and that redials. -/
def redialed : List Event := .call .reserve :: [.ok, .broken, .ok, .ok, .ok, .dialed, .ok, .ok, .ok, .ok, .ok, .ok, .ok,
  .ok].map (.go 0)

/-- The first two connections of a pool, after a redial and a `Stop`. -/
theorem first_dial_stays_open :
    let s := Run.exec step (Run.exec step start redialed) (.stop :: List.replicate 6 (.go 1 .ok))
    s.data.opened = [(0, .tube), (0, .tubeSet)] ∧ (0, .tube) ∈ s.data.opened := by
  intro s
  have h := replaced_stay_open redialed (.stop :: List.replicate 6 (.go 1 .ok)) (0, .tube) (by decide)
    fun f => by cases f <;> decide
  exact ⟨by decide, h.1⟩

end RoadRunner.Beanstalk.Pool
