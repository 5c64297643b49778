import RoadRunner.Lib.Calls
import RoadRunner.Lib.Update

/-!
# Messages that stand for jobs

A broker keeps a job as a message. A client changes a job by putting a new message and deleting the old one; each
request may fail before it took effect, or after it. This file has what it takes to show that no job is left without a
message, for any number of calls that run side by side.

* `Box`: the messages. A message is named by its place, and keeps the name when it is gone.
* `Ledger`: a box, with the jobs that are owed a message and the jobs that were settled.
* `need`: how many messages of a job the steps of a call take away or promise before they bring one.
* `Covers`: every job has the messages it is owed, less those that were settled, and those that the calls need.
  `Covers.next`: every step keeps it. `Covers.call`: so does a call that needs no more than it settles.
-/

namespace Letters

/-- What becomes of a request. -/
inductive Outcome where
  | done
  /-- It fails, and nothing has changed. -/
  | refused
  /-- It took effect, but its answer is lost. -/
  | unanswered
  deriving DecidableEq

namespace Outcome

/-- The request has taken effect. -/
def takes : Outcome → Bool
  | refused => false
  | _ => true

/-- The request has returned an error. -/
def fails : Outcome → Bool
  | done => false
  | _ => true

end Outcome

variable {α κ : Type}

/-- The messages in the order in which they came, with whether they are still there. -/
structure Box (α : Type) where
  letters : List (α × Bool) := []

namespace Box

/-- Put a letter in. -/
def put (b : Box α) (a : α) : Box α := ⟨b.letters ++ [(a, true)]⟩

/-- Take a letter out. -/
def drop (b : Box α) (n : Nat) : Box α := ⟨b.letters.modify n fun l => (l.1, false)⟩

/-- All messages are deleted. -/
def clear (b : Box α) : Box α := ⟨b.letters.map fun l => (l.1, false)⟩

/-- The message at a place, if it is still there. -/
def get? (b : Box α) (n : Nat) : Option α := b.letters[n]?.bind fun l => if l.2 then some l.1 else none

section

variable (key : α → Option κ)

/-- The job of the message at a place. -/
def label (b : Box α) (n : Nat) : Option κ := b.letters[n]?.bind fun l => key l.1

/-- The job of the message at a place, if the message is still there. -/
def live (b : Box α) (n : Nat) : Option κ := (b.get? n).bind key

/-- The messages of a job. -/
def count [DecidableEq κ] (b : Box α) (k : κ) : Nat := b.letters.countP fun l => l.2 && decide (key l.1 = some k)

end

variable {key : α → Option κ} {b : Box α} {n : Nat}

theorem lt_of_get? {a : α} (h : b.get? n = some a) : n < b.letters.length := by
  obtain ⟨l, hl, -⟩ := Option.bind_eq_some_iff.mp h
  exact (List.getElem?_eq_some_iff.mp hl).1

theorem label_of_get? {a : α} (h : b.get? n = some a) : b.label key n = key a := by
  obtain ⟨l, hl, ha⟩ := Option.bind_eq_some_iff.mp h
  split at ha
  · obtain rfl := Option.some.inj ha
    simp [label, hl]
  · cases ha

theorem label_of_live {k : κ} (h : b.live key n = some k) : b.label key n = some k := by
  obtain ⟨a, ha, hk⟩ := Option.bind_eq_some_iff.mp h
  rw [label_of_get? ha, hk]

@[simp] theorem length_put (b : Box α) (a : α) : (b.put a).letters.length = b.letters.length + 1 := by simp [put]

@[simp] theorem length_drop (b : Box α) (n : Nat) : (b.drop n).letters.length = b.letters.length := by simp [drop]

theorem label_put (h : n < b.letters.length) (a : α) : (b.put a).label key n = b.label key n := by
  rw [label, label, put, List.getElem?_append_left h]

theorem live_put (h : n < b.letters.length) (a : α) : (b.put a).live key n = b.live key n := by
  rw [live, live, get?, get?, put, List.getElem?_append_left h]

theorem getElem?_drop (b : Box α) (m n : Nat) :
    (b.drop m).letters[n]? = b.letters[n]?.map fun l => if m = n then (l.1, false) else l :=
  List.getElem?_modify _ _ _ _

@[simp] theorem label_drop (b : Box α) (m n : Nat) : (b.drop m).label key n = b.label key n := by
  rw [label, label, getElem?_drop]
  cases b.letters[n]? with
  | none => rfl
  | some l =>
    show key (if m = n then (l.1, false) else l).1 = key l.1
    split <;> rfl

theorem live_drop (b : Box α) (m : Nat) : (b.drop m).live key = Function.update (b.live key) m none := by
  funext n
  rw [live, get?, getElem?_drop]
  by_cases hmn : m = n
  · subst hmn
    rw [Function.update_self]
    cases b.letters[m]? <;> simp
  · rw [Function.update_of_ne (Ne.symm hmn), live, get?]
    cases b.letters[n]? <;> simp [hmn]

section

variable [DecidableEq κ] (k : κ)

variable (key) in
theorem count_put (b : Box α) (a : α) : (b.put a).count key k = b.count key k + if key a = some k then 1 else 0 := by
  rw [count, put, Update.countP_concat, count]
  by_cases h : key a = some k <;> simp [h]

variable (key) in
/-- A message that is dropped is one of its job, or is gone already. -/
theorem count_drop (b : Box α) (n : Nat) :
    (b.drop n).count key k + (if b.live key n = some k then 1 else 0) = b.count key k := by
  rw [count, count, drop]
  cases h : b.letters[n]? with
  | none => simp [List.modify_eq_self (List.getElem?_eq_none_iff.mp h), live, get?, h]
  | some l =>
    have hcount := Update.countP_modify (fun l => l.2 && decide (key l.1 = some k)) h fun l => (l.1, false)
    simp only [Bool.false_and, Bool.toNat_false, Nat.add_zero] at hcount
    rw [← hcount, live, get?, h]
    cases hl : l.2 <;> by_cases hkey : key l.1 = some k <;> simp [hl, hkey]

/-- A job with a message has one that can be handed out. -/
theorem exists_of_count_pos (h : 0 < b.count key k) : ∃ n a, b.get? n = some a ∧ key a = some k := by
  obtain ⟨l, hmem, hl⟩ := List.countP_pos_iff.mp h
  obtain ⟨n, hn⟩ := List.mem_iff_getElem?.mp hmem
  obtain ⟨hthere, hkey⟩ := Bool.and_eq_true_iff.mp hl
  exact ⟨n, l.1, by simp [get?, hn, hthere], of_decide_eq_true hkey⟩

end

end Box

/-! ## Steps of the calls -/

/-- A request that takes effect, or a promise to the caller. -/
inductive Step (α κ : Type) where
  | put (a : α)
  | drop (n : Nat)
  /-- The caller is told that the job is kept. -/
  | owe (k : κ)
  deriving DecidableEq

/-- The steps of a request for `e`. -/
def request (o : Outcome) (e : Step α κ) : List (Step α κ) := if o.takes then [e] else []

@[simp] theorem request_done (e : Step α κ) : request .done e = [e] := rfl

@[simp] theorem request_refused (e : Step α κ) : request .refused e = [] := rfl

@[simp] theorem request_unanswered (e : Step α κ) : request .unanswered e = [e] := rfl

/-- A box, with the accounts of what is owed and settled. -/
structure Ledger (α κ : Type) where
  box : Box α := {}
  owed : List κ := []
  settled : List κ := []

namespace Ledger

/-- One step. -/
def act (l : Ledger α κ) : Step α κ → Ledger α κ
  | .put a => { l with box := l.box.put a }
  | .drop n => { l with box := l.box.drop n }
  | .owe k => { l with owed := l.owed ++ [k] }

@[simp] theorem settled_act (l : Ledger α κ) (e : Step α κ) : (l.act e).settled = l.settled := by cases e <;> rfl

theorem length_le_act (l : Ledger α κ) (e : Step α κ) : l.box.letters.length ≤ (l.act e).box.letters.length := by
  cases e with
  | put a => simp [act]
  | drop n => simp [act]
  | owe k => exact le_rfl

/-- A message keeps its job. -/
theorem label_act {key : α → Option κ} {l : Ledger α κ} {n : Nat} (h : n < l.box.letters.length) (e : Step α κ) :
    (l.act e).box.label key n = l.box.label key n := by
  cases e with
  | put a => exact Box.label_put h a
  | drop m => exact Box.label_drop _ m n
  | owe k => rfl

/-- No step brings a message back. -/
theorem live_of_act {key : α → Option κ} {l : Ledger α κ} {n : Nat} {k : κ} (h : n < l.box.letters.length)
    {e : Step α κ} (hlive : (l.act e).box.live key n = some k) : l.box.live key n = some k := by
  cases e with
  | put a => rwa [act, Box.live_put h] at hlive
  | drop m =>
    rw [act, Box.live_drop] at hlive
    by_cases hmn : n = m
    · subst hmn
      rw [Function.update_self] at hlive
      cases hlive
    · rwa [Function.update_of_ne hmn] at hlive
  | owe k' => exact hlive

end Ledger

/-- The messages of `k` that the steps take away or promise before they bring one; `live` has the jobs of the messages
that are there. -/
def need [DecidableEq κ] (key : α → Option κ) (live : Nat → Option κ) (k : κ) : List (Step α κ) → Nat
  | [] => 0
  | .put a :: es => need key live k es - if key a = some k then 1 else 0
  | .drop n :: es => need key (Function.update live n none) k es + if live n = some k then 1 else 0
  | .owe k' :: es => need key live k es + if k' = k then 1 else 0

/-- The steps are about messages that have come. -/
def Known (b : Box α) (es : List (Step α κ)) : Prop := ∀ n, .drop n ∈ es → n < b.letters.length

theorem known_nil (b : Box α) : Known b ([] : List (Step α κ)) := fun _ hn => by cases hn

theorem known_put {b : Box α} {a : α} {es : List (Step α κ)} (h : Known b es) : Known b (.put a :: es) := by
  intro n hn
  rcases List.mem_cons.mp hn with hn | hn
  · cases hn
  · exact h n hn

/-- All steps delete the message at one place. -/
def Drops (n : Nat) (es : List (Step α κ)) : Prop := ∀ e ∈ es, e = .drop n

theorem drops_nil (n : Nat) : Drops n ([] : List (Step α κ)) := List.forall_mem_nil _

theorem drops_request (o : Outcome) (n : Nat) : Drops n (request o (.drop n : Step α κ)) := by
  intro e he
  unfold request at he
  split at he
  · exact List.mem_singleton.mp he
  · cases he

theorem Drops.append {n : Nat} {es fs : List (Step α κ)} (hes : Drops n es) (hfs : Drops n fs) : Drops n (es ++ fs) :=
  fun e he => (List.mem_append.mp he).elim (hes e) (hfs e)

theorem Drops.known {b : Box α} {n : Nat} {es : List (Step α κ)} (h : Drops n es) (hn : n < b.letters.length) :
    Known b es := fun m hm => by cases h _ hm; exact hn

section

variable [DecidableEq κ] {key : α → Option κ} {live live' : Nat → Option κ} {k : κ}

theorem need_mono {es : List (Step α κ)} (h : ∀ n, .drop n ∈ es → live' n = some k → live n = some k) :
    need key live' k es ≤ need key live k es := by
  induction es generalizing live live' with
  | nil => exact le_rfl
  | cons e es ih =>
    have hrest : ∀ n, .drop n ∈ es → live' n = some k → live n = some k :=
      fun n hn => h n (List.mem_cons_of_mem e hn)
    cases e with
    | put a => exact Nat.sub_le_sub_right (ih hrest) _
    | owe k' => exact Nat.add_le_add_right (ih hrest) _
    | drop n =>
      refine Nat.add_le_add (ih fun m hm hlive => ?_) ?_
      · by_cases hmn : m = n
        · subst hmn
          rw [Function.update_self] at hlive
          cases hlive
        · rw [Function.update_of_ne hmn] at hlive ⊢
          exact hrest m hm hlive
      · have := h n List.mem_cons_self
        split
        · rw [if_pos (this ‹_›)]
        · exact Nat.zero_le _

/-- A message goes once, however often it is deleted. -/
theorem need_drops {n : Nat} {es : List (Step α κ)} (h : Drops n es) (key : α → Option κ) (live : Nat → Option κ)
    (k : κ) :
    need key live k es ≤ if live n = some k then 1 else 0 := by
  induction es generalizing live with
  | nil => exact Nat.zero_le _
  | cons e es ih =>
    obtain rfl := h e List.mem_cons_self
    have hrest := ih (fun e he => h e (List.mem_cons_of_mem _ he)) (Function.update live n none)
    rw [Function.update_self, if_neg (fun h => by cases h)] at hrest
    rw [need, Nat.le_zero.mp hrest, Nat.zero_add]

/-- A message that takes the place of another one of its job. -/
theorem need_replace {a : α} {n : Nat} {es : List (Step α κ)} (hes : Drops n es)
    (h : ∀ k, live n = some k → key a = some k) : need key live k (.put a :: es) = 0 := by
  have hle := need_drops hes key live k
  rw [need]
  by_cases hlive : live n = some k
  · rw [if_pos hlive] at hle
    rw [if_pos (h k hlive)]
    exact Nat.sub_eq_zero_of_le hle
  · rw [if_neg hlive] at hle
    rw [Nat.le_zero.mp hle, Nat.zero_sub]

/-- A message that is deleted for its job, if it has one. -/
theorem need_delete {n : Nat} {es : List (Step α κ)} (hes : Drops n es) {job : Option κ}
    (h : ∀ k, live n = some k → job = some k) : need key live k es ≤ job.toList.count k := by
  refine (need_drops hes key live k).trans ?_
  split
  · rw [h k ‹_›]
    simp
  · exact Nat.zero_le _

/-- One more message does not make a call need more. -/
theorem need_put {a : α} {es : List (Step α κ)} (h : need key live k es = 0) : need key live k (.put a :: es) = 0 := by
  rw [need, h, Nat.zero_sub]

/-- A promise that has been kept. -/
theorem need_promise {a : α} {k' : κ} (h : key a = some k') : need key live k [.put a, .owe k'] = 0 := by
  simp [need, h]

/-- What the calls need together. -/
def due (key : α → Option κ) (live : Nat → Option κ) (k : κ) (calls : List (List (Step α κ))) : Nat :=
  (calls.map (need key live k)).sum

theorem due_concat (calls : List (List (Step α κ))) (es : List (Step α κ)) :
    due key live k (calls ++ [es]) = due key live k calls + need key live k es := by
  simp [due]

theorem due_mono {calls : List (List (Step α κ))}
    (h : ∀ es ∈ calls, ∀ n, .drop n ∈ es → live' n = some k → live n = some k) :
    due key live' k calls ≤ due key live k calls :=
  List.sum_le_sum fun es hes => need_mono (h es hes)

theorem due_set {calls : List (List (Step α κ))} {n : Nat} {es : List (Step α κ)} (h : calls[n]? = some es)
    (key : α → Option κ) (live : Nat → Option κ) (k : κ) (fs : List (Step α κ)) :
    due key live k (calls.set n fs) + need key live k es = due key live k calls + need key live k fs := by
  induction calls generalizing n with
  | nil => simp at h
  | cons gs calls ih =>
    cases n with
    | zero =>
      obtain rfl : gs = es := by simpa using h
      simp only [due, List.set_cons_zero, List.map_cons, List.sum_cons]
      omega
    | succ n =>
      have hset := ih (by simpa using h)
      simp only [due, List.set_cons_succ, List.map_cons, List.sum_cons] at hset ⊢
      omega

/-- Every job has the messages it is owed, less those that were settled, and those that the calls need. -/
structure Covers (key : α → Option κ) (l : Ledger α κ) (calls : List (List (Step α κ))) : Prop where
  known : ∀ es ∈ calls, Known l.box es
  covered : ∀ k, l.owed.count k + due key (l.box.live key) k calls ≤ l.box.count key k + l.settled.count k

variable (key) in
/-- One step: what the ledger gains is no less than what the rest of the call needs in addition. -/
theorem act_covered {l : Ledger α κ} (e : Step α κ) {es : List (Step α κ)} (hes : Known l.box es) (k : κ) :
    (l.act e).owed.count k + l.box.count key k + need key ((l.act e).box.live key) k es ≤
      l.owed.count k + (l.act e).box.count key k + need key (l.box.live key) k (e :: es) := by
  cases e with
  | put a =>
    have hput := Box.count_put key k l.box a
    have hrest : need key ((l.box.put a).live key) k es ≤ need key (l.box.live key) k es :=
      need_mono fun n hn hlive => (Box.live_put (hes n hn) a).symm.trans hlive
    simp only [Ledger.act, need]
    omega
  | drop n =>
    have hdrop := Box.count_drop key k l.box n
    simp only [Ledger.act, need, Box.live_drop]
    omega
  | owe k' =>
    simp only [Ledger.act, need, List.count_append, List.count_singleton, beq_iff_eq]
    omega

variable {l : Ledger α κ} {calls : List (List (Step α κ))}

/-- The `n`-th call takes its next step. -/
theorem Covers.next (h : Covers key l calls) {n : Nat} {e : Step α κ} {es : List (Step α κ)}
    (hn : calls[n]? = some (e :: es)) : Covers key (l.act e) (calls.set n es) := by
  have hrest : Known l.box es := fun m hm => h.known _ (List.mem_of_getElem? hn) m (List.mem_cons_of_mem e hm)
  have hgrow := l.length_le_act e
  refine ⟨Update.forall_set (fun fs hfs m hm => Nat.lt_of_lt_of_le (h.known fs hfs m hm) hgrow) n
    fun m hm => Nat.lt_of_lt_of_le (hrest m hm) hgrow, fun k => ?_⟩
  -- the other calls need no more than before, and this one what is left of it
  have hset := due_set hn key ((l.act e).box.live key) k es
  have hold := due_set hn key (l.box.live key) k []
  have hnew := due_set hn key ((l.act e).box.live key) k []
  have hothers : due key ((l.act e).box.live key) k (calls.set n []) ≤ due key (l.box.live key) k (calls.set n []) :=
    due_mono fun fs hfs m hm => Ledger.live_of_act (Update.forall_set h.known n (known_nil _) fs hfs m hm)
  have hstep := act_covered key e hrest k
  have hcov := h.covered k
  simp only [need] at hold hnew
  rw [Ledger.settled_act]
  omega

/-- A call starts, and settles jobs. -/
theorem Covers.call (h : Covers key l calls) {es : List (Step α κ)} (hes : Known l.box es) {ks : List κ}
    (hneed : ∀ k, need key (l.box.live key) k es ≤ ks.count k) :
    Covers key { l with settled := l.settled ++ ks } (calls ++ [es]) := by
  refine ⟨Update.forall_concat h.known hes, fun k => ?_⟩
  have hcov := h.covered k
  have hk := hneed k
  simp only [due_concat, List.count_append]
  omega

theorem Covers.owed_le (h : Covers key l calls) (k : κ) :
    l.owed.count k ≤ l.box.count key k + l.settled.count k := by
  have := h.covered k
  omega

end

end Letters
