import RoadRunner.Tcp.Framing

/-!
# The events and the end of a TCP connection

At EOF the loop sends `CLOSE` and leaves the inner loop only: what is in the buffer is sent as `DATA`
after it, and the connection is not closed. After a failed `Exec` of `DATA` it closes the connection
and sends no `CLOSE`.

* `readLoop_rec`: the ways the loop goes on and ends, as an induction rule.
* `messages`, `Cut`: how many messages the reads have before the first short one, and whether they end in
  the middle of one.
* `events_orderly_iff`: when the events are `CONNECTED`, `DATA`s, and one `CLOSE`.
* `conn_closed_iff`: when the connection is closed.
-/

namespace RoadRunner.Tcp

/-- The events of a log. -/
def events (log : List Action) : List Event :=
  log.filterMap fun
    | .exec context _ => some context.event
    | _ => none

theorem events_append (as bs : List Action) : events (as ++ bs) = events as ++ events bs :=
  List.filterMap_append

theorem events_quiet {ws : List Action} (h : ∀ x ∈ ws, x.quiet) : events ws = [] := by
  refine List.filterMap_eq_nil_iff.mpr fun x hx => ?_
  cases x with
  | exec context body => cases h _ hx
  | _ => rfl

theorem closeConn_not_mem_quiet {ws : List Action} (h : ∀ x ∈ ws, x.quiet) : .closeConn ∉ ws :=
  fun hx => nomatch h _ hx

/-- `DATA` events and one `CLOSE`. -/
def Closing (es : List Event) : Prop := ∃ k, es = List.replicate k .data ++ [.close]

theorem closing_data_cons {es : List Event} : Closing (.data :: es) ↔ Closing es := by
  constructor
  · rintro ⟨k, hk⟩
    cases k with
    | zero => cases hk
    | succ k => exact ⟨k, (List.cons.inj hk).2⟩
  · rintro ⟨k, rfl⟩
    exact ⟨k + 1, rfl⟩

theorem closing_close : Closing [.close] := ⟨0, rfl⟩

theorem not_closing_close_data (es : List Event) : ¬ Closing (.close :: .data :: es) := by
  rintro ⟨k, hk⟩
  cases k with
  | zero => cases hk
  | succ k => cases hk

theorem not_closing_nil : ¬ Closing [] := by
  rintro ⟨k, hk⟩
  cases k <;> cases hk

namespace Handler

variable (h : Handler)

/-- The read is at least as long as the delimiter. -/
def long (r : Bytes) : Bool := h.delim.length ≤ r.length

/-- How many reads before the first short one end a message. -/
def messages (reads : List Bytes) : Nat := ((reads.takeWhile h.long).filter h.ends).length

/-- The last read does not end a message. -/
def Cut (reads : List Bytes) : Prop := ∃ r ∈ reads.getLast?, ¬ h.ends r

instance (reads : List Bytes) : Decidable (h.Cut reads) :=
  inferInstanceAs (Decidable (∃ r ∈ reads.getLast?, ¬ h.ends r))

section

variable {answers : Nat → Answer} {last : Last}

/-- The ways the loop goes on and ends. -/
theorem readLoop_rec {motive : Nat → Bytes → List Bytes → List Action → Prop}
    (readFailed : last = .failed → ∀ n buf, motive n buf [] (.closeConn :: h.sendClose))
    (eof : last = .eof → ∀ n, motive n [] [] h.sendClose)
    (cut : last = .eof → ∀ n buf, buf ≠ [] → motive n buf []
      (h.sendClose ++ .exec (h.info .data) buf :: h.proceed (answers n) h.sendClose))
    (short : ∀ n buf r reads, ¬ h.long r → motive n buf (r :: reads) (.closeConn :: h.sendClose))
    (more : ∀ n buf r reads log, h.long r → ¬ h.ends r → motive n (buf ++ r) reads log →
      motive n buf (r :: reads) log)
    (ended : ∀ n buf r reads log, h.long r → h.ends r → motive (n + 1) [] reads log →
      motive n buf (r :: reads) (.exec (h.info .data) (buf ++ r) :: h.proceed (answers n) log)) :
    ∀ n buf reads, motive n buf reads (h.readLoop answers last n buf reads) := by
  intro n buf reads
  induction reads generalizing n buf with
  | nil =>
    cases last with
    | failed => exact readFailed rfl n buf
    | eof =>
      rw [readLoop, deliver]
      by_cases hbuf : buf = []
      · rw [if_pos hbuf, hbuf, List.append_nil]
        exact eof rfl n
      · rw [if_neg hbuf]
        exact cut rfl n buf hbuf
  | cons r reads ih =>
    rw [readLoop]
    by_cases hshort : r.length < h.delim.length
    · rw [if_pos hshort]
      exact short n buf r reads (by simpa [long] using hshort)
    · rw [if_neg hshort]
      have hlong : h.long r := by simpa [long] using hshort
      by_cases hr : h.ends r
      · have hne : buf ++ r ≠ [] := by
          intro hnil
          have hlen := List.length_pos_iff.mpr h.delim_ne
          rw [(List.append_eq_nil_iff.mp hnil).2, List.length_nil] at hshort
          omega
        rw [if_pos hr, deliver, if_neg hne]
        exact ended n buf r reads _ hlong hr (ih (n + 1) [])
      · rw [if_neg hr]
        exact more n buf r reads _ hlong hr (ih n (buf ++ r))

end

/-! ## What the reads amount to -/

theorem messages_short {r : Bytes} (hr : ¬ h.long r) (reads : List Bytes) :
    h.messages (r :: reads) = 0 := by
  simp [messages, hr]

theorem messages_more {r : Bytes} (hr : h.long r) (he : ¬ h.ends r) (reads : List Bytes) :
    h.messages (r :: reads) = h.messages reads := by
  simp [messages, hr, he]

theorem messages_ended {r : Bytes} (hr : h.long r) (he : h.ends r) (reads : List Bytes) :
    h.messages (r :: reads) = h.messages reads + 1 := by
  simp [messages, hr, he]

/-- With the buffer `buf`, the reads end in the middle of a message. -/
def CutFrom (buf : Bytes) (reads : List Bytes) : Prop := (reads = [] ∧ buf ≠ []) ∨ h.Cut reads

theorem cutFrom_nil (buf : Bytes) : h.CutFrom buf [] ↔ buf ≠ [] := by
  simp [CutFrom, Cut]

theorem cutFrom_empty (reads : List Bytes) : h.CutFrom [] reads ↔ h.Cut reads := by
  simp [CutFrom]

theorem cutFrom_ended {r : Bytes} (he : h.ends r) (buf : Bytes) (reads : List Bytes) :
    h.CutFrom buf (r :: reads) ↔ h.CutFrom [] reads := by
  cases reads with
  | nil => simp [CutFrom, Cut, he]
  | cons r' reads => simp [CutFrom, Cut]

theorem cutFrom_more {r : Bytes} (hr : h.long r) (he : ¬ h.ends r) (buf : Bytes) (reads : List Bytes) :
    h.CutFrom buf (r :: reads) ↔ h.CutFrom (buf ++ r) reads := by
  cases reads with
  | nil =>
    have hne : r ≠ [] := by
      rintro rfl
      simp [long, h.delim_ne] at hr
    simp [CutFrom, Cut, he, hne]
  | cons r' reads => simp [CutFrom, Cut]

end Handler

/-- The first `m + 1` answers from `n` on. -/
theorem forall_lt_succ_shift {P : Nat → Prop} {n m : Nat} :
    (∀ j < m + 1, P (n + j)) ↔ P n ∧ ∀ j < m, P (n + 1 + j) := by
  rw [Nat.forall_lt_succ_left]
  refine and_congr Iff.rfl (forall_congr' fun j => imp_congr_right fun _ => ?_)
  rw [Nat.add_right_comm, Nat.add_assoc]

/-- The answers up to the first one that does not meet `G` meet `F`. -/
def UpTo (G F : Nat → Prop) (n m : Nat) : Prop := ∀ k < m, (∀ j < k, G (n + j)) → F (n + k)

theorem upTo_zero (G F : Nat → Prop) (n : Nat) : UpTo G F n 0 := fun k hk => absurd hk (Nat.not_lt_zero k)

theorem upTo_succ {G F : Nat → Prop} {n m : Nat} :
    UpTo G F n (m + 1) ↔ F n ∧ (G n → UpTo G F (n + 1) m) := by
  unfold UpTo
  rw [Nat.forall_lt_succ_left]
  refine and_congr ⟨fun hF => hF nofun, fun hF _ => hF⟩ ?_
  constructor
  · intro hall hG k hk hpre
    have hF := hall k hk (forall_lt_succ_shift.mpr ⟨hG, hpre⟩)
    rwa [Nat.add_right_comm]
  · intro hall k hk hpre
    obtain ⟨hG, hpre⟩ := forall_lt_succ_shift.mp hpre
    have hF := hall hG k hk hpre
    rwa [Nat.add_right_comm] at hF

namespace Handler

variable (h : Handler) (answers : Nat → Answer) (last : Last)

/-- The `n`-th answer makes the handler go on. -/
def GoesOn (answers : Nat → Answer) (n : Nat) : Prop := (answers n).verdict = .goOn

instance (answers : Nat → Answer) (n : Nat) : Decidable (GoesOn answers n) :=
  inferInstanceAs (Decidable ((answers n).verdict = .goOn))

/-- `Exec` of the `n`-th event works. -/
def Accepted (answers : Nat → Answer) (n : Nat) : Prop := (answers n).verdict ≠ .failed

instance (answers : Nat → Answer) (n : Nat) : Decidable (Accepted answers n) :=
  inferInstanceAs (Decidable ((answers n).verdict ≠ .failed))

theorem closing_proceed (a : Answer) (log : List Action) :
    Closing (events (h.proceed a log)) ↔
      a.verdict ≠ .failed ∧ (a.verdict = .goOn → Closing (events log)) := by
  cases ha : a.verdict with
  | goOn =>
    obtain ⟨ws, hws, heq⟩ := h.proceed_goOn ha
    rw [heq, events_append, events_quiet hws, List.nil_append]
    simp
  | stop =>
    obtain ⟨ws, hws, heq⟩ := h.proceed_stop ha
    rw [heq, events_append, events_quiet hws, List.nil_append]
    exact iff_of_true closing_close ⟨nofun, nofun⟩
  | failed =>
    rw [h.proceed_failed ha]
    exact iff_of_false not_closing_nil fun hend => hend.1 rfl

theorem closing_readLoop_iff (n : Nat) (buf : Bytes) (reads : List Bytes) :
    Closing (events (h.readLoop answers last n buf reads)) ↔
      UpTo (GoesOn answers) (Accepted answers) n (h.messages reads) ∧
        ¬ (last = .eof ∧ (∀ r ∈ reads, h.long r) ∧ h.CutFrom buf reads ∧
          ∀ j < h.messages reads, GoesOn answers (n + j)) := by
  apply h.readLoop_rec (motive := fun n buf reads log => Closing (events log) ↔
    UpTo (GoesOn answers) (Accepted answers) n (h.messages reads) ∧
      ¬ (last = .eof ∧ (∀ r ∈ reads, h.long r) ∧ h.CutFrom buf reads ∧
        ∀ j < h.messages reads, GoesOn answers (n + j)))
  case readFailed =>
    intro hlast n buf
    exact iff_of_true closing_close ⟨upTo_zero _ _ _, fun hend => by simp [hlast] at hend⟩
  case eof =>
    intro hlast n
    refine iff_of_true closing_close ⟨upTo_zero _ _ _, fun hend => ?_⟩
    exact (h.cutFrom_nil []).mp hend.2.2.1 rfl
  case cut =>
    intro hlast n buf hbuf
    refine iff_of_false (not_closing_close_data _) fun hend => hend.2 ⟨hlast, nofun, ?_, nofun⟩
    exact (h.cutFrom_nil buf).mpr hbuf
  case short =>
    intro n buf r reads hr
    rw [h.messages_short hr]
    exact iff_of_true closing_close
      ⟨upTo_zero _ _ _, fun hend => hr (hend.2.1 r List.mem_cons_self)⟩
  case more =>
    intro n buf r reads log hr he ih
    rw [ih, h.messages_more hr he, h.cutFrom_more hr he, List.forall_mem_cons]
    simp only [hr, true_and]
  case ended =>
    intro n buf r reads log hr he ih
    have hproceed := h.closing_proceed (answers n) log
    rw [h.messages_ended hr he, upTo_succ, forall_lt_succ_shift, h.cutFrom_ended he,
      List.forall_mem_cons]
    refine closing_data_cons.trans (hproceed.trans ?_)
    rw [ih]
    unfold GoesOn Accepted
    -- the messages after this one count only if the worker goes on
    by_cases hgo : (answers n).verdict = .goOn
    · simp [hgo, hr]
    · simp [hgo]

theorem closeConn_mem_proceed (a : Answer) (log : List Action) :
    .closeConn ∈ h.proceed a log ↔ (a.verdict = .goOn → .closeConn ∈ log) := by
  cases ha : a.verdict with
  | goOn =>
    obtain ⟨ws, hws, heq⟩ := h.proceed_goOn ha
    rw [heq, List.mem_append, or_iff_right (closeConn_not_mem_quiet hws)]
    simp
  | stop =>
    obtain ⟨ws, hws, heq⟩ := h.proceed_stop ha
    rw [heq]
    exact iff_of_true (List.mem_append_right ws List.mem_cons_self) nofun
  | failed =>
    rw [h.proceed_failed ha]
    exact iff_of_true List.mem_cons_self nofun

theorem closeConn_not_mem_sendClose : .closeConn ∉ h.sendClose := by
  simp [sendClose]

theorem closeConn_mem_readLoop_iff (n : Nat) (buf : Bytes) (reads : List Bytes) :
    .closeConn ∈ h.readLoop answers last n buf reads ↔
      ¬ (last = .eof ∧ (∀ r ∈ reads, h.long r) ∧ (∀ j < h.messages reads, GoesOn answers (n + j)) ∧
        (h.CutFrom buf reads → GoesOn answers (n + h.messages reads))) := by
  apply h.readLoop_rec (motive := fun n buf reads log => .closeConn ∈ log ↔
    ¬ (last = .eof ∧ (∀ r ∈ reads, h.long r) ∧ (∀ j < h.messages reads, GoesOn answers (n + j)) ∧
      (h.CutFrom buf reads → GoesOn answers (n + h.messages reads))))
  case readFailed =>
    intro hlast n buf
    exact iff_of_true List.mem_cons_self fun hend => by simp [hlast] at hend
  case eof =>
    intro hlast n
    refine iff_of_false h.closeConn_not_mem_sendClose fun hend => hend ⟨hlast, nofun, nofun, fun hcut => ?_⟩
    exact absurd rfl ((h.cutFrom_nil []).mp hcut)
  case cut =>
    intro hlast n buf hbuf
    rw [List.mem_append, or_iff_right h.closeConn_not_mem_sendClose, List.mem_cons,
      or_iff_right nofun, h.closeConn_mem_proceed]
    constructor
    · intro hmem hend
      exact h.closeConn_not_mem_sendClose (hmem (hend.2.2.2 ((h.cutFrom_nil buf).mpr hbuf)))
    · intro hnot hgo
      exact absurd ⟨hlast, nofun, nofun, fun _ => hgo⟩ hnot
  case short =>
    intro n buf r reads hr
    exact iff_of_true List.mem_cons_self fun hend => hr (hend.2.1 r List.mem_cons_self)
  case more =>
    intro n buf r reads log hr he ih
    rw [ih, h.messages_more hr he, h.cutFrom_more hr he, List.forall_mem_cons]
    simp only [hr, true_and]
  case ended =>
    intro n buf r reads log hr he ih
    rw [List.mem_cons, or_iff_right nofun, h.closeConn_mem_proceed, ih, h.messages_ended hr he,
      forall_lt_succ_shift, h.cutFrom_ended he, List.forall_mem_cons, Nat.add_right_comm n 1,
      ← Nat.add_assoc n (h.messages reads) 1]
    unfold GoesOn
    by_cases hgo : (answers n).verdict = .goOn
    · simp [hgo, hr]
    · simp [hgo]

/-! ## Whole connections -/

variable {answers} in
theorem goesOn_le_iff {m : Nat} :
    (∀ j ≤ m, GoesOn answers j) ↔ GoesOn answers 0 ∧ ∀ j < m, GoesOn answers (1 + j) := by
  have hshift := forall_lt_succ_shift (P := GoesOn answers) (n := 0) (m := m)
  simpa only [Nat.zero_add, Nat.lt_succ_iff] using hshift

/-- `CONNECTED`, then `DATA` events, then one `CLOSE` if the worker took `CONNECTED`. -/
def Orderly (answers : Nat → Answer) (log : List Action) : Prop :=
  ∃ k, events log =
    .connected :: List.replicate k .data ++ if Accepted answers 0 then [.close] else []

theorem orderly_start_iff (reads : List Bytes) :
    Orderly answers (h.start answers last reads) ↔
      (GoesOn answers 0 → Closing (events (h.readLoop answers last 1 [] reads))) := by
  have hproceed := h.closing_proceed (answers 0) (h.readLoop answers last 1 [] reads)
  unfold Orderly
  by_cases hacc : Accepted answers 0
  · simp only [if_pos hacc]
    refine Iff.trans ?_ (hproceed.trans (and_iff_right hacc))
    constructor
    · rintro ⟨k, hk⟩
      exact ⟨k, (List.cons.inj hk).2⟩
    · rintro ⟨k, hk⟩
      exact ⟨k, congrArg (List.cons Event.connected) hk⟩
  · have hfailed : (answers 0).verdict = .failed := not_not.mp hacc
    refine iff_of_true ⟨0, ?_⟩ fun hgo => by rw [GoesOn, hfailed] at hgo; cases hgo
    rw [start, h.proceed_failed hfailed, if_neg hacc]
    rfl

/-- **When the events of a connection are in order.** The events are `CONNECTED`, `DATA`s and one `CLOSE`
(no `CLOSE` if `CONNECTED` was not accepted) exactly if `Exec` works for every message that the run comes
to, and the run does not come to an EOF in the middle of a message. -/
theorem events_orderly_iff (reads : List Bytes) :
    Orderly answers (h.start answers last reads) ↔
      (∀ k, 1 ≤ k → k ≤ h.messages reads → (∀ j < k, GoesOn answers j) → Accepted answers k) ∧
        ¬ (last = .eof ∧ (∀ r ∈ reads, h.long r) ∧ h.Cut reads ∧
          ∀ j ≤ h.messages reads, GoesOn answers j) := by
  rw [orderly_start_iff, closing_readLoop_iff, cutFrom_empty]
  have hupTo : (∀ k, 1 ≤ k → k ≤ h.messages reads → (∀ j < k, GoesOn answers j) → Accepted answers k) ↔
      (GoesOn answers 0 → UpTo (GoesOn answers) (Accepted answers) 1 (h.messages reads)) := by
    constructor
    · intro hk hgo k hlt hpre
      refine hk (1 + k) (by omega) (by omega) fun j hj => ?_
      cases j with
      | zero => exact hgo
      | succ j => exact Nat.add_comm j 1 ▸ hpre j (by omega)
    · intro hupTo k hpos hle hpre
      have hF := hupTo (hpre 0 (by omega)) (k - 1) (by omega) fun j hj => hpre (1 + j) (by omega)
      rwa [Nat.add_sub_cancel' hpos] at hF
  rw [goesOn_le_iff, hupTo]
  by_cases hgo : GoesOn answers 0
  · simp [hgo]
  · simp [hgo]

/-- A message without its terminator, and EOF: `CLOSE` is sent twice, and `DATA` after it. -/
theorem data_after_close :
    events (lineHandler.start continuing .eof [[97, 98]]) = [.connected, .close, .data, .close] ∧
      ¬ Orderly continuing (lineHandler.start continuing .eof [[97, 98]]) := by
  have hevents : events (lineHandler.start continuing .eof [[97, 98]]) =
      [.connected, .close, .data, .close] := by decide +kernel
  refine ⟨hevents, ?_⟩
  rintro ⟨k, hk⟩
  rw [hevents] at hk
  cases k with
  | zero =>
    split at hk <;> cases hk
  | succ k => cases hk

/-- **When a connection is closed.** When `Start` returns, the connection has been closed and its id is
not in the map, exactly if the run does not come to an EOF with a worker that goes on until then. -/
theorem conn_closed_iff (reads : List Bytes) (connections : List Bytes) :
    (.closeConn ∈ (h.serve answers last reads connections).1 ∧
      h.uuid ∉ (h.serve answers last reads connections).2) ↔
      ¬ (last = .eof ∧ (∀ r ∈ reads, h.long r) ∧ (∀ j ≤ h.messages reads, GoesOn answers j) ∧
        (h.Cut reads → GoesOn answers (h.messages reads + 1))) := by
  have hmap : h.uuid ∉ (h.serve answers last reads connections).2 := by simp [serve]
  rw [and_iff_left hmap, serve, start, List.mem_cons, or_iff_right nofun, closeConn_mem_proceed,
    closeConn_mem_readLoop_iff, cutFrom_empty, goesOn_le_iff, Nat.add_comm 1 (h.messages reads)]
  unfold GoesOn
  by_cases hgo : (answers 0).verdict = .goOn
  · simp [hgo]
  · simp [hgo]

/-- EOF right after the connection was made: it is not closed. -/
theorem conn_left_open :
    (lineHandler.serve continuing .eof [] []).1 =
        [.exec (lineHandler.info .connected) [], .exec (lineHandler.info .close) []] ∧
      .closeConn ∉ (lineHandler.serve continuing .eof [] []).1 := by
  decide +kernel

end Handler

end RoadRunner.Tcp
