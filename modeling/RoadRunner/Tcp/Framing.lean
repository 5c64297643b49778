import RoadRunner.Tcp.Handler

/-!
# Framing of TCP messages

The loop looks for the delimiter at the end of each read. So a message is framed however its bytes are
split, as long as no read is shorter than the delimiter.

* `readLoop_of_long`, `readLoop_of_short`: what the loop does with a message without and with such a
  read.
* `framing_iff`: which splittings the loop can read.
-/

namespace RoadRunner.Tcp

/-- `delim` occurs in `msg` at its end only. -/
def OnlyAtEnd (delim msg : Bytes) : Prop := ∀ pre post, msg = pre ++ delim ++ post → post = []

/-- The bodies of the `DATA` events. -/
def payloads (log : List Action) : List Bytes :=
  log.filterMap fun
    | .exec context body => if context.event = .data then some body else none
    | _ => none

theorem payloads_append (as bs : List Action) : payloads (as ++ bs) = payloads as ++ payloads bs :=
  List.filterMap_append

theorem payloads_quiet {ws : List Action} (h : ∀ x ∈ ws, x.quiet) : payloads ws = [] := by
  refine List.filterMap_eq_nil_iff.mpr fun x hx => ?_
  cases x with
  | write body => rfl
  | exec context body => cases h _ hx
  | closeConn => rfl

namespace Handler

variable (h : Handler)

theorem ends_iff (r : Bytes) : h.ends r ↔ h.delim <:+ r := by
  rw [ends, decide_eq_true_iff, List.suffix_iff_eq_drop, eq_comm]

/-- A read that is not the last one of its message does not end with the delimiter. -/
theorem not_ends_of_only {msg buf r rest : Bytes} (honly : OnlyAtEnd h.delim msg)
    (hmsg : msg = buf ++ r ++ rest) (hrest : rest ≠ []) : ¬ h.ends r := by
  intro hr
  obtain ⟨s, rfl⟩ := (h.ends_iff r).mp hr
  exact hrest (honly (buf ++ s) rest (by simpa using hmsg))

/-- The last read of a message ends with the delimiter, if it is long enough. -/
theorem ends_of_last {body buf r : Bytes} (hmsg : body ++ h.delim = buf ++ r)
    (hr : h.delim.length ≤ r.length) : h.ends r := by
  refine (h.ends_iff r).mpr (List.suffix_of_suffix_length_le ?_ (List.suffix_append buf r) hr)
  exact hmsg ▸ List.suffix_append body h.delim

variable (answers : Nat → Answer) (last : Last)

theorem readLoop_of_long {body : Bytes} (honly : OnlyAtEnd h.delim (body ++ h.delim)) {reads : List Bytes}
    (hne : ∀ r ∈ reads, r ≠ []) (hlong : ∀ r ∈ reads, h.delim.length ≤ r.length) (n : Nat) {buf : Bytes}
    (hmsg : body ++ h.delim = buf ++ reads.flatten) (hreads : reads ≠ []) (more : List Bytes) :
    h.readLoop answers last n buf (reads ++ more) =
      .exec (h.info .data) (body ++ h.delim) ::
        h.proceed (answers n) (h.readLoop answers last (n + 1) [] more) := by
  induction reads generalizing buf with
  | nil => exact absurd rfl hreads
  | cons r reads ih =>
    have hr := hlong r List.mem_cons_self
    rw [List.cons_append, readLoop, if_neg (by omega)]
    rw [List.flatten_cons, ← List.append_assoc] at hmsg
    cases reads with
    | nil =>
      rw [List.flatten_nil, List.append_nil] at hmsg
      have hmsg_ne : body ++ h.delim ≠ [] := fun hnil => h.delim_ne (List.append_eq_nil_iff.mp hnil).2
      rw [if_pos (h.ends_of_last hmsg hr), ← hmsg, deliver, if_neg hmsg_ne]
      rfl
    | cons r' reads =>
      have hrest : (r' :: reads).flatten ≠ [] := fun hnil =>
        hne r' (by simp) (List.append_eq_nil_iff.mp hnil).1
      rw [if_neg (h.not_ends_of_only honly hmsg hrest)]
      exact ih (fun x hx => hne x (List.mem_cons_of_mem r hx))
        (fun x hx => hlong x (List.mem_cons_of_mem r hx)) hmsg (List.cons_ne_nil _ _)

theorem readLoop_of_short {msg : Bytes} (honly : OnlyAtEnd h.delim msg) {reads : List Bytes}
    (hne : ∀ r ∈ reads, r ≠ []) (hshort : ∃ r ∈ reads, r.length < h.delim.length) (n : Nat) {buf : Bytes}
    (hmsg : msg = buf ++ reads.flatten) (more : List Bytes) :
    h.readLoop answers last n buf (reads ++ more) = .closeConn :: h.sendClose := by
  induction reads generalizing buf with
  | nil => exact absurd hshort (by simp)
  | cons r reads ih =>
    rw [List.cons_append, readLoop]
    by_cases hr : r.length < h.delim.length
    · rw [if_pos hr]
    · obtain ⟨r', hr', hlt⟩ := hshort
      have hmem : r' ∈ reads := (List.mem_cons.mp hr').resolve_left fun he => hr (he ▸ hlt)
      have hrest : reads.flatten ≠ [] := fun hnil =>
        hne r' hr' (List.flatten_eq_nil_iff.mp hnil r' hmem)
      rw [List.flatten_cons, ← List.append_assoc] at hmsg
      rw [if_neg hr, if_neg (h.not_ends_of_only honly hmsg hrest)]
      exact ih (fun x hx => hne x (List.mem_cons_of_mem r hx)) ⟨r', hmem, hlt⟩ hmsg

/-- Without more reads there is no more `DATA` event. -/
theorem payloads_end (n : Nat) (a : Answer) :
    payloads (h.proceed a (h.readLoop answers last n [] [])) = [] := by
  have hend : payloads (h.readLoop answers last n [] []) = [] := by
    cases last <;> rfl
  cases ha : a.verdict with
  | goOn =>
    obtain ⟨ws, hws, heq⟩ := h.proceed_goOn ha
    rw [heq, payloads_append, payloads_quiet hws, hend]
    rfl
  | stop =>
    obtain ⟨ws, hws, heq⟩ := h.proceed_stop ha
    rw [heq, payloads_append, payloads_quiet hws]
    rfl
  | failed => rw [h.proceed_failed ha]; rfl

/-- **Which splittings of a message are framed.** However a message and its terminator are split into
nonempty reads, the loop hands the worker the message as one `DATA` payload before anything else, and
goes on with the reads after it, exactly if no read of it is shorter than the delimiter. -/
theorem framing_iff (n : Nat) (body : Bytes) (reads : List Bytes)
    (honly : OnlyAtEnd h.delim (body ++ h.delim)) (hsplit : reads.flatten = body ++ h.delim)
    (hne : ∀ r ∈ reads, r ≠ []) :
    ((∀ more, h.readLoop answers last n [] (reads ++ more) =
        .exec (h.info .data) (body ++ h.delim) ::
          h.proceed (answers n) (h.readLoop answers last (n + 1) [] more)) ∧
      payloads (h.readLoop answers last n [] reads) = [body ++ h.delim]) ↔
    ∀ r ∈ reads, h.delim.length ≤ r.length := by
  constructor
  · rintro ⟨hframed, -⟩
    by_contra hall
    have hshort : ∃ r ∈ reads, r.length < h.delim.length := by simpa using hall
    have hmsg : body ++ h.delim = [] ++ reads.flatten := hsplit.symm
    have hloop := h.readLoop_of_short answers last honly hne hshort n hmsg []
    rw [hframed []] at hloop
    cases hloop
  · intro hlong
    have hreads : reads ≠ [] := by
      rintro rfl
      exact h.delim_ne (List.append_eq_nil_iff.mp hsplit.symm).2
    have hmsg : body ++ h.delim = [] ++ reads.flatten := hsplit.symm
    have hframed := h.readLoop_of_long answers last honly hne hlong n hmsg hreads
    refine ⟨hframed, ?_⟩
    rw [← List.append_nil reads, hframed []]
    exact congrArg ((body ++ h.delim) :: ·) (h.payloads_end answers last (n + 1) (answers n))

end Handler

/-- A handler of lines that end with `\r\n`. -/
def lineHandler : Handler where
  remoteAddr := ascii "127.0.0.1:40000"
  serverName := ascii "lines"
  uuid := ascii "1"
  delim := [13, 10]
  delim_ne := List.cons_ne_nil _ _

/-- A worker that answers every event with `CONTINUE`. -/
def continuing : Nat → Answer := fun _ => .rsp (ascii "CONTINUE") [] true

/-- A line without `\r` ends at its terminator only. -/
theorem onlyAtEnd_line {body : Bytes} (h : 13 ∉ body) : OnlyAtEnd [13, 10] (body ++ [13, 10]) := by
  intro pre post hmsg
  induction body generalizing pre with
  | nil =>
    have hlen := congrArg List.length hmsg
    simp only [List.nil_append, List.length_append, List.length_cons, List.length_nil] at hlen
    exact List.length_eq_zero_iff.mp (by omega)
  | cons b body ih =>
    cases pre with
    | nil => exact absurd (List.cons.inj hmsg).1 fun hb => h (hb ▸ List.mem_cons_self)
    | cons a pre => exact ih (fun hmem => h (List.mem_cons_of_mem b hmem)) pre (List.cons.inj hmsg).2

/-- The line `abcd` in the reads `ab`, `cd` and `\r\n`. -/
theorem framing_three_reads :
    payloads (lineHandler.readLoop continuing .eof 1 [] [[97, 98], [99, 100], [13, 10]]) =
      [[97, 98, 99, 100, 13, 10]] :=
  ((lineHandler.framing_iff continuing .eof 1 [97, 98, 99, 100] [[97, 98], [99, 100], [13, 10]]
    (onlyAtEnd_line (by decide)) rfl (by decide)).mpr (by decide)).2

/-- The line `a` in the reads `a\r` and `\n`: the connection is closed. -/
theorem split_delimiter_closes :
    OnlyAtEnd lineHandler.delim ([97] ++ lineHandler.delim) ∧
      [[97, 13], [10]].flatten = [97] ++ lineHandler.delim ∧
      lineHandler.readLoop continuing .eof 1 [] [[97, 13], [10]] =
        [.closeConn, .exec (lineHandler.info .close) []] :=
  ⟨onlyAtEnd_line (by decide), by decide +kernel⟩

end RoadRunner.Tcp
