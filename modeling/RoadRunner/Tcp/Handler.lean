import RoadRunner.Basic

/-!
# The TCP handler

The model of `tcp/config.go` and `tcp/handler`: one connection, from `Start` to its return. What the
peer and the worker do is given: the bytes of each `Read` and what the last one returns (`Last`), and
the answer to each event (`Answer`). What the handler does is a list of actions.

* `Config.initDefault`: every server gets a delimiter (`initDefault_delim`).
* `handleAndContinue`, `readLoop`, `start`, `serve`: the functions of the source. `proceed` is what
  follows an event whose answer is read, `deliver` the part of the loop after the reads.
* `Verdict`: all that the rest of a run depends on in an answer; `proceed_goOn`, `proceed_stop` say what
  is done for it.

Marshaling a `ServerInfo`, which has strings only, does not fail. The recycled buffers and payloads are
reset when they are put back, so each one is as new.
-/

namespace RoadRunner.Tcp

/-! ## Configuration -/

/-- `Server`. -/
structure Server where
  addr : Bytes
  delimiter : Bytes
  delimBytes : Bytes := []
  deriving DecidableEq

/-- `Config`. -/
structure Config where
  servers : List (String × Server)
  readBufferSize : Int
  deriving DecidableEq

/-- The body of the loop of `InitDefault`, for the server `k`. -/
def Server.initDefault (k : String) (v : Server) : Except Err Server :=
  let v := if v.delimiter = [] then { v with delimiter := [13, 10], delimBytes := [13, 10] } else v
  if v.addr = [] then .error (.errorf "empty address for the server: %s" (.str k))
  else if 0 < v.delimBytes.length then .ok v
  else .ok { v with delimBytes := v.delimiter }

/-- `InitDefault`. -/
def Config.initDefault (c : Config) : Except Err Config := do
  if c.servers = [] then throw (.str "no servers registered")
  let servers ← c.servers.mapM fun s => do return (s.1, ← s.2.initDefault s.1)
  return { servers, readBufferSize := if c.readBufferSize = 0 then 1024 * 1024 * 1 else c.readBufferSize }

theorem Server.initDefault_delim {k : String} {v v' : Server} (h : v.initDefault k = .ok v') :
    v'.delimBytes ≠ [] := by
  unfold initDefault at h
  by_cases hd : v.delimiter = []
  · simp only [hd, ↓reduceIte] at h
    split at h
    · cases h
    · cases h
      exact List.cons_ne_nil _ _
  · simp only [hd, ↓reduceIte] at h
    split at h
    · cases h
    · split at h
      · rename_i hlen
        cases h
        exact List.ne_nil_of_length_pos hlen
      · cases h
        exact hd

theorem Config.initDefault_delim {c c' : Config} (h : c.initDefault = .ok c') :
    ∀ s ∈ c'.servers, s.2.delimBytes ≠ [] := by
  have hall : ∀ (l l' : List (String × Server)),
      (l.mapM fun s => do return (s.1, ← s.2.initDefault s.1) : Except Err _) = .ok l' →
      ∀ s ∈ l', s.2.delimBytes ≠ [] := by
    intro l
    induction l with
    | nil =>
      intro l' h s hs
      cases h
      exact absurd hs List.not_mem_nil
    | cons s l ih =>
      intro l' h
      rw [List.mapM_cons] at h
      cases hs : s.2.initDefault s.1 with
      | error e => rw [hs] at h; cases h
      | ok v =>
        cases hl : (l.mapM fun s => do return (s.1, ← s.2.initDefault s.1) : Except Err _) with
        | error e => rw [hs, hl] at h; cases h
        | ok l'' =>
          rw [hs, hl] at h
          cases h
          intro t ht
          rcases List.mem_cons.mp ht with rfl | ht
          · exact Server.initDefault_delim hs
          · exact ih l'' hl t ht
  unfold initDefault at h
  by_cases hc : c.servers = []
  · rw [if_pos hc] at h; cases h
  · rw [if_neg hc] at h
    cases hl : (c.servers.mapM fun s => do return (s.1, ← s.2.initDefault s.1) : Except Err _) with
    | error e => rw [hl] at h; cases h
    | ok l' =>
      rw [hl] at h
      cases h
      exact hall c.servers l' hl

/-! ## The handler -/

/-- The events that are sent to the worker. -/
inductive Event where
  | connected
  | data
  | close
  deriving DecidableEq

/-- The context of a payload. -/
structure ServerInfo where
  remoteAddr : Bytes
  server : Bytes
  uuid : Bytes
  event : Event
  deriving DecidableEq

/-- How the worker answers an event: `Exec` fails, or it gives a payload. `writes` tells whether a
`Write` of its body to the connection works. -/
inductive Answer where
  | failed
  | rsp (context body : Bytes) (writes : Bool)
  deriving DecidableEq

/-- What the last `Read` returns, and each one after it. -/
inductive Last where
  | eof
  | failed
  deriving DecidableEq

/-- What the handler does: `Exec` of a payload, `Write` and `Close` of the connection. -/
inductive Action where
  | exec (context : ServerInfo) (body : Bytes)
  | write (body : Bytes)
  | closeConn
  deriving DecidableEq

/-- The fields of the handler that `Start` reads. -/
structure Handler where
  remoteAddr : Bytes
  serverName : Bytes
  uuid : Bytes
  delim : Bytes
  /-- See `Config.initDefault_delim`. -/
  delim_ne : delim ≠ []

namespace Handler

variable (h : Handler)

/-- `getServInfo`. -/
def info (event : Event) : ServerInfo := ⟨h.remoteAddr, h.serverName, h.uuid, event⟩

/-- `sendClose`. Its answer is not read. -/
def sendClose : List Action := [.exec (h.info .close) []]

/-- `handleAndContinue`: what it does, and its result. -/
def handleAndContinue (context body : Bytes) (writes : Bool) : List Action × Bool :=
  if context = ascii "CONTINUE" then ([], true)
  else if context = ascii "WRITE" then
    if ¬ writes then (Action.write body :: Action.closeConn :: h.sendClose, false) else ([.write body], true)
  else if context = ascii "WRITECLOSE" then
    if ¬ writes then (Action.write body :: Action.closeConn :: h.sendClose, false)
    else (Action.write body :: Action.closeConn :: h.sendClose, false)
  else if context = ascii "CLOSE" then (Action.closeConn :: h.sendClose, false)
  else (Action.closeConn :: h.sendClose, false)

/-- What follows an event with this answer, where `next` follows if the handler goes on. -/
def proceed (answer : Answer) (next : List Action) : List Action :=
  match answer with
  | .failed => [.closeConn]
  | .rsp context body writes =>
    let (actions, go) := h.handleAndContinue context body writes
    actions ++ if go then next else []

/-- The part of `readLoop` after the reads, with the buffer `buf`. -/
def deliver (answer : Answer) (buf : Bytes) (next : List Action) : List Action :=
  if buf = [] then [] else .exec (h.info .data) buf :: h.proceed answer next

/-- The read ends with the delimiter. -/
def ends (r : Bytes) : Bool := r.drop (r.length - h.delim.length) = h.delim

/-- `readLoop`, for the reads that are left. The answer to the `n`-th event of the connection is
`answers n`; the buffer is `buf`. -/
def readLoop (answers : Nat → Answer) (last : Last) : Nat → Bytes → List Bytes → List Action
  | n, buf, [] =>
    match last with
    -- after the event the loop reads EOF once more, with an empty buffer
    | .eof => h.sendClose ++ h.deliver (answers n) buf h.sendClose
    | .failed => .closeConn :: h.sendClose
  | n, buf, r :: reads =>
    if r.length < h.delim.length then .closeConn :: h.sendClose
    else if h.ends r then h.deliver (answers n) (buf ++ r) (readLoop answers last (n + 1) [] reads)
    else readLoop answers last n (buf ++ r) reads

/-- `Start`, but for the map of connections. -/
def start (answers : Nat → Answer) (last : Last) (reads : List Bytes) : List Action :=
  .exec (h.info .connected) [] :: h.proceed (answers 0) (h.readLoop answers last 1 [] reads)

/-- `Start`: what it does, and the keys of the map of connections after it. -/
def serve (answers : Nat → Answer) (last : Last) (reads : List Bytes) (connections : List Bytes) :
    List Action × List Bytes :=
  let connections := h.uuid :: connections.filter (· ≠ h.uuid)
  let actions := h.start answers last reads
  (actions, connections.filter (· ≠ h.uuid))

end Handler

/-! ## Verdicts -/

/-- What the handler does after an answer: go on, stop, or give up. -/
inductive Verdict where
  | goOn
  | stop
  | failed
  deriving DecidableEq

/-- What the handler does after an answer. -/
def Answer.verdict : Answer → Verdict
  | .failed => .failed
  | .rsp context _ writes =>
    if context = ascii "CONTINUE" ∨ (context = ascii "WRITE" ∧ writes) then .goOn else .stop

/-- The action is no event and does not close the connection. -/
def Action.quiet : Action → Bool
  | .write _ => true
  | _ => false

namespace Handler

variable (h : Handler)

/-- If the handler goes on, it has written to the connection at most. -/
theorem proceed_goOn {a : Answer} (ha : a.verdict = .goOn) :
    ∃ ws : List Action, (∀ x ∈ ws, x.quiet) ∧ ∀ next, h.proceed a next = ws ++ next := by
  cases a with
  | failed => cases ha
  | rsp context body writes =>
    simp only [Answer.verdict] at ha
    split at ha
    · rename_i hc
      by_cases hcont : context = ascii "CONTINUE"
      · exact ⟨[], nofun, fun next => by simp [proceed, handleAndContinue, hcont]⟩
      · obtain ⟨hw, hok⟩ := hc.resolve_left hcont
        refine ⟨[.write body], by simp [Action.quiet], fun next => ?_⟩
        simp only [proceed, handleAndContinue, if_neg hcont, if_pos hw, hok]
        simp
    · cases ha

/-- If it stops, it has closed the connection and sends `CLOSE`. -/
theorem proceed_stop {a : Answer} (ha : a.verdict = .stop) :
    ∃ ws : List Action, (∀ x ∈ ws, x.quiet) ∧
      ∀ next, h.proceed a next = ws ++ .closeConn :: h.sendClose := by
  cases a with
  | failed => cases ha
  | rsp context body writes =>
    simp only [Answer.verdict] at ha
    split at ha
    · cases ha
    · rename_i hc
      rw [not_or, not_and] at hc
      obtain ⟨hcont, hwrite⟩ := hc
      by_cases hw : context = ascii "WRITE"
      · refine ⟨[.write body], by simp [Action.quiet], fun next => ?_⟩
        simp only [proceed, handleAndContinue, if_neg hcont, if_pos hw, hwrite hw]
        simp
      · by_cases hwc : context = ascii "WRITECLOSE"
        · refine ⟨[.write body], by simp [Action.quiet], fun next => ?_⟩
          simp only [proceed, handleAndContinue, if_neg hcont, if_neg hw, if_pos hwc, ite_self]
          simp
        · refine ⟨[], nofun, fun next => ?_⟩
          simp only [proceed, handleAndContinue, if_neg hcont, if_neg hw, if_neg hwc, ite_self]
          simp

theorem proceed_failed {a : Answer} (ha : a.verdict = .failed) (next : List Action) :
    h.proceed a next = [.closeConn] := by
  cases a with
  | failed => rfl
  | rsp context body writes =>
    simp only [Answer.verdict] at ha
    split at ha <;> cases ha

end Handler

end RoadRunner.Tcp
