import RoadRunner.Memory.Pubsub

/-!
# The websocket command loop

The model of `http/middleware/websockets/connection` and `executor`. What the client, the validator, the
network and the pub/sub driver do is given: one `Turn` for each iteration of the loop. A driver that
talks to a server can fail part of the way (`Fault`): `Subscribe` and `Unsubscribe` then return an error
after the first few topics.

Marshaling a `Reply`, which has strings only, does not fail, so `sent` has the replies themselves.
-/

namespace RoadRunner.Websockets

/-! ## Frames -/

/-- `ws.OpCode`. -/
abbrev OpCode := UInt8

/-- `ws.OpClose`. -/
def opClose : OpCode := 8

/-- `ws.Header`. The length is that of the payload. -/
structure Header where
  fin : Bool
  opCode : OpCode
  masked : Bool
  mask : Fin 4 → UInt8

/-- What the connection has for a `Read`. -/
inductive Input where
  /-- `ReadHeader` returns `io.EOF`. -/
  | eof
  /-- `ReadHeader` returns another error. -/
  | failed
  /-- A header and, unless `ReadFull` fails, its payload. -/
  | frame (header : Header) (payload : Option Bytes)

/-- `ws.Cipher` from offset 0. -/
def cipher (payload : Bytes) (mask : Fin 4 → UInt8) : Bytes :=
  payload.mapIdx fun i b => b ^^^ mask ⟨i % 4, Nat.mod_lt i (by decide)⟩

/-- `Connection.Read`. -/
def read : Input → Except Err (Bytes × OpCode)
  | .eof => .ok ([], opClose)
  | .failed => .error (.op "websocket_read" (.lib "ReadHeader"))
  | .frame header payload =>
    if header.opCode = opClose then .ok ([], opClose)
    else match payload with
      | none => .error (.op "websocket_read" (.lib "ReadFull"))
      | some payload =>
        .ok (if header.masked then cipher payload header.mask else payload, header.opCode)

/-! ## Commands -/

/-- `websocketsv1.Message`: the fields that the loop reads. -/
structure Command where
  command : Bytes
  topics : List Bytes
  deriving DecidableEq

/-- `executor.Response`. -/
structure Reply where
  topic : String
  payload : List Bytes
  deriving DecidableEq

/-- How a `Subscribe` or `Unsubscribe` goes: it works, or it fails after some topics. -/
abbrev Fault := Option Nat

/-- The topics that are reached. -/
def Fault.reach : Fault → List Bytes → List Bytes
  | none, topics => topics
  | some n, topics => topics.take n

/-- What one iteration of the loop meets. -/
structure Turn where
  input : Input
  /-- The validator returns no error. -/
  approved : Bool := true
  /-- `Write` works. -/
  writes : Bool := true
  subscribe : Fault := none
  unsubscribe : Fault := none

/-- `Executor`, and what it has written. -/
structure Executor where
  connID : Bytes
  actualTopics : Finset Bytes := ∅
  sent : List Reply := []
  deriving DecidableEq

/-- How an iteration of the loop ends. -/
inductive Flow where
  | next
  | ret (err : Option Err)
  deriving DecidableEq

namespace Executor

variable {S : Type} [Memory.Bst S] (unmarshal : Bytes → Option Command) (e : Executor) (s : S)

/-- The error of a loop that returns. -/
def fail (err : Err) : Flow := .ret (some (.op "executor_command_loop" err))

/-- `Executor.Set`. -/
def set (topics : List Bytes) (sub unsub : Fault) : Option Err × Executor × S :=
  let s := Memory.subscribe s e.connID (sub.reach topics)
  if sub.isSome then
    (some (.lib "Subscribe"), e, Memory.unsubscribe s e.connID (unsub.reach topics))
  else (none, { e with actualTopics := e.actualTopics ∪ topics.toFinset }, s)

/-- `Executor.Leave`. -/
def leave (topics : List Bytes) (unsub : Fault) : Option Err × Executor × S :=
  let s := Memory.unsubscribe s e.connID (unsub.reach topics)
  if unsub.isSome then (some (.lib "Unsubscribe"), e, s)
  else (none, { e with actualTopics := e.actualTopics \ topics.toFinset }, s)

/-- `CleanUp`, with the order in which `actualTopics` is ranged over and how each `Unsubscribe` goes. -/
def cleanUp (order : List Bytes) (unsub : Bytes → Fault) : Executor × S :=
  ({ e with actualTopics := ∅ },
    order.foldl (fun s topic => Memory.unsubscribe s e.connID ((unsub topic).reach [topic])) s)

/-- `Write` of a marshaled reply. -/
def write (reply : Reply) : Executor := { e with sent := e.sent ++ [reply] }

/-- The `switch` on the command. -/
def execute (t : Turn) (msg : Command) : Flow × Executor × S :=
  if msg.command = ascii "join" then
    if t.approved then
      if t.writes then
        match (e.write ⟨"@join", msg.topics⟩).set s msg.topics t.subscribe t.unsubscribe with
        | (none, e, s) => (.next, e, s)
        | (some err, e, s) => (fail err, e, s)
      else (fail (.op "websocket_write" (.lib "Write")), e, s)
    else if t.writes then (.next, e.write ⟨"#join", msg.topics⟩, s)
    else (fail (.errorf₂ "%v,%v" (.lib "accessValidator") (.op "websocket_write" (.lib "Write"))), e, s)
  else if msg.command = ascii "leave" then
    if t.writes then
      match (e.write ⟨"@leave", msg.topics⟩).leave s msg.topics t.unsubscribe with
      | (none, e, s) => (.next, e, s)
      | (some err, e, s) => (fail err, e, s)
    else (fail (.op "websocket_write" (.lib "Write")), e, s)
  -- the command headers and the unknown ones
  else (.next, e, s)

/-- One iteration of the loop. -/
def turn (t : Turn) : Flow × Executor × S :=
  match read t.input with
  | .error err => (fail err, e, s)
  | .ok (data, opCode) =>
    if opCode = opClose then (.ret none, e, s)
    else match unmarshal data with
      | none => (.next, e, s)
      | some msg => e.execute s t msg

/-- `StartCommandLoop`; `none` while it waits for the client. -/
def startCommandLoop (e : Executor) (s : S) : List Turn → Option (Option Err × Executor × S)
  | [] => none
  | t :: turns =>
    match e.turn unmarshal s t with
    | (.ret err, e, s) => some (err, e, s)
    | (.next, e, s) => startCommandLoop e s turns

end Executor

/-! ## The dialogue -/

/-- What a turn comes to. -/
inductive Kind where
  /-- The client ends the session. -/
  | closes
  /-- A read, a write, a `Subscribe` or an `Unsubscribe` fails. -/
  | fails
  /-- No subscription changes. -/
  | idle
  | joins (topics : List Bytes)
  | leaves (topics : List Bytes)
  deriving DecidableEq

namespace Kind

/-- The kind of a command. -/
def ofCommand (t : Turn) (msg : Command) : Kind :=
  if msg.command = ascii "join" then
    if t.writes = false ∨ t.approved ∧ t.subscribe.isSome then .fails
    else if t.approved then .joins msg.topics else .idle
  else if msg.command = ascii "leave" then
    if t.writes = false ∨ t.unsubscribe.isSome then .fails else .leaves msg.topics
  else .idle

/-- What a turn of the loop does. -/
def ofTurn (unmarshal : Bytes → Option Command) (t : Turn) : Kind :=
  match read t.input with
  | .error _ => .fails
  | .ok (data, opCode) =>
    if opCode = opClose then .closes else ((unmarshal data).map (ofCommand t)).getD .idle

/-- The session goes on. -/
def GoesOn (k : Kind) : Prop := k ≠ .closes ∧ k ≠ .fails

instance (k : Kind) : Decidable k.GoesOn := inferInstanceAs (Decidable (_ ∧ _))

/-- The topics of the client after a turn. -/
def apply (topics : Finset Bytes) : Kind → Finset Bytes
  | .joins ts => topics ∪ ts.toFinset
  | .leaves ts => topics \ ts.toFinset
  | _ => topics

/-- The storage after a turn of the client `connID`. -/
def store {S : Type} [Memory.Bst S] (connID : Bytes) (s : S) : Kind → S
  | .joins ts => Memory.subscribe s connID ts
  | .leaves ts => Memory.unsubscribe s connID ts
  | _ => s

end Kind

section

variable {S : Type} [Memory.Bst S]

/-- The topics that a dialogue leaves a client with. -/
def replay (topics : Finset Bytes) (ks : List Kind) : Finset Bytes := ks.foldl Kind.apply topics

/-- The storage that a dialogue of the client `connID` leaves. -/
def recorded (connID : Bytes) (s : S) (ks : List Kind) : S :=
  ks.foldl (Kind.store connID) s

/-- The storage lists `connID` under these topics and no others. -/
def Listed (connID : Bytes) (topics : Finset Bytes) (s : S) : Prop :=
  ∀ topic, connID ∈ Memory.Bst.get s topic ↔ topic ∈ topics

theorem Listed.step [Memory.LawfulBst S] {connID : Bytes} {topics : Finset Bytes} {s : S}
    (h : Listed connID topics s) (k : Kind) : Listed connID (k.apply topics) (k.store connID s) := by
  intro topic
  cases k with
  | joins ts => simp [Kind.apply, Kind.store, Memory.mem_subscribe, h topic]
  | leaves ts => simp [Kind.apply, Kind.store, Memory.mem_unsubscribe, h topic]
  | closes | fails | idle => exact h topic

theorem Listed.replay [Memory.LawfulBst S] {connID : Bytes} {topics : Finset Bytes} {s : S}
    (h : Listed connID topics s) (ks : List Kind) :
    Listed connID (replay topics ks) (recorded connID s ks) := by
  induction ks generalizing topics s with
  | nil => exact h
  | cons k ks ih => exact ih (h.step k)

/-! ## The loop follows the dialogue -/

/-- The result of a turn, but for what was sent. -/
inductive Result (e : Executor) (s : S) (k : Kind) : Flow × Executor × S → Prop where
  | closed (h : k = .closes) : Result e s k (.ret none, e, s)
  | failed (h : k = .fails) (err : Err) (e' : Executor) (s' : S) :
    Result e s k (.ret (some err), e', s')
  | next (h : k.GoesOn) (sent : List Reply) :
    Result e s k (.next, ⟨e.connID, k.apply e.actualTopics, sent⟩, k.store e.connID s)

end

namespace Executor

variable {S : Type} [Memory.Bst S] {unmarshal : Bytes → Option Command} {e : Executor} {s : S}

theorem execute_result (t : Turn) (msg : Command) :
    Result e s (Kind.ofCommand t msg) (e.execute s t msg) := by
  unfold execute Kind.ofCommand
  by_cases hjoin : msg.command = ascii "join"
  · simp only [hjoin, ↓reduceIte]
    cases hw : t.writes
    · cases t.approved <;> exact .failed rfl _ _ _
    · cases ha : t.approved
      · exact .next (k := .idle) ⟨nofun, nofun⟩ _
      · cases hs : t.subscribe
        · exact .next (k := .joins _) ⟨nofun, nofun⟩ _
        · exact .failed rfl _ _ _
  · simp only [hjoin, ↓reduceIte]
    by_cases hleave : msg.command = ascii "leave"
    · simp only [hleave, ↓reduceIte]
      cases hw : t.writes
      · exact .failed rfl _ _ _
      · cases hu : t.unsubscribe
        · exact .next (k := .leaves _) ⟨nofun, nofun⟩ _
        · exact .failed rfl _ _ _
    · simp only [hleave, ↓reduceIte]
      exact .next (k := .idle) ⟨nofun, nofun⟩ _

/-- Each turn does what its kind says. -/
theorem turn_result (t : Turn) : Result e s (Kind.ofTurn unmarshal t) (e.turn unmarshal s t) := by
  unfold turn Kind.ofTurn
  cases read t.input with
  | error err => exact .failed rfl _ _ _
  | ok r =>
    obtain ⟨data, opCode⟩ := r
    by_cases hclose : opCode = opClose
    · simp only [hclose, ↓reduceIte]
      exact .closed rfl
    · simp only [hclose, ↓reduceIte]
      cases unmarshal data with
      | none => exact .next (k := .idle) ⟨nofun, nofun⟩ _
      | some msg => exact execute_result t msg

/-- The loop over turns that all go on. -/
theorem startCommandLoop_append {turns : List Turn} (h : ∀ t ∈ turns, (Kind.ofTurn unmarshal t).GoesOn)
    (rest : List Turn) : ∃ sent, startCommandLoop unmarshal e s (turns ++ rest) =
      startCommandLoop unmarshal
        ⟨e.connID, replay e.actualTopics (turns.map (Kind.ofTurn unmarshal)), sent⟩
        (recorded e.connID s (turns.map (Kind.ofTurn unmarshal))) rest := by
  induction turns generalizing e s with
  | nil => exact ⟨e.sent, rfl⟩
  | cons t turns ih =>
    obtain ⟨hgo, hrest⟩ := List.forall_mem_cons.mp h
    rw [List.cons_append, startCommandLoop]
    rcases hr : e.turn unmarshal s t with ⟨flow, e', s'⟩
    have hresult : Result e s (Kind.ofTurn unmarshal t) (flow, e', s') := hr ▸ turn_result t
    cases hresult with
    | closed hk => exact absurd hk hgo.1
    | failed hk => exact absurd hk hgo.2
    | next _ sent => exact ih hrest

/-- The loop returns at the first turn that does not go on. -/
theorem startCommandLoop_ends {turns : List Turn} (h : ∀ t ∈ turns, (Kind.ofTurn unmarshal t).GoesOn)
    (t : Turn) (rest : List Turn) : ∃ sent flow,
    let e' : Executor := ⟨e.connID, replay e.actualTopics (turns.map (Kind.ofTurn unmarshal)), sent⟩
    let s' := recorded e.connID s (turns.map (Kind.ofTurn unmarshal))
    Result e' s' (Kind.ofTurn unmarshal t) flow ∧
      ∀ err e₁ s₁, flow = (.ret err, e₁, s₁) →
        startCommandLoop unmarshal e s (turns ++ t :: rest) = some (err, e₁, s₁) := by
  obtain ⟨sent, hloop⟩ := startCommandLoop_append (e := e) (s := s) h (t :: rest)
  refine ⟨sent, _, turn_result t, fun err e₁ s₁ hflow => ?_⟩
  rw [hloop, startCommandLoop, hflow]

theorem startCommandLoop_closes {turns : List Turn} (h : ∀ t ∈ turns, (Kind.ofTurn unmarshal t).GoesOn)
    {t : Turn} (ht : Kind.ofTurn unmarshal t = .closes) (rest : List Turn) :
    ∃ sent, startCommandLoop unmarshal e s (turns ++ t :: rest) =
      some (none, ⟨e.connID, replay e.actualTopics (turns.map (Kind.ofTurn unmarshal)), sent⟩,
        recorded e.connID s (turns.map (Kind.ofTurn unmarshal))) := by
  obtain ⟨sent, flow, hresult, hret⟩ := startCommandLoop_ends (e := e) (s := s) h t rest
  refine ⟨sent, ?_⟩
  cases hresult with
  | closed _ => exact hret _ _ _ rfl
  | failed hk => cases ht.symm.trans hk
  | next hk => exact absurd ht hk.1

theorem startCommandLoop_fails {turns : List Turn} (h : ∀ t ∈ turns, (Kind.ofTurn unmarshal t).GoesOn)
    {t : Turn} (ht : Kind.ofTurn unmarshal t = .fails) (rest : List Turn) :
    ∃ err e' s', startCommandLoop unmarshal e s (turns ++ t :: rest) = some (some err, e', s') := by
  obtain ⟨sent, flow, hresult, hret⟩ := startCommandLoop_ends (e := e) (s := s) h t rest
  cases hresult with
  | closed hk => cases ht.symm.trans hk
  | failed _ err e' s' => exact ⟨err, e', s', hret _ _ _ rfl⟩
  | next hk => exact absurd ht hk.2

/-- A loop that has returned has come to a turn that does not go on. -/
theorem exists_end {turns : List Turn} {r : Option Err × Executor × S}
    (h : startCommandLoop unmarshal e s turns = some r) :
    ∃ pre t post, turns = pre ++ t :: post ∧ (∀ u ∈ pre, (Kind.ofTurn unmarshal u).GoesOn) ∧
      ¬ (Kind.ofTurn unmarshal t).GoesOn := by
  rcases hfind : turns.find? fun t => ¬ (Kind.ofTurn unmarshal t).GoesOn with _ | t
  · have hall : ∀ t ∈ turns, (Kind.ofTurn unmarshal t).GoesOn := by
      simpa [List.find?_eq_none] using hfind
    obtain ⟨sent, hloop⟩ := startCommandLoop_append (e := e) (s := s) hall []
    rw [List.append_nil, h] at hloop
    cases hloop
  · obtain ⟨ht, pre, post, hturns, hpre⟩ := List.find?_eq_some_iff_append.mp hfind
    refine ⟨pre, t, post, hturns, fun u hu => ?_, of_decide_eq_true ht⟩
    simpa using hpre u hu

theorem mem_cleanUp [Memory.LawfulBst S] {order : List Bytes} {unsub : Bytes → Fault} {i topic : Bytes} :
    i ∈ Memory.Bst.get (e.cleanUp s order unsub).2 topic ↔
      i ∈ Memory.Bst.get s topic ∧ ¬ (i = e.connID ∧ topic ∈ order ∧ unsub topic ≠ some 0) := by
  induction order generalizing s with
  | nil => simp [cleanUp]
  | cons t order ih =>
    have hreach : ∀ t', t' ∈ (unsub t).reach [t] ↔ t' = t ∧ unsub t ≠ some 0 := by
      intro t'
      rcases unsub t with _ | _ | n
      · simp [Fault.reach]
      · simp [Fault.reach]
      · simp [Fault.reach]
    have hrest := @ih (Memory.unsubscribe s e.connID ((unsub t).reach [t]))
    simp only [cleanUp, List.foldl_cons, Memory.mem_unsubscribe, hreach, List.mem_cons] at hrest ⊢
    rw [hrest, and_assoc, ← not_or]
    refine and_congr_right fun _ => not_congr ?_
    by_cases htopic : topic = t
    · subst htopic
      simp only [true_and, true_or]
      exact ⟨fun h => h.elim id fun h => ⟨h.1, h.2.2⟩, Or.inl⟩
    · simp only [htopic, false_and, and_false, false_or]

end Executor

end RoadRunner.Websockets
