import RoadRunner.Websockets.Session
import RoadRunner.Lib.Interleave

/-!
# Websocket connections side by side

The command loops of any number of connections on the memory driver. Its `Subscribe` and `Unsubscribe`
hold the lock of the driver and do not fail, so each is one step on the storage. The rest of a command
is on the connection's own data: the part before the driver is called, with the write of the reply,
and the update of `actualTopics` after it. Between the three, other connections take their steps.

* `Phase`: where a loop is, with the topics that the storage then has for the connection
  (`Phase.stored`) and those that the command in progress comes to (`Phase.target`).
* `Conn.Mirrors`: the invariant of a connection. `Mirrors.step`: its own steps keep it; `Mirrors.frame`:
  those of others do.
* `subscriptions_mirror_dialogue`: between commands `actualTopics`, the storage and the dialogue agree, and
  no step changes what another connection has.
-/

namespace RoadRunner.Websockets

/-- Where a command loop is. -/
inductive Phase where
  /-- At the read of the next frame. -/
  | waits
  /-- The join is acknowledged: at the `Subscribe` of `Set`. -/
  | subscribes (topics : List Bytes)
  /-- After it: the topics are put into `actualTopics`. -/
  | saves (topics : List Bytes)
  /-- The leave is acknowledged: at the `Unsubscribe` of `Leave`. -/
  | unsubscribes (topics : List Bytes)
  /-- After it: the topics are deleted from `actualTopics`. -/
  | forgets (topics : List Bytes)
  /-- The loop has returned. -/
  | returned (err : Option Err)
  deriving DecidableEq

namespace Phase

/-- Where a loop is after a turn. -/
def ofFlow : Flow → Phase
  | .next => .waits
  | .ret err => .returned err

/-- The topics that the storage has, with these in `actualTopics`. -/
def stored (actualTopics : Finset Bytes) : Phase → Finset Bytes
  | saves ts => actualTopics ∪ ts.toFinset
  | forgets ts => actualTopics \ ts.toFinset
  | _ => actualTopics

/-- The topics that the command in progress comes to. -/
def target (actualTopics : Finset Bytes) : Phase → Finset Bytes
  | subscribes ts | saves ts => actualTopics ∪ ts.toFinset
  | unsubscribes ts | forgets ts => actualTopics \ ts.toFinset
  | _ => actualTopics

/-- No command is in progress. -/
def Between : Phase → Prop
  | waits | returned _ => True
  | _ => False

/-- The driver has not been called. -/
def Early : Phase → Prop
  | saves _ | forgets _ => False
  | _ => True

theorem Between.early {phase : Phase} (h : phase.Between) : phase.Early := by
  cases phase <;> trivial

theorem Early.stored_eq {phase : Phase} (h : phase.Early) (topics : Finset Bytes) :
    phase.stored topics = topics := by
  cases phase with
  | saves ts | forgets ts => exact h.elim
  | waits | subscribes ts | unsubscribes ts | returned err => rfl

theorem Between.target_eq {phase : Phase} (h : phase.Between) (topics : Finset Bytes) :
    phase.target topics = topics := by
  cases phase with
  | waits | returned err => rfl
  | subscribes ts | unsubscribes ts | saves ts | forgets ts => exact h.elim

end Phase

/-- A turn on the memory driver, which does not fail. -/
def Turn.inMemory (t : Turn) : Turn := { t with subscribe := none, unsubscribe := none }

@[simp] theorem Turn.inMemory_input (t : Turn) : t.inMemory.input = t.input := rfl

/-- A connection: its executor, where its loop is, the turns that it has taken and those to come. -/
structure Conn where
  e : Executor
  phase : Phase := .waits
  taken : List Turn := []
  script : List Turn

/-- The connections and the storage of the driver. -/
abbrev Hub (S : Type) := Interleave.State S Conn

namespace Conn

variable {S : Type} [Memory.Bst S] (unmarshal : Bytes → Option Command)

/-- The `switch` on the command, up to the call of the driver. -/
def prepare (e : Executor) (t : Turn) (msg : Command) : Executor × Phase :=
  if msg.command = ascii "join" then
    if t.approved then
      if t.writes then (e.write ⟨"@join", msg.topics⟩, .subscribes msg.topics)
      else (e, .ofFlow (Executor.fail (.op "websocket_write" (.lib "Write"))))
    else if t.writes then (e.write ⟨"#join", msg.topics⟩, .waits)
    else (e, .ofFlow (Executor.fail
      (.errorf₂ "%v,%v" (.lib "accessValidator") (.op "websocket_write" (.lib "Write")))))
  else if msg.command = ascii "leave" then
    if t.writes then (e.write ⟨"@leave", msg.topics⟩, .unsubscribes msg.topics)
    else (e, .ofFlow (Executor.fail (.op "websocket_write" (.lib "Write"))))
  else (e, .waits)

/-- An iteration of the loop, up to the call of the driver. -/
def begin (e : Executor) (t : Turn) : Executor × Phase :=
  match read t.input with
  | .error err => (e, .ofFlow (Executor.fail err))
  | .ok (data, opCode) =>
    if opCode = opClose then (e, .returned none)
    else match unmarshal data with
      | none => (e, .waits)
      | some msg => prepare e t msg

/-- The next step of a connection. -/
def step (s : S) (c : Conn) : S × Conn :=
  match c.phase, c.script with
  | .waits, [] => (s, c)
  | .waits, t :: script =>
    let (e, phase) := begin unmarshal c.e t
    (s, ⟨e, phase, c.taken ++ [t], script⟩)
  | .subscribes ts, _ => (Memory.subscribe s c.e.connID ts, { c with phase := .saves ts })
  | .saves ts, _ =>
    (s, { c with e := { c.e with actualTopics := c.e.actualTopics ∪ ts.toFinset }, phase := .waits })
  | .unsubscribes ts, _ => (Memory.unsubscribe s c.e.connID ts, { c with phase := .forgets ts })
  | .forgets ts, _ =>
    (s, { c with e := { c.e with actualTopics := c.e.actualTopics \ ts.toFinset }, phase := .waits })
  | .returned _, _ => (s, c)

theorem step_waits (s : S) (e : Executor) (taken script : List Turn) (t : Turn) :
    step unmarshal s ⟨e, .waits, taken, t :: script⟩ =
      (s, ⟨(begin unmarshal e t).1, (begin unmarshal e t).2, taken ++ [t], script⟩) := rfl

/-- What the turns that were taken come to. -/
def dialogue (c : Conn) : List Kind := c.taken.map fun t => Kind.ofTurn unmarshal t.inMemory

end Conn

/-! ### The first part of an iteration -/

/-- The topics after a reply: a client that is told of a join or a leave. -/
def Reply.apply (topics : Finset Bytes) (reply : Reply) : Finset Bytes :=
  if reply.topic = "@join" then topics ∪ reply.payload.toFinset
  else if reply.topic = "@leave" then topics \ reply.payload.toFinset
  else topics

/-- The topics that the client was told of. -/
def acknowledged (sent : List Reply) : Finset Bytes := sent.foldl Reply.apply ∅

theorem acknowledged_write (e : Executor) (reply : Reply) :
    acknowledged (e.write reply).sent = reply.apply (acknowledged e.sent) := by
  simp [acknowledged, Executor.write]

namespace Conn

/-- What the first part of an iteration of kind `k` leaves: the topics are as before, and the reply and the
command in progress say what the kind says. -/
structure Begun (e : Executor) (k : Kind) (r : Executor × Phase) : Prop where
  connID : r.1.connID = e.connID
  actualTopics : r.1.actualTopics = e.actualTopics
  early : r.2.Early
  target : r.2.target e.actualTopics = k.apply e.actualTopics
  sent : acknowledged r.1.sent = k.apply (acknowledged e.sent)

theorem prepare_begun (e : Executor) (t : Turn) (msg : Command) :
    Begun e (Kind.ofCommand t.inMemory msg) (prepare e t msg) := by
  unfold prepare Kind.ofCommand Turn.inMemory
  by_cases hjoin : msg.command = ascii "join"
  · simp only [hjoin, ↓reduceIte]
    cases t.writes <;> cases t.approved <;>
      exact ⟨rfl, rfl, trivial, rfl, by simp [acknowledged_write, Reply.apply, Kind.apply]⟩
  · simp only [hjoin, ↓reduceIte]
    by_cases hleave : msg.command = ascii "leave"
    · simp only [hleave, ↓reduceIte]
      cases t.writes <;> exact ⟨rfl, rfl, trivial, rfl, by simp [acknowledged_write, Reply.apply, Kind.apply]⟩
    · simp only [hleave, ↓reduceIte]
      exact ⟨rfl, rfl, trivial, rfl, rfl⟩

variable (unmarshal : Bytes → Option Command)

theorem begin_begun (e : Executor) (t : Turn) :
    Begun e (Kind.ofTurn unmarshal t.inMemory) (begin unmarshal e t) := by
  unfold begin Kind.ofTurn
  rw [Turn.inMemory_input]
  cases read t.input with
  | error err => exact ⟨rfl, rfl, trivial, rfl, rfl⟩
  | ok r =>
    obtain ⟨data, opCode⟩ := r
    by_cases hclose : opCode = opClose
    · simp only [hclose, ↓reduceIte]
      exact ⟨rfl, rfl, trivial, rfl, rfl⟩
    · simp only [hclose, ↓reduceIte]
      cases unmarshal data with
      | none => exact ⟨rfl, rfl, trivial, rfl, rfl⟩
      | some msg => exact prepare_begun e t msg

/-! ### One connection alone -/

variable {S : Type} [Memory.Bst S]

/-- What the rest of a command comes to, when no other connection takes a step. -/
def conclude (s : S) (e : Executor) : Phase → Flow × Executor × S
  | .waits => (.next, e, s)
  | .subscribes ts =>
    (.next, { e with actualTopics := e.actualTopics ∪ ts.toFinset }, Memory.subscribe s e.connID ts)
  | .saves ts => (.next, { e with actualTopics := e.actualTopics ∪ ts.toFinset }, s)
  | .unsubscribes ts =>
    (.next, { e with actualTopics := e.actualTopics \ ts.toFinset }, Memory.unsubscribe s e.connID ts)
  | .forgets ts => (.next, { e with actualTopics := e.actualTopics \ ts.toFinset }, s)
  | .returned err => (.ret err, e, s)

theorem conclude_prepare (s : S) (e : Executor) (t : Turn) (msg : Command) :
    conclude s (prepare e t msg).1 (prepare e t msg).2 = e.execute s t.inMemory msg := by
  unfold prepare Executor.execute Turn.inMemory
  by_cases hjoin : msg.command = ascii "join"
  · simp only [hjoin, ↓reduceIte]
    cases t.writes <;> cases t.approved <;> rfl
  · simp only [hjoin, ↓reduceIte]
    by_cases hleave : msg.command = ascii "leave"
    · simp only [hleave, ↓reduceIte]
      cases t.writes <;> rfl
    · simp only [hleave, ↓reduceIte]
      rfl

/-- The two parts of an iteration make up the iteration. -/
theorem conclude_begin (s : S) (e : Executor) (t : Turn) :
    conclude s (begin unmarshal e t).1 (begin unmarshal e t).2 = e.turn unmarshal s t.inMemory := by
  unfold begin Executor.turn
  rw [Turn.inMemory_input]
  cases read t.input with
  | error err => rfl
  | ok r =>
    obtain ⟨data, opCode⟩ := r
    by_cases hclose : opCode = opClose
    · simp only [hclose, ↓reduceIte]
      rfl
    · simp only [hclose, ↓reduceIte]
      cases unmarshal data with
      | none => rfl
      | some msg => exact conclude_prepare s e t msg

/-- The steps of a connection alone, from the start of an iteration to its end. -/
theorem exists_turn (s : S) (e : Executor) (taken script : List Turn) (t : Turn) :
    ∃ ns, Interleave.finish (step unmarshal) ⟨s, [⟨e, .waits, taken, t :: script⟩]⟩ ns =
      ⟨(e.turn unmarshal s t.inMemory).2.2, [⟨(e.turn unmarshal s t.inMemory).2.1,
        .ofFlow (e.turn unmarshal s t.inMemory).1, taken ++ [t], script⟩]⟩ := by
  rw [← conclude_begin]
  rcases hbegin : begin unmarshal e t with ⟨e', phase⟩
  have hearly := (begin_begun unmarshal e t).early
  rw [hbegin] at hearly
  cases phase with
  | waits | returned err =>
    refine ⟨[0], ?_⟩
    simp [Interleave.finish, Interleave.next, step, hbegin, conclude, Phase.ofFlow]
  | subscribes ts | unsubscribes ts =>
    refine ⟨[0, 0, 0], ?_⟩
    simp [Interleave.finish, Interleave.next, step, hbegin, conclude, Phase.ofFlow]
  | saves ts | forgets ts => exact hearly.elim

variable {unmarshal}

/-- A command loop alone: its steps come to what the loop returns. -/
theorem exists_startCommandLoop {s s' : S} {e e' : Executor} {script : List Turn}
    {err : Option Err} (taken : List Turn)
    (h : e.startCommandLoop unmarshal s (script.map Turn.inMemory) = some (err, e', s')) :
    ∃ ns taken' script', Interleave.finish (step unmarshal) ⟨s, [⟨e, .waits, taken, script⟩]⟩ ns =
      ⟨s', [⟨e', .returned err, taken', script'⟩]⟩ := by
  induction script generalizing s e taken with
  | nil => cases h
  | cons t script ih =>
    obtain ⟨ns, hns⟩ := exists_turn unmarshal s e taken script t
    rw [List.map_cons, Executor.startCommandLoop] at h
    rcases hturn : e.turn unmarshal s t.inMemory with ⟨flow, e₁, s₁⟩
    rw [hturn] at h hns
    cases flow with
    | ret err' =>
      cases h
      exact ⟨ns, _, _, hns⟩
    | next =>
      obtain ⟨ms, taken', script', hms⟩ := ih (taken ++ [t]) h
      refine ⟨ns ++ ms, taken', script', ?_⟩
      rw [Interleave.finish_append, hns]
      exact hms

/-! ### The invariant of a connection -/

/-- The storage lists a connection under its topics, and the command in progress comes to what the
dialogue says and to what the client was told. -/
structure Mirrors (unmarshal : Bytes → Option Command) (s : S) (c : Conn) : Prop where
  listed : Listed c.e.connID (c.phase.stored c.e.actualTopics) s
  replayed : c.phase.target c.e.actualTopics = replay ∅ (c.dialogue unmarshal)
  told : c.phase.target c.e.actualTopics = acknowledged c.e.sent

variable {s : S} {c : Conn}

theorem Mirrors.step [Memory.LawfulBst S] (h : c.Mirrors unmarshal s) :
    (step unmarshal s c).2.Mirrors unmarshal (step unmarshal s c).1 := by
  obtain ⟨e, phase, taken, script⟩ := c
  obtain ⟨hlisted, hreplayed, htold⟩ := h
  cases phase with
  | waits =>
    cases script with
    | nil => exact ⟨hlisted, hreplayed, htold⟩
    | cons t script =>
      have hb := begin_begun unmarshal e t
      rw [step_waits]
      refine ⟨?_, ?_, ?_⟩
      · rw [hb.early.stored_eq, hb.connID, hb.actualTopics]
        exact hlisted
      · rw [hb.actualTopics, hb.target, dialogue, List.map_append, replay, List.foldl_append]
        exact congrArg (Kind.apply · _) hreplayed
      · rw [hb.actualTopics, hb.target, hb.sent]
        exact congrArg (Kind.apply · _) htold
  | subscribes ts => exact ⟨hlisted.step (.joins ts), hreplayed, htold⟩
  | unsubscribes ts => exact ⟨hlisted.step (.leaves ts), hreplayed, htold⟩
  | saves ts => exact ⟨hlisted, hreplayed, htold⟩
  | forgets ts => exact ⟨hlisted, hreplayed, htold⟩
  | returned err => exact ⟨hlisted, hreplayed, htold⟩

/-- A step changes the pairs of its own connection only. -/
theorem mem_step [Memory.LawfulBst S] (unmarshal : Bytes → Option Command) (s : S) (c : Conn) {i topic : Bytes}
    (h : i ≠ c.e.connID) :
    i ∈ Memory.Bst.get (step unmarshal s c).1 topic ↔ i ∈ Memory.Bst.get s topic := by
  obtain ⟨e, phase, taken, script⟩ := c
  cases phase with
  | waits => cases script <;> rfl
  | subscribes ts => simp [step, Memory.mem_subscribe, h]
  | unsubscribes ts => simp [step, Memory.mem_unsubscribe, h]
  | saves ts | forgets ts | returned err => rfl

theorem Mirrors.frame [Memory.LawfulBst S] {c' : Conn} (hne : c'.e.connID ≠ c.e.connID) (h : c.Mirrors unmarshal s) :
    c.Mirrors unmarshal (Conn.step unmarshal s c').1 where
  listed topic := (mem_step unmarshal s c' hne.symm).trans (h.listed topic)
  replayed := h.replayed
  told := h.told

/-- The client of a connection: its id and its turns, taken and to come. -/
def client (c : Conn) : Bytes × List Turn := (c.e.connID, c.taken ++ c.script)

theorem client_step (s : S) (c : Conn) : (step unmarshal s c).2.client = c.client := by
  obtain ⟨e, phase, taken, script⟩ := c
  cases phase with
  | waits =>
    cases script with
    | nil => rfl
    | cons t script =>
      have hid := (begin_begun unmarshal e t).connID
      rw [step_waits, client, hid, List.append_assoc, List.singleton_append]
      rfl
  | subscribes ts | unsubscribes ts | saves ts | forgets ts | returned err => rfl

theorem connID_step (s : S) (c : Conn) : (step unmarshal s c).2.e.connID = c.e.connID :=
  congrArg Prod.fst (client_step s c)

end Conn

/-! ### All connections -/

section

variable {S : Type} {s : S} {clients : List (Bytes × List Turn)}

/-- The hub before the first turn, with the ids of the clients and what their turns will be. -/
def Hub.start (s : S) (clients : List (Bytes × List Turn)) : Hub S :=
  ⟨s, clients.map fun client => { e := { connID := client.1 }, script := client.2 }⟩

theorem clients_start : (Hub.start s clients).procs.map Conn.client = clients := by
  rw [Hub.start, List.map_map]
  exact List.map_id clients

variable [Memory.Bst S] {unmarshal : Bytes → Option Command}

/-- The connections take steps in this order. -/
def Hub.run (unmarshal : Bytes → Option Command) (h : Hub S) (ns : List Nat) : Hub S :=
  Interleave.finish (Conn.step unmarshal) h ns

theorem clients_run (h : Hub S) (ns : List Nat) :
    (h.run unmarshal ns).procs.map Conn.client = h.procs.map Conn.client :=
  Run.exec_invariant (I := fun h' : Hub S => h'.procs.map Conn.client = h.procs.map Conn.client)
    (fun _ n hI => (Interleave.idents_next Conn.client_step _ n).trans hI) ns rfl

theorem mirrors_start (hfresh : ∀ client ∈ clients, ∀ topic, client.1 ∉ Memory.Bst.get s topic) :
    ∀ c ∈ (Hub.start s clients).procs, c.Mirrors unmarshal s := by
  intro c hc
  obtain ⟨client, hclient, rfl⟩ := List.mem_map.mp hc
  refine ⟨fun topic => ?_, rfl, rfl⟩
  exact iff_of_false (hfresh client hclient topic) (Finset.notMem_empty topic)

theorem mirrors_run [Memory.LawfulBst S] {h : Hub S} (hids : (h.procs.map fun c => c.e.connID).Nodup)
    (hstart : ∀ c ∈ h.procs, c.Mirrors unmarshal h.shared) (ns : List Nat) :
    ∀ c ∈ (h.run unmarshal ns).procs, c.Mirrors unmarshal (h.run unmarshal ns).shared := by
  refine (Run.exec_invariant (I := fun h : Hub S => (h.procs.map fun c => c.e.connID).Nodup ∧
    ∀ c ∈ h.procs, c.Mirrors unmarshal h.shared) ?_ ns ⟨hids, hstart⟩).2
  rintro h n ⟨hids, hI⟩
  constructor
  · rw [Interleave.idents_next Conn.connID_step]
    exact hids
  · exact Interleave.each_next (fun _ _ hc => hc.step) (fun _ _ _ hne _ hc => hc.frame hne) hids hI n

/-- Connections with distinct ids that are not in the storage, after any steps of their loops: each has the
turns of its client; between commands, `actualTopics` are the topics under which the storage lists its id,
those that its dialogue comes to, and those that the client was told of; and the next step of a
connection changes no other, and no pair of another id. -/
theorem subscriptions_mirror_dialogue [Memory.LawfulBst S] (unmarshal : Bytes → Option Command) (s : S)
    (clients : List (Bytes × List Turn)) (hids : (clients.map Prod.fst).Nodup)
    (hfresh : ∀ client ∈ clients, ∀ topic, client.1 ∉ Memory.Bst.get s topic) (ns : List Nat) :
    let h := (Hub.start s clients).run unmarshal ns
    h.procs.map Conn.client = clients ∧
    (∀ c ∈ h.procs, c.phase.Between →
      (∀ topic, topic ∈ c.e.actualTopics ↔ c.e.connID ∈ Memory.Bst.get h.shared topic) ∧
      c.e.actualTopics = replay ∅ (c.dialogue unmarshal) ∧ c.e.actualTopics = acknowledged c.e.sent) ∧
    ∀ n c, h.procs[n]? = some c →
      (∀ m, m ≠ n → (h.run unmarshal [n]).procs[m]? = h.procs[m]?) ∧
      ∀ i topic, i ≠ c.e.connID →
        (i ∈ Memory.Bst.get (h.run unmarshal [n]).shared topic ↔ i ∈ Memory.Bst.get h.shared topic) := by
  intro h
  have hclients : h.procs.map Conn.client = clients := (clients_run _ ns).trans clients_start
  have hids' : ((Hub.start s clients).procs.map fun c => c.e.connID).Nodup := by
    rwa [Hub.start, List.map_map]
  have hmirrors : ∀ c ∈ h.procs, c.Mirrors unmarshal h.shared := mirrors_run hids' (mirrors_start hfresh) ns
  refine ⟨hclients, ?_, ?_⟩
  · intro c hc hbetween
    obtain ⟨hlisted, hreplayed, htold⟩ := hmirrors c hc
    rw [hbetween.early.stored_eq] at hlisted
    rw [hbetween.target_eq] at hreplayed htold
    exact ⟨fun topic => (hlisted topic).symm, hreplayed, htold⟩
  · intro n c hc
    have hnext : h.run unmarshal [n] = _ := Interleave.next_of_some hc
    rw [hnext]
    exact ⟨fun m hm => List.getElem?_set_ne (Ne.symm hm), fun i topic hi => Conn.mem_step unmarshal h.shared c hi⟩

end

/-- Two clients join the same topic; the second is acknowledged between the `Subscribe` of the first and the
update of its `actualTopics`, and has not called the driver. -/
theorem two_joins_mirrored :
    let h := (Hub.start (∅ : Memory.PairSet) [([1], [{ input := joinFrame }]), ([2], [{ input := joinFrame }])]).run
      unmarshalJoin [0, 0, 1, 0]
    h.shared = {([1], ascii "news")} ∧ (h.procs.map fun c => c.phase) = [.waits, .subscribes [ascii "news"]] ∧
      ∀ c ∈ h.procs, c.phase.Between →
        ∀ topic, topic ∈ c.e.actualTopics ↔ c.e.connID ∈ Memory.Bst.get h.shared topic := by
  refine ⟨by decide +kernel, by decide +kernel, fun c hc hbetween => ?_⟩
  exact ((subscriptions_mirror_dialogue unmarshalJoin ∅ [([1], [{ input := joinFrame }]),
    ([2], [{ input := joinFrame }])] (by decide) (fun _ _ _ => Finset.notMem_empty _)
    [0, 0, 1, 0]).2.1 c hc hbetween).1

end RoadRunner.Websockets
