import RoadRunner.Websockets.Session

/-!
# Messages in several frames

A client may send a message as a text frame and continuation frames, the last one with FIN, and ping and
pong frames between them. `Connection.Read` returns one frame, and the command loop decodes its payload:
it reads neither FIN nor, a close apart, the opcode.

* `Split`: a way to send a message; `Split.frames`: its frames on the wire; `Split.message`: the message.
* `carryOut`: what a join or leave does. `startCommandLoop_frames`: the loop carries out the commands that it
  decodes from the payload of each frame, those of pings and pongs included.
* `unfragmented_iff`: so it does what it does for the message in one frame exactly if these are the
  command of the message.
-/

namespace RoadRunner.Websockets

/-- `ws.OpContinuation`. -/
def opContinuation : OpCode := 0

/-- `ws.OpText`. -/
def opText : OpCode := 1

/-- `ws.OpPing`. -/
def opPing : OpCode := 9

/-- `ws.OpPong`. -/
def opPong : OpCode := 10

/-! ### Frames on the wire -/

theorem cipher_cipher (payload : Bytes) (mask : Fin 4 → UInt8) : cipher (cipher payload mask) mask = payload := by
  apply List.ext_getElem
  · simp [cipher]
  · intro i _ _
    simp only [cipher, List.getElem_mapIdx]
    rw [UInt8.xor_assoc, UInt8.xor_self, UInt8.xor_zero]

/-- The payload of a frame, and the key that it is masked with. -/
structure Piece where
  body : Bytes
  mask : Option (Fin 4 → UInt8) := none

/-- The frame of a piece. -/
def Piece.frame (p : Piece) (fin : Bool) (opCode : OpCode) : Input :=
  match p.mask with
  | none => .frame ⟨fin, opCode, false, fun _ => 0⟩ (some p.body)
  | some mask => .frame ⟨fin, opCode, true, mask⟩ (some (cipher p.body mask))

theorem read_frame (p : Piece) (fin : Bool) {opCode : OpCode} (h : opCode ≠ opClose) :
    read (p.frame fin opCode) = .ok (p.body, opCode) := by
  obtain ⟨body, mask⟩ := p
  cases mask with
  | none => simp [Piece.frame, read, h]
  | some mask => simp [Piece.frame, read, h, cipher_cipher]

/-- A frame that may come between those of a message. -/
inductive Control where
  | ping (piece : Piece)
  | pong (piece : Piece)

namespace Control

/-- The payload of a control frame. -/
def body : Control → Bytes
  | ping p | pong p => p.body

/-- A control frame on the wire. -/
def frame : Control → Input
  | ping p => p.frame true opPing
  | pong p => p.frame true opPong

end Control

/-- A message as it is sent: the piece of the text frame, and those of the continuation frames with the
control frames before each. -/
structure Split where
  first : Piece
  more : List (List Control × Piece) := []

namespace Split

/-- The frames after the first one. -/
def continuations : List (List Control × Piece) → List Input
  | [] => []
  | (controls, piece) :: more =>
    controls.map Control.frame ++ piece.frame more.isEmpty opContinuation :: continuations more

/-- The frames of a message. -/
def frames (w : Split) : List Input := w.first.frame w.more.isEmpty opText :: continuations w.more

/-- The payloads of all frames. -/
def payloads (w : Split) : List Bytes :=
  w.first.body :: w.more.flatMap fun (controls, piece) => controls.map Control.body ++ [piece.body]

/-- The message: the payloads of the text and continuation frames. -/
def message (w : Split) : Bytes := w.first.body ++ w.more.flatMap fun (_, piece) => piece.body

/-- The message in one frame. -/
def whole (w : Split) (mask : Option (Fin 4 → UInt8)) : Split := ⟨⟨w.message, mask⟩, []⟩

end Split

/-! ### What the loop carries out -/

/-- A join or a leave. -/
def Command.Obeyed (msg : Command) : Prop := msg.command = ascii "join" ∨ msg.command = ascii "leave"

instance (msg : Command) : Decidable msg.Obeyed := inferInstanceAs (Decidable (_ ∨ _))

section

variable {S : Type} [Memory.Bst S] (unmarshal : Bytes → Option Command) (approve : List Bytes → Bool)

/-- The join or leave in the payload of a frame. -/
def commandOf (data : Bytes) : Option Command := (unmarshal data).filter (·.Obeyed)

/-- The turn for a frame: the validator decides by the topics, and nothing fails. -/
def turnFor (input : Input) : Turn where
  input := input
  approved :=
    match read input with
    | .ok (data, _) => ((unmarshal data).map fun msg => approve msg.topics).getD true
    | .error _ => true

/-- The reply to a join or leave. -/
def replyTo (msg : Command) : Reply :=
  if msg.command = ascii "join" then ⟨if approve msg.topics then "@join" else "#join", msg.topics⟩
  else ⟨"@leave", msg.topics⟩

/-- What a join or leave does. -/
def carryOut (r : Executor × S) (msg : Command) : Executor × S :=
  let e := r.1.write (replyTo approve msg)
  if msg.command = ascii "join" then
    if approve msg.topics then
      ({ e with actualTopics := e.actualTopics ∪ msg.topics.toFinset }, Memory.subscribe r.2 e.connID msg.topics)
    else (e, r.2)
  else ({ e with actualTopics := e.actualTopics \ msg.topics.toFinset }, Memory.unsubscribe r.2 e.connID msg.topics)

variable {unmarshal approve}

theorem commandOf_none {data : Bytes} (h : unmarshal data = none) : commandOf unmarshal data = none := by
  rw [commandOf, h, Option.filter_none]

theorem commandOf_some {data : Bytes} {msg : Command} (h : unmarshal data = some msg) :
    commandOf unmarshal data = if msg.Obeyed then some msg else none := by
  rw [commandOf, h, Option.filter_some]
  simp only [decide_eq_true_eq]

theorem obeyed_of_mem {data : Bytes} {msg : Command} (h : commandOf unmarshal data = some msg) : msg.Obeyed :=
  of_decide_eq_true (Option.filter_eq_some_iff.mp h).2

theorem execute_obeyed (e : Executor) (s : S) {t : Turn} {msg : Command} (h : msg.Obeyed)
    (ha : t.approved = approve msg.topics) (hw : t.writes = true) (hs : t.subscribe = none)
    (hu : t.unsubscribe = none) : e.execute s t msg = (.next, carryOut approve (e, s) msg) := by
  unfold Executor.execute
  rcases h with hjoin | hleave
  · cases happ : approve msg.topics with
    | false => simp [hjoin, ha, happ, hw, carryOut, replyTo]
    | true => simp [hjoin, ha, happ, hw, hs, carryOut, replyTo, Executor.set, Fault.reach, Executor.write]
  · have hne : ascii "leave" ≠ ascii "join" := by decide
    simp [hleave, hne, hw, hu, carryOut, replyTo, Executor.leave, Fault.reach, Executor.write]

theorem execute_ignored (e : Executor) (s : S) (t : Turn) {msg : Command} (h : ¬ msg.Obeyed) :
    e.execute s t msg = (.next, e, s) := by
  obtain ⟨hjoin, hleave⟩ := not_or.mp h
  simp [Executor.execute, hjoin, hleave]

/-- One frame: the loop carries out the command of its payload, if it has one, and goes on. -/
theorem turn_frame (e : Executor) (s : S) (p : Piece) (fin : Bool) {opCode : OpCode}
    (h : opCode ≠ opClose) :
    e.turn unmarshal s (turnFor unmarshal approve (p.frame fin opCode)) =
      (.next, (commandOf unmarshal p.body).toList.foldl (carryOut approve) (e, s)) := by
  have hread := read_frame p fin h
  have hturn : read (turnFor unmarshal approve (p.frame fin opCode)).input = .ok (p.body, opCode) := hread
  rw [Executor.turn, hturn]
  simp only [h, ↓reduceIte]
  cases hdata : unmarshal p.body with
  | none =>
    rw [commandOf_none hdata]
    rfl
  | some msg =>
    rw [commandOf_some hdata]
    by_cases hobeyed : msg.Obeyed
    · rw [if_pos hobeyed]
      refine execute_obeyed e s hobeyed ?_ rfl rfl rfl
      simp [turnFor, hread, hdata]
    · rw [if_neg hobeyed]
      exact execute_ignored e s _ hobeyed

/-! ### The loop over the frames of a message -/

/-- The inputs are frames with these payloads, none of them a close. -/
inductive Carries : List Input → List Bytes → Prop where
  | nil : Carries [] []
  | cons (p : Piece) (fin : Bool) {opCode : OpCode} (h : opCode ≠ opClose) {inputs : List Input}
    {payloads : List Bytes} (rest : Carries inputs payloads) :
    Carries (p.frame fin opCode :: inputs) (p.body :: payloads)

theorem Carries.controls (cs : List Control) {inputs : List Input} {payloads : List Bytes}
    (h : Carries inputs payloads) : Carries (cs.map Control.frame ++ inputs) (cs.map Control.body ++ payloads) := by
  induction cs with
  | nil => exact h
  | cons c cs ih =>
    cases c with
    | ping p => exact .cons p true (by decide) ih
    | pong p => exact .cons p true (by decide) ih

theorem carries_frames (w : Split) : Carries w.frames w.payloads := by
  refine .cons w.first _ (by decide) ?_
  induction w.more with
  | nil => exact .nil
  | cons part more ih =>
    obtain ⟨controls, piece⟩ := part
    rw [Split.continuations, List.flatMap_cons, List.append_assoc]
    exact (Carries.cons piece _ (by decide) ih).controls controls

theorem startCommandLoop_carries {inputs : List Input} {payloads : List Bytes} (h : Carries inputs payloads)
    (r : Executor × S) (rest : List Turn) :
    r.1.startCommandLoop unmarshal r.2 (inputs.map (turnFor unmarshal approve) ++ rest) =
      let r' := (payloads.filterMap (commandOf unmarshal)).foldl (carryOut approve) r
      r'.1.startCommandLoop unmarshal r'.2 rest := by
  induction h generalizing r with
  | nil => rfl
  | cons p fin h _ ih =>
    rw [List.map_cons, List.cons_append, Executor.startCommandLoop, turn_frame r.1 r.2 p fin h]
    refine (ih ((commandOf unmarshal p.body).toList.foldl (carryOut approve) r)).trans ?_
    rw [List.filterMap_cons]
    cases commandOf unmarshal p.body <;> rfl

/-- The loop carries out the commands in the payloads of the frames. -/
theorem startCommandLoop_frames (w : Split) (e : Executor) (s : S) (rest : List Turn) :
    e.startCommandLoop unmarshal s (w.frames.map (turnFor unmarshal approve) ++ rest) =
      let r := (w.payloads.filterMap (commandOf unmarshal)).foldl (carryOut approve) (e, s)
      r.1.startCommandLoop unmarshal r.2 rest :=
  startCommandLoop_carries (carries_frames w) (e, s) rest

/-! ### The replies show the commands -/

theorem sent_foldl (msgs : List Command) (r : Executor × S) :
    (msgs.foldl (carryOut approve) r).1.sent = r.1.sent ++ msgs.map (replyTo approve) := by
  induction msgs generalizing r with
  | nil => simp
  | cons msg msgs ih =>
    have hsent : (carryOut approve r msg).1.sent = r.1.sent ++ [replyTo approve msg] := by
      unfold carryOut
      dsimp only
      split
      · split <;> rfl
      · rfl
    rw [List.foldl_cons, ih, hsent, List.append_assoc, List.singleton_append, List.map_cons]

theorem replyTo_injective {a b : Command} (ha : a.Obeyed) (hb : b.Obeyed)
    (h : replyTo approve a = replyTo approve b) : a = b := by
  obtain ⟨ca, ta⟩ := a
  obtain ⟨cb, tb⟩ := b
  have hne : ascii "leave" ≠ ascii "join" := by decide
  rcases ha with rfl | rfl <;> rcases hb with rfl | rfl <;> simp [replyTo, hne] at h
  · rw [h.2]
  · split at h <;> simp at h
  · split at h <;> simp at h
  · rw [h]

/-- Joins and leaves with the same replies are the same. -/
theorem eq_of_replies {as bs : List Command} (ha : ∀ a ∈ as, a.Obeyed) (hb : ∀ b ∈ bs, b.Obeyed)
    (h : as.map (replyTo approve) = bs.map (replyTo approve)) : as = bs := by
  induction as generalizing bs with
  | nil => exact (List.map_eq_nil_iff.mp h.symm).symm
  | cons a as ih =>
    cases bs with
    | nil => cases h
    | cons b bs =>
      obtain ⟨hhead, htail⟩ := List.cons.inj h
      obtain ⟨ha, has⟩ := List.forall_mem_cons.mp ha
      obtain ⟨hb, hbs⟩ := List.forall_mem_cons.mp hb
      rw [replyTo_injective ha hb hhead, ih has hbs htail]

theorem obeyed_of_mem_filterMap {payloads : List Bytes} :
    ∀ msg ∈ payloads.filterMap (commandOf unmarshal), msg.Obeyed := by
  intro msg hmsg
  obtain ⟨data, -, hdata⟩ := List.mem_filterMap.mp hmsg
  exact obeyed_of_mem hdata

/-- However a message is sent, the loop does what it does for the message in one frame exactly if the
payloads of the frames, each decoded alone, have the command of the message and no other. -/
theorem unfragmented_iff (S : Type) [Memory.Bst S] (unmarshal : Bytes → Option Command) (approve : List Bytes → Bool)
    (w : Split) (mask : Option (Fin 4 → UInt8)) :
    (∀ (e : Executor) (s : S) (rest : List Turn),
      e.startCommandLoop unmarshal s (w.frames.map (turnFor unmarshal approve) ++ rest) =
        e.startCommandLoop unmarshal s ((w.whole mask).frames.map (turnFor unmarshal approve) ++ rest)) ↔
    w.payloads.filterMap (commandOf unmarshal) = (commandOf unmarshal w.message).toList := by
  have hwhole : (w.whole mask).payloads.filterMap (commandOf unmarshal) =
      (commandOf unmarshal w.message).toList := by
    show List.filterMap _ [w.message] = _
    cases h : commandOf unmarshal w.message <;> simp [h]
  rw [← hwhole]
  simp only [startCommandLoop_frames]
  constructor
  · intro h
    -- a client that then closes the connection has the replies to show for its commands
    have hloop := h { connID := [] } Memory.Bst.new [{ input := closeFrame }]
    have hsent : ∀ r : Executor × S,
        r.1.startCommandLoop unmarshal r.2 [{ input := closeFrame }] = some (none, r) := fun r => rfl
    rw [hsent, hsent] at hloop
    have hreplies := congrArg (fun r : Executor × S => r.1.sent) (Prod.mk.inj (Option.some.inj hloop)).2
    simp only [sent_foldl, List.nil_append] at hreplies
    exact eq_of_replies obeyed_of_mem_filterMap obeyed_of_mem_filterMap hreplies
  · intro h e s rest
    rw [h]

end

/-- A message that joins the topic `news`, in a text frame of ten bytes and a continuation frame. -/
def joinInTwo : Split := ⟨⟨joinNews.take 10, none⟩, [([], ⟨joinNews.drop 10, none⟩)]⟩

/-- In two frames the message does nothing; in one it joins the topic. -/
theorem joinInTwo_lost :
    joinInTwo.message = joinNews ∧
    Executor.startCommandLoop unmarshalJoin { connID := [1] } (∅ : Memory.PairSet)
      (joinInTwo.frames.map (turnFor unmarshalJoin fun _ => true) ++ [{ input := closeFrame }]) =
        some (none, { connID := [1] }, ∅) ∧
    Executor.startCommandLoop unmarshalJoin { connID := [1] } (∅ : Memory.PairSet)
      ((joinInTwo.whole none).frames.map (turnFor unmarshalJoin fun _ => true) ++ [{ input := closeFrame }]) =
        some (none, ⟨[1], {ascii "news"}, [⟨"@join", [ascii "news"]⟩]⟩, {([1], ascii "news")}) := by
  refine ⟨?_, ?_, ?_⟩
  · decide +kernel
  · decide +kernel
  · decide +kernel

end RoadRunner.Websockets
