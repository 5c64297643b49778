import RoadRunner.Jobs.Protocol

/-!
# The pollers of the jobs plugin

The model of `jobs/listener.go`: what one turn of a poller does with the job that it took from the
priority queue.

* `Polled`: the job and what happens to it: whether it is an `Acknowledger`, what its `Context` and
  the worker return, and the objects picked for the response.
* `poll_exec`: a turn on an `Acknowledger` whose context and worker do not fail, in terms of what the
  response asks for.
* `settles_once_iff`: when a turn settles its job exactly once.
-/

namespace RoadRunner.Jobs

/-- What `workersPool.Exec` returns: an error, a nil response, a response without or with a body. -/
inductive Exec where
  | error (err : Err)
  | nilResp
  | nilBody
  | resp (body : Bytes)
  deriving DecidableEq

/-- A job from the queue and what happens to it. -/
structure Polled (σ : Type) where
  acknowledger : Option (Acknowledger σ)
  /-- The error of `Context`. -/
  context : Option Err
  exec : Exec
  pickP : Option Nat := none
  pickE : Option Nat := none
  pickQ : Option Nat := none

/-- What the pollers write to: the response handler and two metrics. -/
structure Plugin where
  respHandler : RespHandler
  jobsOk : UInt64
  jobsErr : UInt64
  deriving DecidableEq

/-- A new plugin. -/
def Plugin.init : Plugin := ⟨newResponseHandler, 0, 0⟩

/-- A job was processed. -/
def Plugin.ok (p : Plugin) : Plugin := { p with jobsOk := p.jobsOk + 1 }

/-- A job was processed with an error. -/
def Plugin.failed (p : Plugin) : Plugin := { p with jobsErr := p.jobsErr + 1 }

section

variable {σ : Type} (json : Json)

/-- One turn of a poller. -/
def poll (jb : Polled σ) (p : Plugin) (s : σ) : Option (Plugin × σ) :=
  match jb.context, jb.acknowledger with
  | some _, none => none
  | some _, some a => some (p.failed, (a.nack s).2)
  | none, acknowledger =>
    match jb.exec, acknowledger with
    | .error _, none => some (p.failed, s)
    | .error _, some a => some (p.failed, (a.nack s).2)
    | _, none => some (p, s)
    | .nilResp, some a | .nilBody, some a =>
      match a.ack s with
      | (some _, s) => some (p.failed, s)
      | (none, s) => some (p.ok, s)
    | .resp body, some a =>
      match RespHandler.handle json a ⟨body, jb.pickP, jb.pickE, jb.pickQ⟩ p.respHandler s with
      -- "Job malformed, acknowledge it to prevent endless loop"
      | (some _, rh, s) => some (Plugin.failed { p with respHandler := rh }, (a.ack s).2)
      | (none, rh, s) => some (Plugin.ok { p with respHandler := rh }, s)

end

/-- A turn of a history: a job of any driver, and the driver's state. -/
structure Turn where
  σ : Type
  jb : Polled σ
  s : σ

/-- The plugin after a turn. A failed assertion ends the process. -/
def Plugin.after (json : Json) (p : Plugin) (t : Turn) : Plugin :=
  match poll json t.jb p t.s with
  | none => p
  | some (p, _) => p

/-- The call settles the job. -/
def Call.settles : Call → Bool
  | .ack | .nack | .requeue _ _ => true
  | .respond _ _ => false

/-! ## A turn in terms of what the response asks for -/

open RespHandler

section

variable {σ : Type} (json : Json)

/-- What a turn makes of a reply: its call, and an `Ack` if that returned an error. -/
def Reply.turn (a : Acknowledger σ) (s : σ) (reply : Reply) : σ :=
  let out := reply.run a s
  if out.1.isSome then (a.ack out.2).2 else out.2

/-- A turn on a job whose worker gave a body does what the body asks for. -/
theorem poll_resp {p : Plugin} (h : p.respHandler.Reset) (a : Acknowledger σ) (r : Response) (s : σ) :
    ∃ p' : Plugin, p'.respHandler.Reset ∧
      poll json ⟨some a, none, .resp r.body, r.pickP, r.pickE, r.pickQ⟩ p s =
        some (p', (json.reply (p.respHandler.stale r) r.body).turn a s) := by
  obtain ⟨hreset, heq⟩ := handle_eq json a h r s
  obtain ⟨err, rh, s', hout⟩ : ∃ err rh s', handle json a r p.respHandler s = (err, rh, s') :=
    ⟨_, _, _, rfl⟩
  rw [hout] at hreset heq
  simp only [poll, hout, Reply.turn, ← heq]
  cases err with
  | some e => exact ⟨_, hreset, rfl⟩
  | none => exact ⟨_, hreset, rfl⟩

theorem reset_plugin_after {p : Plugin} (h : p.respHandler.Reset) (t : Turn) :
    (p.after json t).respHandler.Reset := by
  obtain ⟨σ, ⟨acknowledger, context, exec, pickP, pickE, pickQ⟩, s⟩ := t
  cases context with
  | some e => cases acknowledger <;> exact h
  | none =>
    cases acknowledger with
    | none => cases exec <;> exact h
    | some a =>
      cases exec with
      | error e => exact h
      | resp body =>
        obtain ⟨p', hp', heq⟩ := poll_resp json h a ⟨body, pickP, pickE, pickQ⟩ s
        rw [Plugin.after, heq]
        exact hp'
      | nilResp | nilBody =>
        simp only [Plugin.after, poll]
        rcases a.ack s with ⟨_ | e, s'⟩ <;> exact h

theorem reset_plugin (history : List Turn) :
    (Run.exec (Plugin.after json) .init history).respHandler.Reset :=
  Run.exec_invariant (I := fun p : Plugin => p.respHandler.Reset)
    (fun _ t h => reset_plugin_after json h t) history reset_new

/-- If no call fails, a reply is one settling call, or it is to respond. -/
theorem Reply.turn_settles (reply : Reply) (jb : Acknowledger σ) (s : σ)
    (hok : ∀ x ∈ (reply.turn jb.logged (s, [])).2, x.2 = none) :
    ((reply.turn jb.logged (s, [])).2.countP fun x => x.1.settles) = 1 ↔
      ∀ payload queue, reply ≠ .respond payload queue := by
  cases reply with
  | malformed e => exact iff_of_true rfl fun _ _ h => by cases h
  | drop => exact iff_of_true rfl fun _ _ h => by cases h
  | ack =>
    cases hr : (jb.ack s).1 with
    | none =>
      refine iff_of_true ?_ fun _ _ h => by cases h
      simp [turn, run, Acknowledger.logged, hr, Call.settles]
    | some e =>
      have := hok (.ack, some e) (by simp [turn, run, Acknowledger.logged, hr])
      cases this
  | requeue headers delay =>
    cases hr : (jb.requeue headers delay s).1 with
    | none =>
      refine iff_of_true ?_ fun _ _ h => by cases h
      simp [turn, run, Acknowledger.logged, hr, Call.settles]
    | some e =>
      have := hok (.requeue headers delay, some e) (by simp [turn, run, Acknowledger.logged, hr])
      cases this
  | respond payload queue =>
    cases hr : (jb.respond payload queue s).1 with
    | none =>
      refine iff_of_false ?_ fun h => h payload queue rfl
      simp [turn, run, Acknowledger.logged, hr, Call.settles]
    | some e =>
      have := hok (.respond payload queue, some e) (by simp [turn, run, Acknowledger.logged, hr])
      cases this

/-- **When a turn settles its job exactly once.** After any history, a turn on an `Acknowledger` none
of whose calls fails makes exactly one call of `Ack`, `Nack` and `Requeue`, unless the worker answered
with a response message that decodes; then it makes none. -/
theorem settles_once_iff (history : List Turn) (jb : Acknowledger σ) (context : Option Err)
    (exec : Exec) (pickP pickE pickQ : Option Nat) (s : σ) :
    let p := Run.exec (Plugin.after json) .init history
    ∃ p' s' log, poll json ⟨some jb.logged, context, exec, pickP, pickE, pickQ⟩ p (s, []) =
        some (p', s', log) ∧
      ((∀ x ∈ log, x.2 = none) →
        ((log.countP fun x => x.1.settles) = 1 ↔
          ¬ (context = none ∧ ∃ body, exec = .resp body ∧ json.IsResponse body))) := by
  intro p
  have hp : p.respHandler.Reset := reset_plugin json history
  cases context with
  | some e => exact ⟨_, _, _, rfl, fun _ => iff_of_true rfl nofun⟩
  | none =>
    cases exec with
    | error e =>
      exact ⟨_, _, _, rfl, fun _ => iff_of_true rfl fun ⟨_, body, he, _⟩ => by cases he⟩
    | nilResp | nilBody =>
      simp only [poll, Acknowledger.logged]
      split
      all_goals
        rename_i h
        obtain ⟨-, rfl⟩ := Prod.mk.inj h
        exact ⟨_, _, _, rfl, fun _ => iff_of_true rfl fun ⟨_, body, he, _⟩ => by cases he⟩
    | resp body =>
      let r : Response := ⟨body, pickP, pickE, pickQ⟩
      obtain ⟨p', -, hpoll⟩ := poll_resp json hp jb.logged r (s, [])
      have hsettles := (json.reply (p.respHandler.stale r) body).turn_settles jb s
      obtain ⟨s', log, hturn⟩ : ∃ s' log,
          (json.reply (p.respHandler.stale r) body).turn jb.logged (s, []) = (s', log) := ⟨_, _, rfl⟩
      rw [hturn] at hpoll hsettles
      refine ⟨p', s', log, hpoll, fun hok => ?_⟩
      rw [hsettles hok]
      constructor
      · rintro h ⟨-, body, he, hresp⟩
        cases he
        exact h _ _ (Json.reply_of_isResponse hresp _)
      · intro h
        exact (Json.reply_of_not_isResponse (fun hresp => h ⟨rfl, body, rfl, hresp⟩) _).2

end

/-- A worker answers `{"type":2,"data":{}}`, no call fails, and the job is left unsettled. -/
theorem responded_job_unsettled :
    (poll sampleJson ⟨some silent.logged, none, .resp emptyMessage, none, none, none⟩ .init ((), [])).map
      (fun out => out.2.2) = some [(.respond [] [], none)] ∧ (Call.respond [] []).settles = false := by
  decide +kernel

end RoadRunner.Jobs
