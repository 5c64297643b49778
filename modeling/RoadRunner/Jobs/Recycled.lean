import RoadRunner.Jobs.Protocol

/-!
# Recycled structs of the response handler

`putProtocol` and `putErrResp` reset every field, `putQResp` resets the queue and keeps the payload.
So a later response that has no payload is sent with the payload of an earlier one.

* `reply_eq_of_not_omitsPayload`: the payload left in the struct makes a difference for such a message
  only.
* `calls_eq_fresh_iff`: after any history, the calls for a response are those of a new handler exactly
  if it is no such message, or the struct picked for it has no payload.
-/

namespace RoadRunner.Jobs

/-- The body is a response message whose data assigns no payload. -/
def Json.OmitsPayload (json : Json) (body : Bytes) : Prop :=
  json.IsResponse body ∧ ∀ x ∈ (json.queueResp (json.envelope body).data).1, ∃ q, x = .queue q

/-- Without an assignment, the payload stays. -/
theorem foldl_set_payload (fields : List QueueField) (h : ∀ x ∈ fields, ∃ q, x = .queue q)
    (qs : QueueResp) : (fields.foldl QueueResp.set qs).payload = qs.payload := by
  induction fields generalizing qs with
  | nil => rfl
  | cons x fields ih =>
    obtain ⟨q, rfl⟩ := h x List.mem_cons_self
    exact ih (fun y hy => h y (List.mem_cons_of_mem _ hy)) _

/-- An assigned payload does not depend on the one that was there. -/
theorem foldl_set_assigned (fields : List QueueField) {p : Bytes} (h : .payload p ∈ fields)
    (queue payload payload' : Bytes) :
    fields.foldl QueueResp.set ⟨queue, payload⟩ = fields.foldl QueueResp.set ⟨queue, payload'⟩ := by
  induction fields generalizing queue payload payload' with
  | nil => cases h
  | cons x fields ih =>
    cases x with
    | queue q =>
      rcases List.mem_cons.mp h with h | h
      · cases h
      · exact ih h q payload payload'
    | payload p' => rfl

/-- A message without a payload is sent with the payload that is in the struct. -/
theorem reply_of_omitsPayload {json : Json} {body : Bytes} (h : json.OmitsPayload body) (stale : Bytes) :
    ∃ queue, json.reply stale body = .respond stale queue := by
  rw [Json.reply_of_isResponse h.1 stale, Json.queueMessage, foldl_set_payload _ h.2]
  exact ⟨_, rfl⟩

/-- Any other body asks for the same, whatever payload is in the struct. -/
theorem reply_eq_of_not_omitsPayload {json : Json} {body : Bytes} (h : ¬ json.OmitsPayload body)
    (stale : Bytes) : json.reply stale body = json.reply [] body := by
  by_cases hresp : json.IsResponse body
  · obtain ⟨x, hx, hne⟩ : ∃ x ∈ (json.queueResp (json.envelope body).data).1, ∀ q, x ≠ .queue q := by
      by_contra hall
      refine h ⟨hresp, fun x hx => ?_⟩
      by_contra hne
      exact hall ⟨x, hx, fun q hq => hne ⟨q, hq⟩⟩
    rw [Json.reply_of_isResponse hresp, Json.reply_of_isResponse hresp, Json.queueMessage,
      Json.queueMessage]
    cases x with
    | queue q => exact absurd rfl (hne q)
    | payload p => rw [foldl_set_assigned _ hx [] stale []]
  · exact (Json.reply_of_not_isResponse hresp stale).1

open RespHandler

theorem reset_exec (json : Json) (history : List Response) :
    Reset (Run.exec (RespHandler.after json) newResponseHandler history) :=
  Run.exec_invariant (I := Reset) (fun _ r h => reset_after json h r) history reset_new

/-- The calls for a response are those that it asks for. -/
theorem calls_eq {σ : Type} (json : Json) (jb : Acknowledger σ) {rh : RespHandler} (h : rh.Reset)
    (r : Response) (s : σ) :
    calls json jb r rh s = ((json.reply (rh.stale r) r.body).run jb.logged (s, [])).2.2 := by
  rw [← (handle_eq json jb.logged h r (s, [])).2]
  rfl

/-- **When a used handler makes the calls of a new one.** After any history, the calls on a job for a
response, with their arguments, are those of a new handler exactly if the response is no message
without a payload for which a struct with a payload is picked. -/
theorem calls_eq_fresh_iff {σ : Type} (json : Json) (history : List Response) (r : Response)
    (jb : Acknowledger σ) (s : σ) :
    let rh := Run.exec (RespHandler.after json) newResponseHandler history
    calls json jb r rh s = calls json jb r newResponseHandler s ↔
      ¬ (json.OmitsPayload r.body ∧ rh.stale r ≠ []) := by
  intro rh
  have hfresh : newResponseHandler.stale r = [] := by
    rw [stale, newResponseHandler, Pool.get_empty]
  rw [calls_eq json jb (reset_exec json history) r s, calls_eq json jb reset_new r s, hfresh]
  constructor
  · rintro heq ⟨homit, hne⟩
    obtain ⟨queue, hq⟩ := reply_of_omitsPayload homit (rh.stale r)
    obtain ⟨queue', hq'⟩ := reply_of_omitsPayload homit []
    rw [hq, hq'] at heq
    simp only [Reply.run, Acknowledger.logged, List.nil_append, List.cons.injEq, Prod.mk.injEq,
      Call.respond.injEq] at heq
    exact hne heq.1.1.1
  · intro h
    by_cases homit : json.OmitsPayload r.body
    · have hstale : rh.stale r = [] := by
        by_contra hne
        exact h ⟨homit, hne⟩
      rw [hstale]
    · rw [reply_eq_of_not_omitsPayload homit (rh.stale r)]

/-- The second message is sent with the payload of the first one. -/
theorem payload_leaks :
    let first : Response := { body := payloadMessage }
    let second : Response := { body := emptyMessage, pickQ := some 0 }
    let rh := Run.exec (RespHandler.after sampleJson) newResponseHandler [first]
    calls sampleJson silent second rh () = [(.respond (ascii "x") [], none)] ∧
      calls sampleJson silent second newResponseHandler () = [(.respond [] [], none)] := by
  decide +kernel

end RoadRunner.Jobs
