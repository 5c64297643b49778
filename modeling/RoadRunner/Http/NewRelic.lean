import RoadRunner.Http.Cache

/-!
# The New Relic middleware

The model of `http/middleware/new_relic/plugin.go`, and what its buffering writer and the one of the cache do to an
answer.

* `middleware`: a writer from the pool takes what the handler writes. The headers for New Relic are taken out, the
  rest is sent, and the writer goes back, unless sending panics.
* `after_all`: the writers in the pool are as new.
* `buffered_same_iff`: the client receives the status and the body that it would receive without the middleware
  exactly if the handler's calls are `Transparent`; from the cache, on a miss, it is also needed that an answer
  with 200 has no header.

What is reported to New Relic is left out.
-/

namespace RoadRunner.Http

namespace NewRelic

/-- `rrNewRelicKey`. -/
def rrNewRelicKey : Bytes := ascii "Rr_newrelic"

/-- `rrNewRelicErr`. -/
def rrNewRelicErr : Bytes := ascii "Rr_newrelic_error"

/-- A request: the header of the response before, what the handler does, and which idle writer it gets. -/
structure Request where
  w : Header := []
  calls : List Call
  pick : Option Nat := none

/-- `delete(hdrToSend, k)`. -/
def delete (hdrToSend : Header) (k : Bytes) : Header := hdrToSend.filter fun e => e.1 ≠ k

/-- The headers that are sent. The two branches of the source without an error differ in what they report. -/
def toSend (hdrToSend : Header) : Header :=
  if 0 < (hdrToSend.values rrNewRelicErr).length then delete (delete hdrToSend rrNewRelicKey) rrNewRelicErr
  else delete hdrToSend rrNewRelicKey

/-- `Middleware`; `none` is a panic of `WriteHeader`, after which the writer is lost. -/
def middleware (writersPool : Pool Writer) (x : Request) : Option Received × Pool Writer :=
  let (rrWriter, writersPool) := writersPool.get {} x.pick
  let rrWriter := rrWriter.run x.calls
  match relay (x.w.addAll (toSend rrWriter.hdrToSend)) rrWriter.code rrWriter.data with
  | none => (none, writersPool)
  | some answer => (some answer, writersPool.put {})

/-- The pool after a history of requests. -/
def after (xs : List Request) : Pool Writer := Run.exec (fun p x => (middleware p x).2) .empty xs

theorem middleware_eq {p : Pool Writer} (hp : p.All (· = {})) (x : Request) :
    (middleware p x).1 = relay (x.w.addAll (toSend (Writer.run {} x.calls).hdrToSend)) (Writer.run {} x.calls).code
        (Writer.run {} x.calls).data ∧
      (middleware p x).2.All (· = {}) := by
  have hget := Pool.get_all hp rfl x.pick
  unfold middleware
  generalize p.get {} x.pick = got at hget ⊢
  obtain ⟨wr, pool⟩ := got
  obtain ⟨rfl, hpool⟩ := hget
  dsimp only
  split
  case h_1 hrelay => exact ⟨hrelay.symm, hpool⟩
  case h_2 answer hrelay => exact ⟨hrelay.symm, hpool.put rfl⟩

theorem after_all (xs : List Request) : (after xs).All (· = {}) :=
  Run.exec_invariant (I := fun p : Pool Writer => p.All (· = {})) (fun _ x hp => (middleware_eq hp x).2) xs
    (Pool.all_empty _)

end NewRelic

/-! ## The two middleware -/

/-- The status and the body that the client receives. -/
def Cache.Reply.content : Cache.Reply → Option (Int × Bytes)
  | .passed answer => answer.map Received.content
  | .relayed answer | .cached answer => some answer.content
  | .failed text => some (500, ascii text ++ [10])
  | .panicked => none

/-- With one `WriteHeader`, of 200, the status is 200 wherever it stands. -/
theorem sentStatus_of_codes {calls : List Call} (h : codes calls = [200]) : sentStatus calls = some 200 := by
  rcases firstSent_of_codes h with hfirst | ⟨data, hfirst⟩ <;> rw [sentStatus, hfirst]
  rfl

/-- The answer of the next handler, on a miss. -/
theorem relayed_same_iff {x : Cache.Exchange} (honce : (codes x.calls).length ≤ 1) :
    x.relayed.content = (direct x.w x.calls).map Received.content ↔
      Transparent x.calls ∧ (codes x.calls = [200] → x.wrote.hdrToSend.Blank) := by
  have hcode : codes x.calls = [200] ↔ x.wrote.code = 200 := by
    rw [Cache.Exchange.wrote, Writer.run_code]
    rcases hcodes : codes x.calls with _ | ⟨code, _ | ⟨code', rest⟩⟩
    · decide
    · simp
    · rw [hcodes] at honce
      simp at honce
  rw [← relay_same_iff honce x.w (x.w.addAll x.wrote.hdrToSend), hcode]
  by_cases hderefs : x.Derefs
  · -- `writeCache` panics, and the handler has sent 200
    refine iff_of_false ?_ fun h => hderefs.2 (h.2 hderefs.1)
    rw [x.relayed_eq, if_neg fun h => h.2 hderefs, direct_content, sentStatus_of_codes (hcode.mpr hderefs.1)]
    exact fun h => nomatch h
  · have hblank : x.wrote.code = 200 → x.wrote.hdrToSend.Blank := by
      intro h
      by_contra hblank
      exact hderefs ⟨h, hblank⟩
    rw [and_iff_left hblank]
    have hsent : x.relayed.content =
        (relay (x.w.addAll x.wrote.hdrToSend) x.wrote.code x.wrote.data).map Received.content := by
      rw [x.relayed_eq, relay_eq]
      by_cases hvalid : ValidCode x.wrote.code
      · rw [if_pos ⟨hvalid, hderefs⟩, if_pos hvalid]
        rfl
      · rw [if_neg fun h => hvalid h.1, if_neg hvalid]
        rfl
    rw [hsent]
    rfl

/-- After any requests, the client receives the same status and body through the New Relic middleware as without
it exactly if the calls are `Transparent`. Through the cache, on a miss, an answer with 200 has to be without
headers too. -/
theorem buffered_same_iff (calls : List Call) (honce : (codes calls).length ≤ 1) :
    (∀ (xs : List NewRelic.Request) (w : Header) (pick : Option Nat),
      (NewRelic.middleware (NewRelic.after xs) ⟨w, calls, pick⟩).1.map Received.content =
        (direct w calls).map Received.content ↔ Transparent calls) ∧
    ∀ {B : Type} (env : Cache.Env B) (pre : List Cache.Exchange) (x : Cache.Exchange), x.calls = calls →
      ¬ x.Bypasses → (Cache.after env pre).cache x.key = none →
      ((Cache.middleware env (Cache.after env pre) x).1.content = (direct x.w calls).map Received.content ↔
        Transparent calls ∧ (codes calls = [200] → (calls.foldl Header.call []).Blank)) := by
  constructor
  · intro xs w pick
    rw [(NewRelic.middleware_eq (NewRelic.after_all xs) _).1]
    exact relay_same_iff honce w _
  · rintro B env pre x rfl hx hmiss
    have hfetches := Cache.fetches_of_miss env hx hmiss
    rw [(Cache.middleware_after env pre x).1, Cache.serve_of_fetches hfetches, relayed_same_iff honce,
      Cache.Exchange.wrote, Writer.run_hdrToSend]

/-- A handler that sends 404 and one chunk. -/
theorem buffered_same_once :
    let calls := [Call.writeHeader 404, .write (ascii "gone")]
    (NewRelic.middleware (NewRelic.after []) ⟨[], calls, none⟩).1.map Received.content = some (404, ascii "gone") ∧
      (Cache.middleware Cache.Env.utc (Cache.after Cache.Env.utc [])
        { requestURI := ascii "/", calls, since := Cache.noon, now := Cache.noon }).1.content =
          some (404, ascii "gone") := by
  intro calls
  have htransparent : Transparent calls := by
    refine ⟨404, rfl, ?_, fun _ => rfl⟩
    rintro - ⟨data, hdata⟩
    cases hdata
  have hdirect : (direct [] calls).map Received.content = some (404, ascii "gone") := rfl
  obtain ⟨hnewRelic, hcache⟩ := buffered_same_iff calls le_rfl
  refine ⟨((hnewRelic [] [] none).mpr htransparent).trans hdirect, ?_⟩
  refine ((hcache Cache.Env.utc [] _ rfl ?_ rfl).mpr ⟨htransparent, fun h => nomatch h⟩).trans hdirect
  decide +kernel

/-- A handler that leaves the status to `net/http`, and one that writes two chunks. -/
theorem buffered_differs :
    let implicit := [Call.write (ascii "hello")]
    let chunks := [Call.writeHeader 404, .write (ascii "not "), .write (ascii "found")]
    (direct [] implicit).map Received.content = some (200, ascii "hello") ∧
      (NewRelic.middleware (NewRelic.after []) ⟨[], implicit, none⟩).1.map Received.content = none ∧
      (Cache.middleware Cache.Env.utc (Cache.after Cache.Env.utc [])
        { Cache.plain (ascii "/") [] [] with calls := implicit }).1.content = none ∧
      (direct [] chunks).map Received.content = some (404, ascii "not found") ∧
      (NewRelic.middleware (NewRelic.after []) ⟨[], chunks, none⟩).1.map Received.content =
        some (404, ascii "found") ∧
      (Cache.middleware Cache.Env.utc (Cache.after Cache.Env.utc [])
        { Cache.plain (ascii "/") [] [] with calls := chunks }).1.content = some (404, ascii "found") := by
  decide +kernel

end RoadRunner.Http
