import RoadRunner.Http.Cache

/-!
# What the cache shares between requests

Three rules of an HTTP cache, over every history of requests, and exactly when the middleware keeps them.

* `authorised_kept_iff`: a request with an `Authorization` header is answered by the next handler and does not
  change the cache. The middleware looks for the header in the response, so the rule holds only of requests that
  are passed on for another reason, and of those whose answer makes no difference to the cache.
  `served_unauthorised` is what the rule is for.
* `noStore_kept_iff`: a request with `no-store` does not change the cache. The directive is parsed and never read.
* `served_same_uri_iff`: an entry is served for the URI it was produced for. The key is all that is compared, so
  this holds for a set of URIs exactly if no two of them have the same hash.
-/

namespace RoadRunner.Http.Cache

namespace Exchange

/-- The request has an `Authorization` header. -/
def Authorised (x : Exchange) : Prop := x.header.values (ascii "Authorization") ≠ []

instance (x : Exchange) : Decidable x.Authorised := inferInstanceAs (Decidable (_ ≠ _))

/-- The directive is one of the parts of the `Cache-Control` header. -/
def Asks (x : Exchange) (f : Flag) : Prop :=
  ∃ part ∈ (stripNewlines (x.header.first "Cache-Control")).splitOn 44, f.Is part

theorem flag_directives (x : Exchange) (f : Flag) : x.directives.flag f = true ↔ x.Asks f := by
  have hnew : ({} : Req).flag f = false := by cases f <;> rfl
  rw [directives, Req.flag_parse, hnew]
  exact or_iff_right Bool.false_ne_true

end Exchange

/-- The next handler has answered. -/
def Reply.byHandler : Reply → Bool
  | .passed _ | .relayed _ => true
  | .cached _ | .failed _ | .panicked => false

theorem byHandler_relayed (x : Exchange) : x.relayed.byHandler = true ↔ x.Relays := by
  rw [x.relayed_eq]
  split
  case isTrue h => exact iff_of_true rfl h
  case isFalse h => exact iff_of_false Bool.false_ne_true h

section

variable {B : Type} {env : Env B}

theorem byHandler_sendCached (x : Exchange) (msg : Msg) (age : Int) :
    (sendCached env x msg age).byHandler = false := by
  unfold sendCached
  split <;> rfl

theorem byHandler_serve (c : UInt64 → Option B) (x : Exchange) :
    (serve env c x).1.byHandler = true ↔ x.Bypasses ∨ (Fetches env c x ∧ x.Relays) := by
  by_cases hx : x.Bypasses
  · rw [serve, if_pos hx]
    exact iff_of_true rfl (.inl hx)
  · rw [or_iff_right hx]
    by_cases hfetches : Fetches env c x
    · rw [serve_of_fetches hfetches, byHandler_relayed]
      exact (and_iff_right hfetches).symm
    · refine iff_of_false ?_ fun h => hfetches h.1
      rw [serve, if_neg hx, Bool.not_eq_true]
      cases hfind : find env c x with
      | absent => exact absurd ⟨hx, .inl hfind⟩ hfetches
      | stale => exact absurd ⟨hx, .inr hfind⟩ hfetches
      | bad text => rfl
      | fresh msg age => exact byHandler_sendCached x msg age

/-- Answered by the next handler, without a change of the cache. -/
theorem serve_kept_iff {c : UInt64 → Option B} {x : Exchange} :
    ((serve env c x).1.byHandler = true ∧ (serve env c x).2 = c) ↔
      x.Bypasses ∨ (Fetches env c x ∧ x.Relays ∧ x.payload env = c x.key) := by
  rw [byHandler_serve, serve_same_iff]
  constructor
  · rintro ⟨hx | ⟨hfetches, hrelays⟩, hsame⟩
    · exact .inl hx
    · exact .inr ⟨hfetches, hrelays, hsame hfetches⟩
  · rintro (hx | ⟨hfetches, hrelays, hsame⟩)
    · exact ⟨.inl hx, fun hfetches => absurd hx hfetches.1⟩
    · exact ⟨.inr ⟨hfetches, hrelays⟩, fun _ => hsame⟩

/-- What is served from the cache was written by the handler of a request that has stored it. -/
theorem StoredBy.cached {P : Exchange → Prop} {c : UInt64 → Option B} (hc : StoredBy env P c) {x : Exchange}
    {answer : Received} (h : (Cache.serve env c x).1 = .cached answer) :
    ∃ y, P y ∧ y.key = x.key ∧ answer.content = (y.wrote.code, y.wrote.data) := by
  have hx : ¬ x.Bypasses := by
    intro hx
    rw [Cache.serve, if_pos hx] at h
    cases h
  have hfetches : ¬ Fetches env c x := by
    intro hfetches
    rw [serve_of_fetches hfetches] at h
    have hrelayed : x.relayed ≠ .cached answer := by
      rw [x.relayed_eq]
      split <;> exact fun h => by cases h
    exact hrelayed h
  cases hout : c x.key with
  | none => exact absurd ⟨hx, .inl (by rw [find, hout])⟩ hfetches
  | some out =>
    obtain ⟨y, hy, hkey, hpayload⟩ := hc x.key out hout
    refine ⟨y, hy, hkey, ?_⟩
    have hfresh : ¬ x.Expires env y.now.seconds := by
      intro hexpires
      exact hfetches ⟨hx, .inr (by rw [find_of_payload hout hpayload, if_pos hexpires])⟩
    rw [serve_of_payload hx hout hpayload hfresh] at h
    cases h
    rw [(payload_read hpayload).1]
    rfl

/-! ## Requests with an Authorization header -/

/-- A request with an `Authorization` header is answered by the next handler and does not change the cache, exactly
if it is passed on, or the handler is asked and its answer gives the entry that there is: none, if it is not
stored. -/
theorem authorised_kept_iff (env : Env B) (xs : List Exchange) :
    (∀ pre x post, xs = pre ++ x :: post → x.Authorised →
      (middleware env (after env pre) x).1.byHandler = true ∧
        (middleware env (after env pre) x).2.cache = (after env pre).cache) ↔
      Run.Along (step env) (fun p x => x.Authorised → x.Bypasses ∨
        (Fetches env p.cache x ∧ x.Relays ∧ x.payload env = p.cache x.key)) {} xs := by
  refine forall_requests_iff env (fun pre x => imp_congr_right fun _ => ?_) xs
  obtain ⟨hreply, hcache⟩ := middleware_after env pre x
  rw [hreply, hcache, (after_eq env pre).1]
  exact serve_kept_iff

/-- With the rule, all that is stored was written for requests without an `Authorization` header. -/
theorem stored_unauthorised {xs : List Exchange}
    (hkept : ∀ pre x post, xs = pre ++ x :: post → x.Authorised →
      (middleware env (after env pre) x).2.cache = (after env pre).cache) :
    StoredBy env (fun y => ¬ y.Authorised) (content env xs) := by
  refine content_storedBy (Run.Along.forall_iff.mp ?_)
  intro pre x post hxs
  by_cases hauth : x.Authorised
  · refine .inr ?_
    have hsame := hkept pre x post hxs hauth
    rw [(middleware_after env pre x).2, (after_eq env pre).1] at hsame
    exact hsame
  · exact .inl hauth

/-- With the rule, all that is served from the cache was written for requests without an `Authorization` header. -/
theorem served_unauthorised {xs : List Exchange}
    (hkept : ∀ pre x post, xs = pre ++ x :: post → x.Authorised →
      (middleware env (after env pre) x).2.cache = (after env pre).cache)
    {x : Exchange} {answer : Received} (h : (middleware env (after env xs) x).1 = .cached answer) :
    ∃ y : Exchange, ¬ y.Authorised ∧ y.key = x.key ∧ answer.content = (y.wrote.code, y.wrote.data) := by
  rw [(middleware_after env xs x).1] at h
  exact (stored_unauthorised hkept).cached h

end

/-- The answer to an authorised request is stored, and another client gets it. -/
theorem authorised_leaks :
    let alice := plain (ascii "/account") (ascii "alice") [(ascii "Authorization", [ascii "Bearer a"])]
    let bob := plain (ascii "/account") (ascii "bob") []
    alice.Authorised ∧ (middleware Env.utc {} alice).2.cache ≠ ({} : Plugin Msg).cache ∧
      (middleware Env.utc (after Env.utc [alice]) bob).1 =
        .cached ⟨200, [(ascii "Age", [ascii "0"])], ascii "alice"⟩ := by
  refine ⟨by decide +kernel, fun h => ?_, by decide +kernel⟩
  have hkey := congrFun h (hashWrite fnvOffset (ascii "/account"))
  revert hkey
  decide +kernel

/-! ## Requests with no-store -/

/-- A request with `no-store` does not change the cache exactly if the next handler is not asked, or its answer
gives the entry that there is: none, if it is not stored. -/
theorem noStore_kept_iff {B : Type} (env : Env B) (xs : List Exchange) :
    (∀ pre x post, xs = pre ++ x :: post → x.directives.noStore = true →
      (middleware env (after env pre) x).2.cache = (after env pre).cache) ↔
      Run.Along (step env) (fun p x => x.Asks .noStore → Fetches env p.cache x → x.payload env = p.cache x.key)
        {} xs := by
  refine forall_requests_iff env (fun pre x => imp_congr (x.flag_directives .noStore) ?_) xs
  rw [(middleware_after env pre x).2, (after_eq env pre).1]
  exact serve_same_iff

/-- A request with `no-store` is stored. -/
theorem noStore_stored :
    let x := plain (ascii "/") (ascii "secret") [(ascii "Cache-Control", [ascii "no-store"])]
    x.directives.noStore = true ∧ ({} : Plugin Msg).cache x.key = none ∧
      (middleware Env.utc {} x).2.cache x.key = some (x.message Env.utc) := by
  decide +kernel

/-! ## URIs with the same hash -/

section

variable {B : Type}

/-- A request that has just been stored is found by one with the same hash. -/
theorem plain_cached (env : Env B) {u v : Bytes} (hkey : hashWrite fnvOffset u = hashWrite fnvOffset v) :
    ∃ answer, (middleware env (after env [plain u u []]) (plain v v [])).1 = .cached answer := by
  have hkeys : (plain v v []).key = (plain u u []).key := hkey.symm
  obtain ⟨out, hpayload⟩ := exists_payload env (x := plain u u []) rfl (List.forall_mem_nil _)
  have hfetches : Fetches env (fun _ => none) (plain u u []) := ⟨plain_not_bypasses u u, .inl rfl⟩
  have hcontent : content env [plain u u []] = Function.update (fun _ => none) (plain u u []).key (some out) := by
    change (serve env (fun _ => none) (plain u u [])).2 = _
    rw [serve_of_fetches hfetches, hpayload]
  have hstored : content env [plain u u []] (plain v v []).key = some out := by
    rw [hcontent, hkeys, Function.update_self]
  have hfresh : ¬ (plain v v []).Expires env noon.seconds := by
    rw [Exchange.Expires, plain_directives]
    exact Bool.false_ne_true
  rw [(middleware_after env _ _).1, serve_of_payload (plain_not_bypasses v v) hstored hpayload hfresh]
  exact ⟨_, rfl⟩

/-- What is served from the cache was written by the handler of an earlier request with the same URI, in every
history of `GET` requests for URIs of `U`, exactly if no two URIs of `U` have the same hash. -/
theorem served_same_uri_iff (env : Env B) (U : Set Bytes) :
    (∀ xs : List Exchange, (∀ x ∈ xs, x.method = ascii "GET" ∧ x.requestURI ∈ U) →
      ∀ pre x post answer, xs = pre ++ x :: post → (middleware env (after env pre) x).1 = .cached answer →
        ∃ y ∈ pre, y.requestURI = x.requestURI ∧ answer.content = (y.wrote.code, y.wrote.data)) ↔
      Set.InjOn (hashWrite fnvOffset) U := by
  constructor
  · intro h u hu v hv hkey
    obtain ⟨answer, hcached⟩ := plain_cached env hkey
    have hurls : ∀ x ∈ [plain u u [], plain v v []], x.method = ascii "GET" ∧ x.requestURI ∈ U := by
      intro x hx
      rcases List.mem_cons.mp hx with rfl | hx
      · exact ⟨rfl, hu⟩
      · rw [List.mem_singleton] at hx
        subst hx
        exact ⟨rfl, hv⟩
    obtain ⟨y, hy, hsame, -⟩ := h _ hurls [plain u u []] (plain v v []) [] answer rfl hcached
    rw [List.mem_singleton] at hy
    subst hy
    exact hsame
  · intro hinj xs hxs pre x post answer hsplit hcached
    rw [(middleware_after env pre x).1] at hcached
    obtain ⟨y, hy, hkey, hcontent⟩ := (content_stored pre).cached hcached
    have hmem : ∀ z, z ∈ pre ∨ z = x → z.requestURI ∈ U := by
      intro z hz
      refine (hxs z ?_).2
      rw [hsplit, List.mem_append, List.mem_cons]
      exact hz.imp_right .inl
    exact ⟨y, hy, hinj (hmem y (.inl hy)) (hmem x (.inr rfl)) hkey, hcontent⟩

end

/-- Two URIs with the same hash: the second request gets the first one's answer. -/
theorem served_other_uri :
    let first := plain (ascii "/GV1YTX8-NJE") (ascii "first") []
    let second := plain (ascii "/8WtF5Vk7XwB") (ascii "second") []
    first.requestURI ≠ second.requestURI ∧
      (middleware Env.utc (after Env.utc [first]) second).1 =
        .cached ⟨200, [(ascii "Age", [ascii "0"])], ascii "first"⟩ := by
  decide +kernel

end RoadRunner.Http.Cache
