import RoadRunner.Http.Cache

/-!
# What the cache replays

A `GET` that finds no entry, and a later one for the same URI that the entry is not too old for. A cache that is
right answers the first with what the handler produced, and the second with the same from the cache.

* `Produces`: a handler that sends 200 with a header map and writes a body in one `Write`, in whatever calls.
* `replays_iff`: both requests are answered as they should be exactly if the handler calls `WriteHeader`, leaves
  the header map without values, and the second request is not passed on. A value of a header makes `writeCache`
  dereference a nil pointer; without a `WriteHeader` the buffered code is -1.
-/

namespace RoadRunner.Http

/-! ## Values of headers -/

theorem lookup_setEntry {V : Type} (m : List (Bytes × V)) (e : Bytes × V) (k : Bytes) :
    (setEntry m e).lookup k = if k = e.1 then some e.2 else m.lookup k := by
  induction m with
  | nil =>
    rw [setEntry, List.filter_nil, List.nil_append, List.lookup_cons, List.lookup_nil]
    grind
  | cons a m ih =>
    unfold setEntry at ih ⊢
    grind

namespace Header

theorem values_add (h : Header) (k v k' : Bytes) :
    (h.add k v).values k' = if k' = canonicalKey k then h.values k' ++ [v] else h.values k' := by
  rw [add, values, lookup_setEntry]
  split
  case isTrue hk => rw [hk]; rfl
  case isFalse => rfl

/-- The values of a header come after those that it had. -/
theorem values_addAll (h g : Header) (k : Bytes) :
    (h.addAll g).values k = h.values k ++ g.flatMap fun e => if k = canonicalKey e.1 then e.2 else [] := by
  have hentry : ∀ (key : Bytes) (vs : List Bytes) (h : Header),
      (vs.foldl (fun h v => h.add key v) h).values k = h.values k ++ if k = canonicalKey key then vs else [] := by
    intro key vs
    induction vs with
    | nil => simp
    | cons v vs ih =>
      intro h
      rw [List.foldl_cons, ih, values_add]
      split <;> simp
  induction g generalizing h with
  | nil => simp [addAll]
  | cons e g ih =>
    rw [addAll, List.foldl_cons, List.flatMap_cons, ← List.append_assoc, ← hentry]
    exact ih _

theorem blank_iff_values_addAll {h g : Header} : (∀ k, (h.addAll g).values k = h.values k) ↔ g.Blank := by
  constructor
  · intro hsame e he
    have hnone := hsame (canonicalKey e.1)
    rw [values_addAll, List.append_right_eq_self, List.flatMap_eq_nil_iff] at hnone
    have hvalues := hnone e he
    rwa [if_pos rfl] at hvalues
  · intro hg k
    rw [addAll_of_blank h hg]

/-- The header map when the status is sent. -/
def sentBy : Header → List Call → Header
  | h, [] => h
  | h, .writeHeader _ :: _ => h
  | h, .write _ :: _ => h
  | h, c :: calls => sentBy (h.call c) calls

end Header

/-- A handler that sends 200 with this header map, and writes this body in one `Write`. -/
structure Produces (calls : List Call) (header : Header) (body : Bytes) : Prop where
  status : sentStatus calls = some 200
  header : Header.sentBy [] calls = header
  body : writes calls = [body]

/-- An answer with this status, these values for every header, and this body. -/
def Received.Carries (a : Received) (status : Int) (header : Header) (body : Bytes) : Prop :=
  a.status = status ∧ (∀ k, a.header.values k = header.values k) ∧ a.body = body

namespace Cache

/-- The last `WriteHeader` counts. -/
theorem Exchange.wrote_code (x : Exchange) : x.wrote.code = 200 ↔ (codes x.calls).getLast? = some 200 := by
  rw [wrote, Writer.run_code]
  cases (codes x.calls).getLast? with
  | none => decide
  | some code => exact Option.some_inj.symm

theorem Exchange.wrote_data {x : Exchange} {header : Header} {body : Bytes} (h : Produces x.calls header body) :
    x.wrote.data = body := by
  rw [Exchange.wrote, Writer.run_data, h.body]
  rfl

variable {B : Type} {env : Env B}

/-- An entry stays while it is not too old for the requests that find it. -/
theorem entry_kept {x : Exchange} {out : B} (hpayload : x.payload env = some out) {mid : List Exchange}
    (hmid : ∀ z ∈ mid, z.key = x.key → z.Bypasses ∨ ¬ z.Expires env x.now.seconds) {c : UInt64 → Option B}
    (hc : c x.key = some out) : Run.exec (fun c x => (serve env c x).2) c mid x.key = some out := by
  refine Run.Along.invariant (I := fun c => c x.key = some out) ?_ hc (Run.Along.of_forall c hmid)
  intro c z hc hz
  by_cases hfetches : Fetches env c z
  · rw [serve_of_fetches hfetches]
    by_cases hkey : z.key = x.key
    · -- it would be found, and not too old
      rw [← hkey] at hc
      have hfresh := (hz hkey).resolve_left hfetches.1
      have hfind := find_of_payload hc hpayload
      rw [if_neg hfresh] at hfind
      rcases hfetches.2 with h | h <;> rw [hfind] at h <;> cases h
    · exact (Function.update_of_ne (Ne.symm hkey) _ _).trans hc
  · rw [serve_of_not_fetches hfetches]
    exact hc

/-- A request that finds nothing and a later one for the same URI are answered with what the handler produced,
exactly if the handler has called `WriteHeader` with 200 last, no header has a value, and the second request is not
passed on. -/
theorem replays_iff (env : Env B) (pre mid : List Exchange) (x y : Exchange) (header : Header) (body : Bytes)
    (hx : ¬ x.Bypasses) (hmiss : (after env pre).cache x.key = none) (hproduces : Produces x.calls header body)
    (hmid : ∀ z ∈ mid, z.key = x.key → z.Bypasses ∨ ¬ z.Expires env x.now.seconds)
    (huri : y.requestURI = x.requestURI) (hfresh : ¬ y.Expires env x.now.seconds) :
    ((∃ a, (middleware env (after env pre) x).1 = .relayed a ∧ a.Carries 200 (x.w.addAll header) body) ∧
      ∃ a, (middleware env (after env (pre ++ x :: mid)) y).1 = .cached a ∧
        a.Carries 200 ((y.w.add (ascii "Age") (env.text (y.since.ns - x.now.seconds))).addAll header) body) ↔
      (codes x.calls).getLast? = some 200 ∧ header.Blank ∧ x.wrote.hdrToSend.Blank ∧ ¬ y.Bypasses := by
  have hdata := Exchange.wrote_data hproduces
  have hserve := serve_of_fetches (fetches_of_miss env hx hmiss)
  rw [(middleware_after env pre x).1, (middleware_after env _ y).1, hserve, x.relayed_eq, ← x.wrote_code]
  constructor
  · rintro ⟨⟨a, hrelayed, hstatus, hvalues, -⟩, a', hcached, -⟩
    by_cases hrelays : x.Relays
    · rw [if_pos hrelays] at hrelayed
      cases hrelayed
      have hblank : x.wrote.hdrToSend.Blank := by
        by_contra hblank
        exact hrelays.2 ⟨hstatus, hblank⟩
      refine ⟨hstatus, ?_, hblank, ?_⟩
      · rw [← Header.blank_iff_values_addAll (h := x.w)]
        intro k
        rw [← hvalues k, Header.addAll_of_blank x.w hblank]
      · intro hy
        rw [serve, if_pos hy] at hcached
        cases hcached
    · rw [if_neg hrelays] at hrelayed
      cases hrelayed
  · rintro ⟨hcode, hheader, hblank, hy⟩
    have hrelays : x.Relays := ⟨hcode ▸ by decide, fun h => h.2 hblank⟩
    rw [if_pos hrelays, Header.addAll_of_blank _ hheader, Header.addAll_of_blank _ hheader,
      Header.addAll_of_blank _ hblank]
    have hbody : sentBody x.wrote.code x.wrote.data = body := by rw [hcode, sentBody_ok, hdata]
    refine ⟨⟨_, rfl, hcode, fun _ => rfl, hbody⟩, ?_⟩
    obtain ⟨out, hpayload⟩ := exists_payload env hcode hblank
    have hstored : content env (pre ++ x :: mid) y.key = some out := by
      have hkey : y.key = x.key := by rw [Exchange.key, huri]; rfl
      rw [hkey, content, Run.exec, List.foldl_append, List.foldl_cons]
      refine entry_kept hpayload hmid ?_
      change (serve env (content env pre) x).2 x.key = some out
      rw [hserve, hpayload]
      exact Function.update_self ..
    rw [serve_of_payload hy hstored hpayload hfresh]
    exact ⟨_, rfl, rfl, fun _ => rfl, hdata⟩

/-- A handler that sets no header. -/
theorem replays_plain :
    (∃ a, (middleware Env.utc (after Env.utc []) (plain (ascii "/") (ascii "hello") [])).1 = .relayed a ∧
      a.Carries 200 [] (ascii "hello")) ∧
    ∃ a, (middleware Env.utc (after Env.utc [plain (ascii "/") (ascii "hello") []])
        (plain (ascii "/") (ascii "other") [])).1 = .cached a ∧
      a.Carries 200 [(ascii "Age", [ascii "0"])] (ascii "hello") := by
  have hage : (Header.add [] (ascii "Age") (Env.utc.text (noon.ns - noon.seconds))).addAll [] =
      [(ascii "Age", [ascii "0"])] := by decide +kernel
  have hfresh : ¬ (plain (ascii "/") (ascii "other") []).Expires Env.utc noon.seconds := by decide +kernel
  obtain ⟨hmiss, a, hcached, hcarries⟩ := (replays_iff Env.utc [] [] (plain (ascii "/") (ascii "hello") [])
    (plain (ascii "/") (ascii "other") []) [] (ascii "hello") (plain_not_bypasses _ _) rfl ⟨rfl, rfl, rfl⟩
    (List.forall_mem_nil _) (Eq.refl (ascii "/")) hfresh).mpr
      ⟨rfl, List.forall_mem_nil _, List.forall_mem_nil _, plain_not_bypasses _ _⟩
  refine ⟨hmiss, a, hcached, ?_⟩
  rw [← hage]
  exact hcarries

/-- A handler that sets a header, and one that leaves the status to `net/http`. Nothing is sent to the client. -/
theorem replay_panics :
    let typed := { plain (ascii "/") [] [] with
      calls := [.addHeader (ascii "Content-Type") (ascii "text/html"), .writeHeader 200, .write (ascii "hello")] }
    let implicit := { plain (ascii "/") [] [] with calls := [.write (ascii "hello")] }
    (Produces typed.calls [(ascii "Content-Type", [ascii "text/html"])] (ascii "hello") ∧
      (middleware Env.utc (after Env.utc []) typed).1 = .panicked) ∧
    Produces implicit.calls [] (ascii "hello") ∧ (middleware Env.utc (after Env.utc []) implicit).1 = .panicked := by
  refine ⟨⟨⟨?_, ?_, ?_⟩, ?_⟩, ⟨?_, ?_, ?_⟩, ?_⟩ <;> decide +kernel

end Cache

end RoadRunner.Http
