import RoadRunner.Http.NewRelic
import RoadRunner.Http.Replay

/-!
# New Relic headers stay internal

The writer that the New Relic middleware gives to a handler is taken from a pool, and its header map is
copied to the response of the client without the two headers that are meant for New Relic. The copying
goes through `Header().Add`, which brings a name to its canonical form; the map of a handler that uses
`Add` and `Set` has canonical names only, so no two of its entries come together in the copy.

* `canonicalKey_canonicalKey`: a canonical name is its own canonical form.
* `Header.Canonical`: canonical names, each once; `Canonical.call`: what `Add` and `Set` keep.
* `newRelic_headers_internal`: after every history of requests, the client gets what the handler of the
  request set, and nothing of the two headers.
-/

namespace RoadRunner.Http

/-! ### Canonical names -/

/-- The byte that `canonicalFrom` puts in the place of `c`. -/
def canonicalByte (upper : Bool) (c : UInt8) : UInt8 :=
  if upper && 97 ≤ c && c ≤ 122 then c - 32 else if !upper && 65 ≤ c && c ≤ 90 then c + 32 else c

theorem canonicalFrom_cons (upper : Bool) (c : UInt8) (cs : Bytes) :
    canonicalFrom upper (c :: cs) = canonicalByte upper c :: canonicalFrom (c = 45) cs := rfl

theorem canonicalByte_canonicalByte (upper : Bool) (c : UInt8) :
    canonicalByte upper (canonicalByte upper c) = canonicalByte upper c := by
  cases upper <;> simp [canonicalByte] <;> grind

theorem canonicalByte_eq_hyphen {upper : Bool} {c : UInt8} : canonicalByte upper c = 45 ↔ c = 45 := by
  cases upper <;> simp [canonicalByte] <;> grind

theorem validHeaderByte_canonicalByte {upper : Bool} {c : UInt8} (h : validHeaderByte c = true) :
    validHeaderByte (canonicalByte upper c) = true := by
  cases upper <;> simp [canonicalByte, validHeaderByte] at * <;> grind

theorem canonicalFrom_canonicalFrom (upper : Bool) (k : Bytes) :
    canonicalFrom upper (canonicalFrom upper k) = canonicalFrom upper k := by
  induction k generalizing upper with
  | nil => rfl
  | cons c cs ih =>
    have hflag : decide (canonicalByte upper c = 45) = decide (c = 45) :=
      decide_eq_decide.mpr canonicalByte_eq_hyphen
    rw [canonicalFrom_cons, canonicalFrom_cons, canonicalByte_canonicalByte, hflag, ih]

theorem all_canonicalFrom {k : Bytes} (h : k.all validHeaderByte = true) (upper : Bool) :
    (canonicalFrom upper k).all validHeaderByte = true := by
  induction k generalizing upper with
  | nil => rfl
  | cons c cs ih =>
    rw [List.all_cons, Bool.and_eq_true] at h
    rw [canonicalFrom_cons, List.all_cons, validHeaderByte_canonicalByte h.1, ih h.2]
    rfl

theorem canonicalKey_canonicalKey (k : Bytes) : canonicalKey (canonicalKey k) = canonicalKey k := by
  by_cases h : k.all validHeaderByte = true
  · have hkey : canonicalKey k = canonicalFrom true k := if_pos h
    rw [hkey, canonicalKey, if_pos (all_canonicalFrom h true), canonicalFrom_canonicalFrom]
  · have hkey : canonicalKey k = k := if_neg h
    rw [hkey, hkey]

/-! ### Header maps with canonical names -/

/-- The names of the map are canonical, and each is there once. -/
structure Header.Canonical (h : Header) : Prop where
  canonical : ∀ e ∈ h, canonicalKey e.1 = e.1
  nodup : (h.map Prod.fst).Nodup

/-- The call sets no header under a name that is not canonical. -/
def Call.Canonical : Call → Prop
  | .setHeader k _ => canonicalKey k = k
  | _ => True

instance (c : Call) : Decidable c.Canonical := by
  cases c <;> unfold Call.Canonical <;> infer_instance

namespace Header

variable {h : Header}

theorem Canonical.filter (hc : h.Canonical) (p : Bytes × List Bytes → Bool) : Canonical (h.filter p) where
  canonical e he := hc.canonical e (List.mem_of_mem_filter he)
  nodup := (List.filter_sublist.map Prod.fst).nodup hc.nodup

theorem Canonical.setEntry (hc : h.Canonical) {k : Bytes} (hk : canonicalKey k = k) (vs : List Bytes) :
    Canonical (setEntry h (k, vs)) where
  canonical e he := by
    rcases List.mem_append.mp he with he | he
    · exact hc.canonical e (List.mem_of_mem_filter he)
    · rw [List.mem_singleton.mp he]
      exact hk
  nodup := by
    rw [RoadRunner.setEntry, List.map_append, List.map_singleton, List.nodup_append]
    refine ⟨(hc.filter _).nodup, List.nodup_singleton k, fun a ha b hb => ?_⟩
    obtain ⟨e, he, rfl⟩ := List.mem_map.mp ha
    rw [List.mem_singleton.mp hb]
    simpa using (List.mem_filter.mp he).2

theorem Canonical.call (hc : h.Canonical) {c : Call} (hcall : c.Canonical) : (h.call c).Canonical := by
  cases c with
  | addHeader k v => exact hc.setEntry (canonicalKey_canonicalKey k) _
  | setHeader k vs => exact hc.setEntry hcall vs
  | delHeader k => exact hc.filter _
  | writeHeader code => exact hc
  | write data => exact hc

theorem canonical_foldl_call {calls : List Call} (hcalls : ∀ c ∈ calls, c.Canonical) (hc : h.Canonical) :
    (calls.foldl Header.call h).Canonical := by
  induction calls generalizing h with
  | nil => exact hc
  | cons c calls ih =>
    obtain ⟨hcall, hrest⟩ := List.forall_mem_cons.mp hcalls
    exact ih hrest (hc.call hcall)

theorem values_cons (e : Bytes × List Bytes) (h : Header) (k : Bytes) :
    Header.values (e :: h) k = if k = e.1 then e.2 else h.values k := by
  unfold values
  rw [List.lookup_cons]
  grind

theorem values_of_not_mem {k : Bytes} (hk : k ∉ h.map Prod.fst) : h.values k = [] := by
  induction h with
  | nil => rfl
  | cons e h ih =>
    rw [List.map_cons, List.mem_cons, not_or] at hk
    rw [values_cons, if_neg hk.1, ih hk.2]

/-- The values that a canonical map adds under a name are those that it has under it. -/
theorem Canonical.flatMap_values (hc : h.Canonical) (k : Bytes) :
    (h.flatMap fun e => if k = canonicalKey e.1 then e.2 else []) = h.values k := by
  induction h with
  | nil => rfl
  | cons e h ih =>
    have hhead : canonicalKey e.1 = e.1 := hc.canonical e List.mem_cons_self
    obtain ⟨hnew, hnodup⟩ := List.nodup_cons.mp hc.nodup
    have hrest : Canonical h := ⟨fun e' he' => hc.canonical e' (List.mem_cons_of_mem e he'), hnodup⟩
    rw [List.flatMap_cons, ih hrest, hhead, values_cons]
    by_cases hk : k = e.1
    · rw [if_pos hk, if_pos hk, hk, values_of_not_mem hnew, List.append_nil]
    · rw [if_neg hk, if_neg hk, List.nil_append]

end Header

namespace NewRelic

theorem values_delete (h : Header) (k k' : Bytes) :
    (delete h k).values k' = if k' = k then [] else h.values k' := by
  induction h with
  | nil => simp [delete, Header.values]
  | cons e h ih =>
    unfold delete at ih ⊢
    by_cases he : e.1 = k
    · rw [List.filter_cons_of_neg (by simp [he]), ih, Header.values_cons]
      grind
    · rw [List.filter_cons_of_pos (by simp [he]), Header.values_cons, ih, Header.values_cons]
      grind

/-- What is sent of each header. -/
theorem values_toSend (h : Header) (k : Bytes) :
    (toSend h).values k = if k = rrNewRelicKey ∨ k = rrNewRelicErr then [] else h.values k := by
  unfold toSend
  split
  · rw [values_delete, values_delete]
    grind
  · rename_i herr
    have hnone : h.values rrNewRelicErr = [] := List.length_eq_zero_iff.mp (by omega)
    rw [values_delete]
    grind

theorem Header.Canonical.toSend {h : Header} (hc : h.Canonical) : (toSend h).Canonical := by
  unfold NewRelic.toSend
  split
  · exact (hc.filter _).filter _
  · exact hc.filter _

/-- The header map of the client's response, when the writer's headers have been copied to it. -/
def clientHeader (writersPool : Pool Writer) (x : Request) : Header :=
  x.w.addAll (toSend ((writersPool.get {} x.pick).1.run x.calls).hdrToSend)

/-- The headers that a handler has set, on a response of its own. -/
def ownHeader (x : Request) : Header := x.calls.foldl Header.call []

/-- An answer is sent with that map. -/
theorem middleware_header {p : Pool Writer} {x : Request} {answer : Received}
    (h : (middleware p x).1 = some answer) : answer.header = clientHeader p x := by
  unfold middleware at h
  dsimp only at h
  rw [relay_eq] at h
  by_cases hcode : ValidCode ((p.get {} x.pick).1.run x.calls).code
  · rw [if_pos hcode] at h
    obtain rfl := Option.some.inj h
    rfl
  · rw [if_neg hcode] at h
    cases h

/-- After every history of requests, the header map of the client's response gets the values that the
handler of the request set, in order, but for the two headers for New Relic; and it is the map that the
client receives. -/
theorem newRelic_headers_internal (xs : List Request) (x : Request) (hcalls : ∀ c ∈ x.calls, c.Canonical) :
    (∀ k, (clientHeader (after xs) x).values k =
      x.w.values k ++ if k = rrNewRelicKey ∨ k = rrNewRelicErr then [] else (ownHeader x).values k) ∧
    ∀ answer, (middleware (after xs) x).1 = some answer → answer.header = clientHeader (after xs) x := by
  refine ⟨fun k => ?_, fun answer h => middleware_header h⟩
  obtain ⟨hwriter, -⟩ := Pool.get_all (after_all xs) rfl x.pick
  have hown : (((after xs).get {} x.pick).1.run x.calls).hdrToSend = ownHeader x := by
    rw [hwriter, Writer.run_hdrToSend]
    rfl
  have hcanonical : (ownHeader x).Canonical :=
    Header.canonical_foldl_call hcalls ⟨fun e he => absurd he List.not_mem_nil, List.nodup_nil⟩
  rw [clientHeader, hown, Header.values_addAll, (Header.Canonical.toSend hcanonical).flatMap_values, values_toSend]

/-- A request whose handler sets headers of each kind. -/
def sampleRequest : Request :=
  { calls := [.addHeader (ascii "x-a") [1], .addHeader (ascii "rr_newrelic_error") [2], .addHeader (ascii "X-A") [3],
      .setHeader (ascii "Rr_newrelic") [[4]], .writeHeader 200] }

theorem newRelic_headers_internal_sample :
    (∀ c ∈ sampleRequest.calls, c.Canonical) ∧
      (clientHeader (after [sampleRequest]) sampleRequest).values (ascii "X-A") = [[1], [3]] ∧
      (clientHeader (after [sampleRequest]) sampleRequest).values rrNewRelicErr = [] := by
  have hcalls : ∀ c ∈ sampleRequest.calls, c.Canonical := by decide
  have hvalues := (newRelic_headers_internal [sampleRequest] sampleRequest hcalls).1
  exact ⟨hcalls, (hvalues _).trans (by decide), (hvalues _).trans (by decide)⟩

end NewRelic

end RoadRunner.Http
