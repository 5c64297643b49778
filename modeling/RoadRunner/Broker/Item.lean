import RoadRunner.Basic

/-!
# Items of the broker drivers

What the drivers for brokers share: the names under which a job's fields travel, the JSON codec for a job's
headers, and the result of a conversion.

* `Result`: a value, an error, or a panic. The conversions are written with `do`; `Result.panics_bind` takes
  them apart.
* `Json`: the codec for `map[string][]string` and for a job's context. It is faithful on valid UTF-8, and it
  reads everything it has written.
-/

namespace RoadRunner.Broker

/-! ## Results -/

/-- A runtime panic. -/
inductive Panic where
  /-- `t.(want)` for a value of another type. -/
  | typeAssertion (got want : String)
  | nilDereference
  deriving DecidableEq

/-- The result of a call that can fail or panic. -/
inductive Result (α : Type) where
  | ok (a : α)
  | error (err : Err)
  | panicked (p : Panic)
  deriving DecidableEq

namespace Result

variable {α β : Type}

/-- Go on with the value. -/
def bind : Result α → (α → Result β) → Result β
  | ok a, f => f a
  | error err, _ => error err
  | panicked p, _ => panicked p

instance : Monad Result where
  pure := ok
  bind := bind

/-- `*p`. -/
def deref : Option α → Result α
  | some a => ok a
  | none => panicked .nilDereference

/-- The value, or the error `err`. -/
def orElse (err : Err) : Option α → Result α
  | some a => ok a
  | none => error err

/-- The call panics. -/
def Panics (r : Result α) : Prop := ∃ p, r = panicked p

@[simp] theorem ok_bind (a : α) (f : α → Result β) : (ok a >>= f) = f a := rfl

@[simp] theorem error_bind (err : Err) (f : α → Result β) : (error err >>= f) = error err := rfl

@[simp] theorem panics_pure (a : α) : ¬ Panics (pure a : Result α) := nofun

@[simp] theorem panics_ok (a : α) : ¬ Panics (ok a) := nofun

@[simp] theorem panics_error (err : Err) : ¬ Panics (error err : Result α) := nofun

theorem panics_bind {r : Result α} {f : α → Result β} :
    (r >>= f).Panics ↔ r.Panics ∨ ∃ a, r = ok a ∧ (f a).Panics := by
  cases r with
  | ok a => simp
  | error err => simp
  | panicked p => exact iff_of_true ⟨p, rfl⟩ (.inl ⟨p, rfl⟩)

theorem bind_eq_ok {r : Result α} {f : α → Result β} {b : β} :
    (r >>= f) = ok b ↔ ∃ a, r = ok a ∧ f a = ok b := by
  cases r with
  | ok a => simp
  | error err => exact iff_of_false nofun nofun
  | panicked p => exact iff_of_false nofun nofun

@[simp] theorem panics_deref {o : Option α} : (deref o).Panics ↔ o = none := by
  cases o with
  | none => exact iff_of_true ⟨_, rfl⟩ rfl
  | some a => simp [deref]

@[simp] theorem deref_eq_ok {o : Option α} {a : α} : deref o = ok a ↔ o = some a := by
  cases o <;> simp [deref]

@[simp] theorem panics_orElse {err : Err} {o : Option α} : ¬ (orElse err o).Panics := by
  cases o <;> simp [orElse]

@[simp] theorem orElse_eq_ok {err : Err} {o : Option α} {a : α} : orElse err o = ok a ↔ o = some a := by
  cases o <;> simp [orElse]

end Result

/-! ## The names of the fields -/

/-- `jobs.RRID`. -/
def rrID : Bytes := ascii "rr_id"

/-- `jobs.RRJob`. -/
def rrJob : Bytes := ascii "rr_job"

/-- `jobs.RRHeaders`. -/
def rrHeaders : Bytes := ascii "rr_headers"

/-- `jobs.RRPipeline`. -/
def rrPipeline : Bytes := ascii "rr_pipeline"

/-- `jobs.RRDelay`. -/
def rrDelay : Bytes := ascii "rr_delay"

/-- `jobs.RRPriority`. -/
def rrPriority : Bytes := ascii "rr_priority"

/-! ## JSON -/

/-- The bytes are the encoding of a text. -/
def Utf8 (b : Bytes) : Prop := ∃ text : List Char, b = text.flatMap String.utf8EncodeChar

theorem utf8_nil : Utf8 [] := ⟨[], rfl⟩

/-- All names and values of headers are UTF-8. -/
def HeadersUtf8 (h : Headers) : Prop := ∀ m ∈ h, ∀ e ∈ m, Utf8 e.1 ∧ ∀ v ∈ e.2, Utf8 v

theorem headersUtf8_none : HeadersUtf8 none := nofun

/-- What `Context` of every driver marshals. -/
structure Context where
  id : Bytes
  job : Bytes
  headers : Headers
  pipeline : Bytes
  deriving DecidableEq

/-- All texts of a context are UTF-8. -/
structure Context.Utf8 (c : Context) : Prop where
  id : Broker.Utf8 c.id
  job : Broker.Utf8 c.job
  headers : HeadersUtf8 c.headers
  pipeline : Broker.Utf8 c.pipeline

/-- The JSON codec. -/
structure Json where
  marshal : Headers → Bytes
  unmarshal : Bytes → Option Headers
  marshalContext : Context → Bytes
  unmarshal_marshal : ∀ h, HeadersUtf8 h → unmarshal (marshal h) = some h
  /-- Bytes that are not UTF-8 are replaced, and what is written can be read. -/
  isSome_unmarshal_marshal : ∀ h, (unmarshal (marshal h)).isSome
  marshalContext_injective : ∀ c c', c.Utf8 → c'.Utf8 → marshalContext c = marshalContext c' → c = c'

instance encodableUInt8 : Encodable UInt8 := Encodable.ofLeftInverse UInt8.toNat UInt8.ofNat fun x => by simp

/-- A codec that writes the number of a value as that many bytes. -/
def Json.plain : Json where
  marshal h := List.replicate (Encodable.encode h) 0
  unmarshal b := Encodable.decode b.length
  marshalContext c := List.replicate (Encodable.encode (c.id, c.job, c.headers, c.pipeline)) 0
  unmarshal_marshal h _ := by rw [List.length_replicate, Encodable.encodek]
  isSome_unmarshal_marshal h := by rw [List.length_replicate, Encodable.encodek]; rfl
  marshalContext_injective c c' _ _ h := by
    have hlen := congrArg List.length h
    rw [List.length_replicate, List.length_replicate] at hlen
    have heq := Encodable.encode_injective hlen
    cases c
    cases c'
    simpa using heq

end RoadRunner.Broker
