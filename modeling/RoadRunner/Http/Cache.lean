import RoadRunner.Http.Writer
import RoadRunner.Http.Directives
import RoadRunner.Lib.Calendar
import RoadRunner.Lib.Pool
import RoadRunner.Lib.Run
import RoadRunner.Lib.Update

/-!
# The HTTP cache

The model of `http/middleware/cache` over the in-memory driver of `memory/memoryhttpcache`. Requests come one
after the other. A request is an `Exchange`: the request itself, what the next handler does for it, and what the
clock and the pools give.

* `Env`: the protobuf codec, with its round trip, and the conversions of times. The bytes of a marshaled message
  are an arbitrary type.
* `Plugin`: the four pools and the content of the cache. `writeCache`, `fetch`, `handleGET`, `middleware`: the
  functions of the source, `fetch` being what `handleGET` does on a miss and for a stale entry.
* `serve`: what the middleware is for, over the content of the cache alone: a request is passed on, an entry that
  is there and not too old is sent (`find`), else the next handler is asked and its answer takes the place of the
  entry.
* `middleware_eq`: with objects that are reset before they are put back (`Clean`), the plugin is `serve`.
* `content_stored`: every entry is what some request of the history has stored.

A driver that fails and a hash that cannot be written to are left out: the in-memory driver and `hash/fnv` do
neither.
-/

namespace RoadRunner.Http.Cache

/-! ## What the middleware builds on -/

/-- `hash/fnv`: the 64-bit FNV-1a hash. -/
def fnvOffset : UInt64 := 14695981039346656037

/-- `prime64` of `hash/fnv`. -/
def fnvPrime : UInt64 := 1099511628211

/-- `Write` of a hash that has come to `h`. -/
def hashWrite (h : UInt64) (data : Bytes) : UInt64 := data.foldl (fun h b => (h ^^^ b.toUInt64) * fnvPrime) h

/-- `cacheV1beta.Response`. -/
structure Msg where
  code : UInt64 := 0
  data : Bytes := []
  headers : List (Bytes × List Bytes) := []
  timestamp : Bytes := []
  deriving DecidableEq

/-- A time of the years 1 to 9998, which have a timestamp of four digits in every zone: nanoseconds since 1970. -/
structure Moment where
  ns : Int
  lower : -62135596800000000000 ≤ ns
  upper : ns < 253370764800000000000

/-- Whole seconds, as a timestamp has them. -/
def Moment.seconds (t : Moment) : Int := t.ns / 1000000000 * 1000000000

/-- Protobuf and time. -/
structure Env (B : Type) where
  marshal : Msg → Except Err B
  unmarshal : B → Except Err Msg
  unmarshal_marshal : ∀ m, ∃ b, marshal m = .ok b ∧ unmarshal b = .ok m
  /-- `Format(time.RFC3339)`. -/
  format : Moment → Bytes
  /-- `time.Parse(time.RFC3339, ·)`, in nanoseconds. -/
  parse : Bytes → Option Int
  parse_format : ∀ t, parse (format t) = some t.seconds
  /-- `uint64(d.Seconds())` of a duration. -/
  whole : Int → UInt64
  /-- `fmt.Sprintf("%.0f", d.Seconds())`. -/
  text : Int → Bytes

/-- Messages that are kept as they are, and the clock of UTC. -/
def Env.utc : Env Msg where
  marshal := .ok
  unmarshal := .ok
  unmarshal_marshal m := ⟨m, rfl, rfl⟩
  format t := Calendar.rfc3339 (t.ns / 1000000000)
  parse b := some (Calendar.unix b * 1000000000)
  parse_format t := by
    have hlo := t.lower
    have hhi := t.upper
    obtain ⟨hyear, hyear'⟩ := Calendar.year_bounds (t := t.ns / 1000000000) (by omega) (by omega)
    rw [Calendar.unix_rfc3339 hyear hyear', Moment.seconds]
  whole d := UInt64.ofNat (d / 1000000000).toNat
  text d := Decimal.digits ((d + 500000000) / 1000000000).toNat

/-- The idle objects that the pools hand out. -/
structure Picks where
  rq : Option Nat := none
  hash : Option Nat := none
  writer : Option Nat := none
  /-- For the message that is read. -/
  msg : Option Nat := none
  /-- For the message that is written. -/
  payload : Option Nat := none

/-- A request, and what the next handler does with it. -/
structure Exchange where
  method : Bytes := ascii "GET"
  requestURI : Bytes
  /-- The header of the request. -/
  header : Header := []
  /-- The header of the response, as it is before. -/
  w : Header := []
  /-- What the next handler does. -/
  calls : List Call
  /-- The time at which the age of an entry is taken. -/
  since : Moment
  /-- The time at which the answer is stored. -/
  now : Moment
  picks : Picks := {}

/-- What the client gets. -/
inductive Reply where
  /-- The next handler has written to `w` itself; `none` if it has panicked. -/
  | passed (answer : Option Received)
  /-- The answer of the next handler was sent. -/
  | relayed (answer : Received)
  /-- An entry of the cache was sent. -/
  | cached (answer : Received)
  /-- `http.Error` with 500. -/
  | failed (text : String)
  | panicked
  deriving DecidableEq

/-- `writeResponse`. -/
def writeResponse (w : Header) (wr : Writer) : Option Received := relay (w.addAll wr.hdrToSend) wr.code wr.data

/-- `payload.Headers[k].Value = value` in a map of pointers: without an entry, the pointer is nil. -/
def setValue (headers : List (Bytes × List Bytes)) (k : Bytes) (value : List Bytes) :
    Option (List (Bytes × List Bytes)) :=
  if (headers.lookup k).isSome then some (setEntry headers (k, value)) else none

/-- The loop over the headers; `none` is a nil pointer. -/
def storeHeaders (hdrToSend : Header) : Option (List (Bytes × List Bytes)) :=
  hdrToSend.foldlM (fun headers e => e.2.foldlM (fun headers _ => setValue headers e.1 e.2) headers) []

/-! ## The middleware -/

/-- The cache plugin: its pools, and the cache. -/
structure Plugin (B : Type) where
  hashPool : Pool UInt64 := .empty
  writersPool : Pool Writer := .empty
  rspPool : Pool Msg := .empty
  rqPool : Pool Req := .empty
  cache : UInt64 → Option B := fun _ => none

section

variable {B : Type} (env : Env B)

/-- `writeCache`, with whether it panics. -/
def writeCache (p : Plugin B) (x : Exchange) (wr : Writer) (id : UInt64) : Bool × Plugin B :=
  if wr.code = 200 then
    let (payload, rspPool) := p.rspPool.get {} x.picks.payload
    let p := { p with rspPool := rspPool.put {} }
    match storeHeaders wr.hdrToSend with
    | none => (true, p)
    | some headers =>
      match env.marshal { payload with
          headers, code := UInt64.ofInt wr.code, data := wr.data, timestamp := env.format x.now } with
      | .error _ => (false, p)
      | .ok data => (false, { p with cache := Function.update p.cache id (some data) })
  else (false, p)

/-- The request is served by the next handler, and its answer sent and maybe stored. -/
def fetch (p : Plugin B) (x : Exchange) (wr : Writer) (id : UInt64) : Reply × Plugin B :=
  let wr := wr.run x.calls
  match writeResponse x.w wr with
  | none => (.panicked, p)
  | some answer =>
    match writeCache env p x wr id with
    | (true, p) => (.panicked, p)
    | (false, p) => (.relayed answer, p)

/-- The message of an entry is sent. -/
def sendCached (x : Exchange) (msg : Msg) (age : Int) : Reply :=
  match relay ((x.w.add (ascii "Age") (env.text age)).addAll msg.headers) msg.code.toInt64.toInt msg.data with
  | none => .panicked
  | some answer => .cached answer

/-- `handleGET`. -/
def handleGET (p : Plugin B) (x : Exchange) (rq : Req) : Reply × Plugin B :=
  let (h, hashPool) := p.hashPool.get fnvOffset x.picks.hash
  let (wr, writersPool) := p.writersPool.get {} x.picks.writer
  -- the deferred `putHash` and `putWriter`
  let p := { p with hashPool := hashPool.put fnvOffset, writersPool := writersPool.put {} }
  let id := hashWrite h x.requestURI
  match p.cache id with
  | none => fetch env p x wr id
  | some out =>
    let (_, rspPool) := p.rspPool.get ({} : Msg) x.picks.msg
    let p := { p with rspPool }
    let (reply, p) :=
      match env.unmarshal out with
      | .error _ => (Reply.failed "cache data unpack", p)
      | .ok msg =>
        match env.parse msg.timestamp with
        | none => (.failed "timestamp parse", p)
        | some parsed =>
          let age := x.since.ns - parsed
          if rq.maxAge.any (· < env.whole age) then
            fetch env { p with cache := Function.update p.cache id none } x wr id
          else (sendCached env x msg age, p)
    -- the deferred `putRsp`
    (reply, { p with rspPool := p.rspPool.put {} })

/-- `Middleware`. -/
def middleware (p : Plugin B) (x : Exchange) : Reply × Plugin B :=
  if x.w.first "Authorization" ≠ [] then (.passed (direct x.w x.calls), p)
  else
    let (rq, rqPool) := p.rqPool.get {} x.picks.rq
    let rq := rq.parseRequestCacheControl (stripNewlines (x.header.first "Cache-Control"))
    -- the deferred `putRq`
    let p := { p with rqPool := rqPool.put rq.reset }
    if rq.noCache then (.passed (direct x.w x.calls), p)
    else if x.method = ascii "GET" then handleGET env p x rq
    else (.passed (direct x.w x.calls), p)

/-- The plugin after a request. -/
def step (p : Plugin B) (x : Exchange) : Plugin B := (middleware env p x).2

end

/-! ## The same without pools -/

namespace Exchange

/-- The key of a request in the cache. -/
def key (x : Exchange) : UInt64 := hashWrite fnvOffset x.requestURI

/-- The directives of a request. -/
def directives (x : Exchange) : Req :=
  Req.parseRequestCacheControl {} (stripNewlines (x.header.first "Cache-Control"))

/-- The request is passed on. -/
def Bypasses (x : Exchange) : Prop :=
  x.w.first "Authorization" ≠ [] ∨ x.directives.noCache = true ∨ x.method ≠ ascii "GET"

instance (x : Exchange) : Decidable x.Bypasses := inferInstanceAs (Decidable (_ ∨ _ ∨ _))

/-- What the next handler has written to the buffering writer. -/
def wrote (x : Exchange) : Writer := Writer.run {} x.calls

/-- `writeCache` gets as far as the headers, and one of them has a value. -/
def Derefs (x : Exchange) : Prop := x.wrote.code = 200 ∧ ¬ x.wrote.hdrToSend.Blank

instance (x : Exchange) : Decidable x.Derefs := inferInstanceAs (Decidable (_ ∧ _))

/-- The reply when the next handler is asked. -/
def relayed (x : Exchange) : Reply :=
  match writeResponse x.w x.wrote with
  | none => .panicked
  | some answer => if x.Derefs then .panicked else .relayed answer

/-- The answer of the next handler gets to the client. -/
def Relays (x : Exchange) : Prop := ValidCode x.wrote.code ∧ ¬ x.Derefs

instance (x : Exchange) : Decidable x.Relays := inferInstanceAs (Decidable (_ ∧ _))

theorem relayed_eq (x : Exchange) : x.relayed =
    if x.Relays then
      .relayed ⟨x.wrote.code, x.w.addAll x.wrote.hdrToSend, sentBody x.wrote.code x.wrote.data⟩
    else .panicked := by
  unfold relayed Relays
  rw [writeResponse, relay_eq]
  by_cases hcode : ValidCode x.wrote.code
  · by_cases hderefs : x.Derefs
    · simp [hcode, hderefs]
    · simp [hcode, hderefs]
  · simp [hcode]

variable {B : Type} (env : Env B)

/-- The message that is stored. -/
def message (x : Exchange) : Msg where
  code := 200
  data := x.wrote.data
  timestamp := env.format x.now

/-- What `writeCache` stores. -/
def payload (x : Exchange) : Option B :=
  if x.wrote.code = 200 ∧ x.wrote.hdrToSend.Blank then (env.marshal (x.message env)).toOption else none

/-- The entry of this time is too old for the request. -/
def Expires (x : Exchange) (parsed : Int) : Prop :=
  x.directives.maxAge.any (· < env.whole (x.since.ns - parsed)) = true

instance (x : Exchange) (parsed : Int) : Decidable (x.Expires env parsed) := inferInstanceAs (Decidable (_ = _))

end Exchange

/-- What a request finds in the cache. -/
inductive Found where
  | absent
  | bad (text : String)
  | stale
  | fresh (msg : Msg) (age : Int)

section

variable {B : Type} (env : Env B)

/-- What the cache has for a request. -/
def find (c : UInt64 → Option B) (x : Exchange) : Found :=
  match c x.key with
  | none => .absent
  | some out =>
    match env.unmarshal out with
    | .error _ => .bad "cache data unpack"
    | .ok msg =>
      match env.parse msg.timestamp with
      | none => .bad "timestamp parse"
      | some parsed => if x.Expires env parsed then .stale else .fresh msg (x.since.ns - parsed)

/-- What the middleware does, said of the cache alone. -/
def serve (c : UInt64 → Option B) (x : Exchange) : Reply × (UInt64 → Option B) :=
  if x.Bypasses then (.passed (direct x.w x.calls), c)
  else
    match find env c x with
    | .absent | .stale => (x.relayed, Function.update c x.key (x.payload env))
    | .bad text => (.failed text, c)
    | .fresh msg age => (sendCached env x msg age, c)

end

/-- The objects in the pools are as new. -/
structure Plugin.Clean {B : Type} (p : Plugin B) : Prop where
  hash : p.hashPool.All (· = fnvOffset)
  writers : p.writersPool.All (· = {})
  rq : p.rqPool.All (· = {})

theorem storeHeaders_eq (h : Header) : storeHeaders h = if h.Blank then some [] else none := by
  unfold storeHeaders
  induction h with
  | nil => rfl
  | cons e h ih =>
    rw [List.foldlM_cons]
    obtain ⟨k, _ | ⟨v, vs⟩⟩ := e
    · -- a header without values is not stored
      have hblank : Header.Blank ((k, []) :: h) ↔ Header.Blank h := by simp [Header.Blank]
      rw [if_congr hblank rfl rfl]
      exact ih
    · have hblank : ¬ Header.Blank ((k, v :: vs) :: h) := fun hb => nomatch hb _ List.mem_cons_self
      rw [if_neg hblank]
      rfl

section

variable {B : Type} (env : Env B)

theorem writeCache_eq (p : Plugin B) (x : Exchange) (id : UInt64) :
    ((writeCache env p x x.wrote id).1 = true ↔ x.Derefs) ∧
      (writeCache env p x x.wrote id).2.cache =
        (x.payload env).elim p.cache fun data => Function.update p.cache id (some data) := by
  unfold writeCache Exchange.Derefs Exchange.payload
  by_cases hcode : x.wrote.code = 200
  · have hmsg : Msg.mk (UInt64.ofInt x.wrote.code) x.wrote.data [] (env.format x.now) = x.message env := by
      rw [hcode]
      rfl
    rw [if_pos hcode, storeHeaders_eq]
    by_cases hblank : x.wrote.hdrToSend.Blank
    · rw [if_pos hblank, if_pos ⟨hcode, hblank⟩]
      dsimp only
      rw [hmsg]
      cases env.marshal (x.message env) <;> exact ⟨iff_of_false Bool.false_ne_true fun h => h.2 hblank, rfl⟩
    · rw [if_neg hblank, if_neg fun h => hblank h.2]
      exact ⟨iff_of_true rfl ⟨hcode, hblank⟩, rfl⟩
  · rw [if_neg hcode, if_neg fun h => hcode h.1]
    exact ⟨iff_of_false Bool.false_ne_true fun h => hcode h.1, rfl⟩

/-- The other pools are not touched. -/
theorem writeCache_clean {p : Plugin B} (hp : p.Clean) (x : Exchange) (wr : Writer) (id : UInt64) :
    (writeCache env p x wr id).2.Clean := by
  obtain ⟨h₁, h₂, h₃⟩ := hp
  unfold writeCache
  split
  · dsimp only
    split
    · exact ⟨h₁, h₂, h₃⟩
    · split <;> exact ⟨h₁, h₂, h₃⟩
  · exact ⟨h₁, h₂, h₃⟩

theorem fetch_clean {p : Plugin B} (hp : p.Clean) (x : Exchange) (wr : Writer) (id : UInt64) :
    (fetch env p x wr id).2.Clean := by
  have hwrite := writeCache_clean env hp x (wr.run x.calls) id
  unfold fetch
  dsimp only
  split
  · exact hp
  · rcases hw : writeCache env p x (wr.run x.calls) id with ⟨_ | _, p'⟩ <;> rw [hw] at hwrite <;> exact hwrite

/-- Without an entry, the answer of the next handler becomes the entry. -/
theorem fetch_eq {p : Plugin B} {x : Exchange} (hgone : p.cache x.key = none) :
    ((fetch env p x {} x.key).1, (fetch env p x {} x.key).2.cache) =
      (x.relayed, Function.update p.cache x.key (x.payload env)) := by
  obtain ⟨hpanics, hcache⟩ := writeCache_eq env p x x.key
  have hwrote : Writer.run {} x.calls = x.wrote := rfl
  have hnone : x.payload env = none → Function.update p.cache x.key (x.payload env) = p.cache := by
    intro hpayload
    rw [hpayload, ← hgone, Function.update_eq_self]
  unfold fetch Exchange.relayed
  rw [hwrote]
  dsimp only
  cases hresponse : writeResponse x.w x.wrote with
  | none =>
    -- a code that panics is not 200
    have hcode : x.wrote.code ≠ 200 := by
      intro hcode
      rw [writeResponse, relay_eq, hcode] at hresponse
      cases hresponse
    rw [hnone (if_neg fun h => hcode h.1)]
  | some answer =>
    dsimp only
    generalize writeCache env p x x.wrote x.key = wrote at hpanics hcache ⊢
    obtain ⟨panics, p'⟩ := wrote
    have hcache' : p'.cache = Function.update p.cache x.key (x.payload env) := by
      refine hcache.trans ?_
      cases hpayload : x.payload env with
      | none =>
        rw [hpayload] at hnone
        exact (hnone rfl).symm
      | some data => rfl
    cases panics with
    | true =>
      rw [if_pos (hpanics.mp rfl)]
      exact congrArg (Prod.mk Reply.panicked) hcache'
    | false =>
      rw [if_neg fun h => Bool.false_ne_true (hpanics.mpr h)]
      exact congrArg (Prod.mk (Reply.relayed answer)) hcache'

theorem handleGET_eq {p : Plugin B} (hp : p.Clean) {x : Exchange} (hx : ¬ x.Bypasses) :
    ((handleGET env p x x.directives).1, (handleGET env p x x.directives).2.cache) = serve env p.cache x ∧
      (handleGET env p x x.directives).2.Clean := by
  obtain ⟨hhash, hwriters, hrq⟩ := hp
  have hgetHash := Pool.get_all hhash rfl x.picks.hash
  have hgetWriter := Pool.get_all hwriters rfl x.picks.writer
  unfold handleGET serve find
  rw [if_neg hx]
  generalize p.hashPool.get fnvOffset x.picks.hash = gotHash at hgetHash ⊢
  generalize p.writersPool.get {} x.picks.writer = gotWriter at hgetWriter ⊢
  obtain ⟨h, hashPool⟩ := gotHash
  obtain ⟨wr, writersPool⟩ := gotWriter
  obtain ⟨rfl, hhash⟩ := hgetHash
  obtain ⟨rfl, hwriters⟩ := hgetWriter
  have hclean : ∀ (rspPool : Pool Msg) (cache : UInt64 → Option B), Plugin.Clean
      { p with hashPool := hashPool.put fnvOffset, writersPool := writersPool.put {}, rspPool, cache } :=
    fun _ _ => ⟨hhash.put rfl, hwriters.put rfl, hrq⟩
  have hkey : hashWrite fnvOffset x.requestURI = x.key := rfl
  dsimp only
  rw [hkey]
  cases hentry : p.cache x.key with
  | none => exact ⟨fetch_eq env hentry, fetch_clean env (hclean _ _) x {} x.key⟩
  | some out =>
    dsimp only
    cases env.unmarshal out with
    | error e => exact ⟨rfl, hclean _ _⟩
    | ok msg =>
      dsimp only
      cases env.parse msg.timestamp with
      | none => exact ⟨rfl, hclean _ _⟩
      | some parsed =>
        dsimp only
        have hany : (x.directives.maxAge.any fun m => decide (m < env.whole (x.since.ns - parsed))) = true ↔
            x.Expires env parsed := Iff.rfl
        by_cases hexpires : x.Expires env parsed
        · -- the entry is deleted before the next handler is asked
          obtain ⟨h₁, h₂, h₃⟩ := fetch_clean env
            (hclean (p.rspPool.get {} x.picks.msg).2 (Function.update p.cache x.key none)) x {} x.key
          rw [if_pos hexpires, if_pos (hany.mpr hexpires)]
          refine ⟨(fetch_eq env (Function.update_self ..)).trans ?_, h₁, h₂, h₃⟩
          rw [Function.update_idem]
        · rw [if_neg hexpires, if_neg (mt hany.mp hexpires)]
          exact ⟨rfl, hclean _ _⟩

/-- The plugin serves a request as `serve` does, and puts its objects back as new. -/
theorem middleware_eq {p : Plugin B} (hp : p.Clean) (x : Exchange) :
    ((middleware env p x).1, (middleware env p x).2.cache) = serve env p.cache x ∧ (middleware env p x).2.Clean := by
  have hget := Pool.get_all hp.rq rfl x.picks.rq
  unfold middleware
  generalize p.rqPool.get {} x.picks.rq = got at hget ⊢
  obtain ⟨rq, rqPool⟩ := got
  obtain ⟨rfl, hrq⟩ := hget
  have hclean : Plugin.Clean { p with rqPool := rqPool.put {} } := ⟨hp.hash, hp.writers, hrq.put rfl⟩
  have hpassed : x.Bypasses → serve env p.cache x = (.passed (direct x.w x.calls), p.cache) := fun h => if_pos h
  split
  case isTrue hauth => exact ⟨(hpassed (.inl hauth)).symm, hp⟩
  dsimp only
  split
  case isTrue hnoCache => exact ⟨(hpassed (.inr (.inl hnoCache))).symm, hclean⟩
  split
  case isFalse hmethod => exact ⟨(hpassed (.inr (.inr hmethod))).symm, hclean⟩
  exact handleGET_eq env hclean (x := x) (by rintro (h | h | h) <;> contradiction)

end

/-! ## Histories -/

section

variable {B : Type} (env : Env B)

/-- The plugin after a history of requests. -/
def after (xs : List Exchange) : Plugin B := Run.exec (step env) {} xs

/-- The content of the cache after a history of requests. -/
def content (xs : List Exchange) : UInt64 → Option B := Run.exec (fun c x => (serve env c x).2) (fun _ => none) xs

/-- The next handler is asked, and its answer takes the place of the entry. -/
def Fetches (c : UInt64 → Option B) (x : Exchange) : Prop :=
  ¬ x.Bypasses ∧ (find env c x = .absent ∨ find env c x = .stale)

/-- Every entry is what a request with `P` stores under its key. -/
def StoredBy (P : Exchange → Prop) (c : UInt64 → Option B) : Prop :=
  ∀ k out, c k = some out → ∃ y, P y ∧ y.key = k ∧ y.payload env = some out

theorem after_eq (xs : List Exchange) : (after env xs).cache = content env xs ∧ (after env xs).Clean := by
  have hrun : ∀ (p : Plugin B), p.Clean →
      (Run.exec (step env) p xs).cache = Run.exec (fun c x => (serve env c x).2) p.cache xs ∧
        (Run.exec (step env) p xs).Clean := by
    induction xs with
    | nil => exact fun p hp => ⟨rfl, hp⟩
    | cons x xs ih =>
      intro p hp
      obtain ⟨hserve, hclean⟩ := middleware_eq env hp x
      obtain ⟨hcache, hclean'⟩ := ih _ hclean
      refine ⟨hcache.trans ?_, hclean'⟩
      rw [Run.exec_cons, ← hserve]
  exact hrun {} ⟨Pool.all_empty _, Pool.all_empty _, Pool.all_empty _⟩

/-- The next request of a history. -/
theorem middleware_after (xs : List Exchange) (x : Exchange) :
    (middleware env (after env xs) x).1 = (serve env (content env xs) x).1 ∧
      (middleware env (after env xs) x).2.cache = (serve env (content env xs) x).2 := by
  obtain ⟨hcache, hclean⟩ := after_eq env xs
  have hserve := (middleware_eq env hclean x).1
  rw [hcache] at hserve
  exact ⟨congrArg Prod.fst hserve, congrArg Prod.snd hserve⟩

/-- A property of every request of a history, by what it means in the state that the request finds. -/
theorem forall_requests_iff {P : List Exchange → Exchange → Prop} {C : Plugin B → Exchange → Prop}
    (h : ∀ pre x, P pre x ↔ C (after env pre) x) (xs : List Exchange) :
    (∀ pre x post, xs = pre ++ x :: post → P pre x) ↔ Run.Along (step env) C {} xs := by
  rw [← Run.Along.forall_iff]
  exact forall_congr' fun pre => forall_congr' fun x => forall_congr' fun post => imp_congr_right fun _ => h pre x

/-- A request that is not passed on and finds no entry. -/
theorem fetches_of_miss {pre : List Exchange} {x : Exchange} (hx : ¬ x.Bypasses)
    (hmiss : (after env pre).cache x.key = none) : Fetches env (content env pre) x := by
  rw [(after_eq env pre).1] at hmiss
  exact ⟨hx, .inl (by rw [find, hmiss])⟩

variable {env}

theorem serve_of_fetches {c : UInt64 → Option B} {x : Exchange} (h : Fetches env c x) :
    serve env c x = (x.relayed, Function.update c x.key (x.payload env)) := by
  rcases h with ⟨hx, hfind | hfind⟩ <;> rw [serve, if_neg hx, hfind]

theorem serve_of_not_fetches {c : UInt64 → Option B} {x : Exchange} (h : ¬ Fetches env c x) :
    (serve env c x).2 = c := by
  unfold serve
  by_cases hx : x.Bypasses
  · rw [if_pos hx]
  · rw [if_neg hx]
    cases hfind : find env c x with
    | absent => exact absurd ⟨hx, .inl hfind⟩ h
    | stale => exact absurd ⟨hx, .inr hfind⟩ h
    | bad text => rfl
    | fresh msg age => rfl

/-- The content is the same afterwards exactly if the next handler is not asked, or its answer gives the entry that
is there. -/
theorem serve_same_iff {c : UInt64 → Option B} {x : Exchange} :
    (serve env c x).2 = c ↔ (Fetches env c x → x.payload env = c x.key) := by
  by_cases h : Fetches env c x
  · rw [serve_of_fetches h]
    exact ⟨fun heq _ => Function.update_eq_iff.mp heq |>.1, fun heq => by rw [heq h, Function.update_eq_self]⟩
  · exact iff_of_true (serve_of_not_fetches h) fun h' => absurd h' h

theorem StoredBy.serve {P : Exchange → Prop} {c : UInt64 → Option B} (hc : StoredBy env P c) {x : Exchange}
    (hx : P x ∨ (serve env c x).2 = c) : StoredBy env P (serve env c x).2 := by
  by_cases hsame : (Cache.serve env c x).2 = c
  · rw [hsame]
    exact hc
  · have hfetches : Fetches env c x := by
      by_contra hnot
      exact hsame (serve_of_not_fetches hnot)
    rw [serve_of_fetches hfetches]
    intro k out hout
    rcases Update.of_update hout with ⟨rfl, hnew⟩ | ⟨-, hold⟩
    · exact ⟨x, hx.resolve_right hsame, rfl, hnew⟩
    · exact hc k out hold

/-- Every entry is what a request of the history has stored. Requests that leave the content as it is need not
count. -/
theorem content_storedBy {P : Exchange → Prop} {xs : List Exchange}
    (h : Run.Along (fun c x => (serve env c x).2) (fun c x => P x ∨ (serve env c x).2 = c) (fun _ => none) xs) :
    StoredBy env P (content env xs) :=
  Run.Along.invariant (I := StoredBy env P) (fun _ _ hc hx => hc.serve hx)
    (fun _ _ h => (Option.some_ne_none _ h.symm).elim) h

theorem content_stored (xs : List Exchange) : StoredBy env (· ∈ xs) (content env xs) :=
  content_storedBy (Run.Along.imp (I := fun _ => True) (D := fun _ x => x ∈ xs) (fun _ _ _ h => ⟨.inl h, trivial⟩)
    trivial (Run.Along.of_forall _ fun _ h => h))

/-- An answer with 200 and no headers is stored. -/
theorem exists_payload (env : Env B) {x : Exchange} (hcode : x.wrote.code = 200)
    (hblank : x.wrote.hdrToSend.Blank) : ∃ out, x.payload env = some out := by
  obtain ⟨out, hmarshal, -⟩ := env.unmarshal_marshal (x.message env)
  refine ⟨out, ?_⟩
  rw [Exchange.payload, if_pos ⟨hcode, hblank⟩, hmarshal]
  rfl

/-- What is stored can be read again. -/
theorem payload_read {x : Exchange} {out : B} (h : x.payload env = some out) :
    x.wrote.code = 200 ∧ x.wrote.hdrToSend.Blank ∧ env.unmarshal out = .ok (x.message env) := by
  unfold Exchange.payload at h
  split at h
  case isFalse => cases h
  case isTrue hstored =>
    obtain ⟨b, hb, hread⟩ := env.unmarshal_marshal (x.message env)
    rw [hb] at h
    cases h
    exact ⟨hstored.1, hstored.2, hread⟩

/-- A request finds what another one has stored. -/
theorem find_of_payload {c : UInt64 → Option B} {x y : Exchange} {out : B} (hc : c x.key = some out)
    (hy : y.payload env = some out) :
    find env c x =
      if x.Expires env y.now.seconds then .stale else .fresh (y.message env) (x.since.ns - y.now.seconds) := by
  obtain ⟨-, -, hread⟩ := payload_read hy
  simp only [find, hc, hread, Exchange.message, env.parse_format]

/-- An entry that is not too old is sent. -/
theorem serve_of_payload {c : UInt64 → Option B} {x y : Exchange} {out : B} (hx : ¬ x.Bypasses)
    (hc : c x.key = some out) (hy : y.payload env = some out) (hfresh : ¬ x.Expires env y.now.seconds) :
    serve env c x =
      (.cached ⟨200, x.w.add (ascii "Age") (env.text (x.since.ns - y.now.seconds)), y.wrote.data⟩, c) := by
  rw [serve, if_neg hx, find_of_payload hc hy, if_neg hfresh]
  simp only [sendCached, relay_eq]
  rfl

end

/-! ## A plain request -/

/-- Noon of 2022-01-31. -/
def noon : Moment := ⟨1643630400000000000, by decide, by decide⟩

/-- A handler that sends `body` with 200 and sets no header. -/
def plain (uri body : Bytes) (header : Header) : Exchange where
  requestURI := uri
  header
  calls := [.writeHeader 200, .write body]
  since := noon
  now := noon

theorem plain_directives (uri body : Bytes) : (plain uri body []).directives = {} := by
  change Req.parseRequestCacheControl {} (stripNewlines (Header.first [] "Cache-Control")) = {}
  decide +kernel

theorem plain_not_bypasses (uri body : Bytes) : ¬ (plain uri body []).Bypasses := by
  rintro (hauth | hnoCache | hmethod)
  · exact hauth rfl
  · rw [plain_directives] at hnoCache
    cases hnoCache
  · exact hmethod rfl

end RoadRunner.Http.Cache
