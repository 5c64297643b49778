import RoadRunner.Websockets.Executor
import RoadRunner.Lib.Orders

/-!
# Websocket sessions

`Plugin.Middleware` of `http/middleware/websockets/plugin.go` from the upgrade on: the connection is put
into the map, the command loop runs, and what is cleaned up after it.

* `session_clean_iff`: when a session that has returned has left nothing behind.
-/

namespace RoadRunner.Websockets

/-- What a session shares with the rest of the plugin, and whether its connection has been closed. -/
structure Plugin (S : Type) where
  connections : Finset Bytes
  storage : S
  closed : Bool := false
  deriving DecidableEq

/-- The connection is not in the map, under no topic, and closed. -/
def Plugin.Clean {S : Type} [Memory.Bst S] (connID : Bytes) (p : Plugin S) : Prop :=
  connID ∉ p.connections ∧ (∀ topic, connID ∉ Memory.Bst.get p.storage topic) ∧ p.closed = true

section

variable {S : Type} [Memory.Bst S] (unmarshal : Bytes → Option Command) (connID : Bytes) (turns : List Turn)

/-- The handler after the upgrade. `order` and `unsub` are the order of the clean-up and how it goes. -/
def Plugin.session (order : List Bytes) (unsub : Bytes → Fault) (p : Plugin S) : Option (Plugin S) :=
  let connections := insert connID p.connections
  match Executor.startCommandLoop unmarshal { connID } p.storage turns with
  | none => none
  | some (some _, _, storage) => some { connections, storage }
  | some (none, e, storage) =>
    some { connections := connections.erase connID, storage := (e.cleanUp storage order unsub).2, closed := true }

/-- `order` is an order of the topics that the loop leaves to the clean-up. -/
def CleanUpOrder (storage : S) (order : List Bytes) : Prop :=
  ∀ e s, Executor.startCommandLoop unmarshal { connID } storage turns = some (none, e, s) →
    Orders.Lists order e.actualTopics

variable {unmarshal connID turns} {order : List Bytes} {unsub : Bytes → Fault} {p p' : Plugin S}

/-- A session that the client ends is clean but for the topics that the clean-up does not reach. -/
theorem clean_of_closes [Memory.LawfulBst S] {pre : List Turn} {t : Turn} {post : List Turn}
    (hturns : turns = pre ++ t :: post)
    (hpre : ∀ u ∈ pre, (Kind.ofTurn unmarshal u).GoesOn) (ht : Kind.ofTurn unmarshal t = .closes)
    (hfresh : ∀ topic, connID ∉ Memory.Bst.get p.storage topic)
    (horder : CleanUpOrder unmarshal connID turns p.storage order)
    (h : p.session unmarshal connID turns order unsub = some p') :
    p'.Clean connID ↔ ∀ topic ∈ replay ∅ (pre.map (Kind.ofTurn unmarshal)), unsub topic ≠ some 0 := by
  obtain ⟨sent, hloop⟩ :=
    Executor.startCommandLoop_closes (e := { connID }) (s := p.storage) hpre ht post
  rw [← hturns] at hloop
  have hlists := horder _ _ hloop
  have hlisted : Listed connID ∅ p.storage := fun topic => by simp [hfresh topic]
  rw [Plugin.session, hloop] at h
  cases h
  have hmem := hlisted.replay (pre.map (Kind.ofTurn unmarshal))
  simp only [Plugin.Clean, Finset.notMem_erase, not_false_eq_true, true_and, and_true,
    Executor.mem_cleanUp, hlists.mem_iff, hmem _]
  grind

/-- A session that fails leaves its connection in the map. -/
theorem not_clean_of_fails {pre : List Turn} {t : Turn} {post : List Turn} (hturns : turns = pre ++ t :: post)
    (hpre : ∀ u ∈ pre, (Kind.ofTurn unmarshal u).GoesOn) (ht : Kind.ofTurn unmarshal t = .fails)
    (h : p.session unmarshal connID turns order unsub = some p') : ¬ p'.Clean connID := by
  obtain ⟨err, e, s, hloop⟩ :=
    Executor.startCommandLoop_fails (e := { connID }) (s := p.storage) hpre ht post
  rw [Plugin.session, hturns, hloop] at h
  cases h
  rintro ⟨hmap, -⟩
  exact hmap (Finset.mem_insert_self _ _)

/-- A session of a new connection that has returned has left nothing behind exactly if the client ended
it, with no read, write, `Subscribe` or `Unsubscribe` failing before, and the clean-up reaches every
topic of its dialogue. -/
theorem session_clean_iff [Memory.LawfulBst S] (hfresh : ∀ topic, connID ∉ Memory.Bst.get p.storage topic)
    (horder : CleanUpOrder unmarshal connID turns p.storage order)
    (h : p.session unmarshal connID turns order unsub = some p') :
    p'.Clean connID ↔ ∃ pre t post, turns = pre ++ t :: post ∧
      (∀ u ∈ pre, (Kind.ofTurn unmarshal u).GoesOn) ∧ Kind.ofTurn unmarshal t = .closes ∧
      ∀ topic ∈ replay ∅ (pre.map (Kind.ofTurn unmarshal)), unsub topic ≠ some 0 := by
  constructor
  · intro hclean
    obtain ⟨r, hloop⟩ : ∃ r, Executor.startCommandLoop unmarshal { connID } p.storage turns = some r := by
      rw [← Option.isSome_iff_exists, ← Option.ne_none_iff_isSome]
      intro hnone
      rw [Plugin.session, hnone] at h
      cases h
    obtain ⟨pre, t, post, hturns, hpre, hend⟩ := Executor.exists_end hloop
    have ht : Kind.ofTurn unmarshal t = .closes := by
      by_contra hne
      have hfails : Kind.ofTurn unmarshal t = .fails := by
        by_contra hne'
        exact hend ⟨hne, hne'⟩
      exact not_clean_of_fails hturns hpre hfails h hclean
    exact ⟨pre, t, post, hturns, hpre, ht, (clean_of_closes hturns hpre ht hfresh horder h).mp hclean⟩
  · rintro ⟨pre, t, post, hturns, hpre, ht, hreach⟩
    exact (clean_of_closes hturns hpre ht hfresh horder h).mpr hreach

end

/-- A message that joins the topic `news`, and the frame that carries it. -/
def joinNews : Bytes := ascii "\x7b\"command\":\"join\",\"topics\":[\"news\"]\x7d"

/-- A text frame that joins `news`. -/
def joinFrame : Input := .frame ⟨true, 1, false, fun _ => 0⟩ (some joinNews)

/-- A close frame. -/
def closeFrame : Input := .frame ⟨true, opClose, false, fun _ => 0⟩ (some [])

/-- A decoder that knows the frame `joinNews`. -/
def unmarshalJoin (data : Bytes) : Option Command :=
  if data = joinNews then some ⟨ascii "join", [ascii "news"]⟩ else none

/-- The client joins a topic and closes the connection. -/
theorem session_join_close :
    Plugin.session unmarshalJoin (ascii "1") [{ input := joinFrame }, { input := closeFrame }]
        [ascii "news"] (fun _ => none) (⟨∅, ∅, false⟩ : Plugin Memory.PairSet) = some ⟨∅, ∅, true⟩ ∧
      (⟨∅, ∅, true⟩ : Plugin Memory.PairSet).Clean (ascii "1") := by
  have hloop : Executor.startCommandLoop unmarshalJoin { connID := ascii "1" } (∅ : Memory.PairSet)
      [{ input := joinFrame }, { input := closeFrame }] =
        some (none, ⟨ascii "1", {ascii "news"}, [⟨"@join", [ascii "news"]⟩]⟩, {(ascii "1", ascii "news")}) := by
    decide +kernel
  have hsession : Plugin.session unmarshalJoin (ascii "1") [{ input := joinFrame }, { input := closeFrame }]
      [ascii "news"] (fun _ => none) (⟨∅, ∅, false⟩ : Plugin Memory.PairSet) = some ⟨∅, ∅, true⟩ := by
    decide +kernel
  refine ⟨hsession, (session_clean_iff (fun _ => Finset.notMem_empty _) ?_ hsession).mpr
    ⟨[{ input := joinFrame }], _, [], rfl, ?_, ?_, ?_⟩⟩
  · intro e s h
    cases hloop.symm.trans h
    decide +kernel
  · simp only [List.mem_singleton, forall_eq]
    decide +kernel
  · decide +kernel
  · exact fun _ _ => nofun

/-- The client joins a topic and its connection breaks: it stays in the map and under the topic, and it
is not closed. -/
theorem session_read_error_leaks :
    Plugin.session unmarshalJoin (ascii "1") [{ input := joinFrame }, { input := .failed }]
        [] (fun _ => none) (⟨∅, ∅, false⟩ : Plugin Memory.PairSet) =
      some ⟨{ascii "1"}, {(ascii "1", ascii "news")}, false⟩ := by
  decide +kernel

end RoadRunner.Websockets
