import RoadRunner.Lib.Bucket

/-!
# Values shared by the plugins

Go's byte slices and strings are lists of bytes, `int64` and `uint64` are Lean's types of the same
width, and an `error` result is an `Option Err`, with `none` for `nil`.
-/

namespace RoadRunner

/-- A byte slice or a string. -/
abbrev Bytes := List UInt8

-- The instances that a search finds have a proof inside, which every module would make anew. With one name for each,
-- a definition that tests for a byte or a text unfolds to the same term in all modules.

/-- Whether a slice has a byte. -/
instance Bytes.decidableMem (x : UInt8) (b : Bytes) : Decidable (x ∈ b) := decidable_of_iff _ List.elem_iff

/-- Whether a text is in a list. -/
instance Bytes.decidableMemList (x : Bytes) (l : List Bytes) : Decidable (x ∈ l) := decidable_of_iff _ List.elem_iff

/-- The bytes of an ASCII text. -/
def ascii (s : String) : Bytes := s.toList.map fun c => c.toNat.toUInt8

/-- The text that an error shows for a string. -/
def Bytes.text (b : Bytes) : String := String.ofList (b.map fun x => Char.ofNat x.toNat)

/-- `map[string][]string`; `none` is the nil map. -/
abbrev Headers := Option (List (Bytes × List Bytes))

/-- A map with one more entry, or with a new value for its key. -/
def setEntry {V : Type} (m : List (Bytes × V)) (e : Bytes × V) : List (Bytes × V) :=
  m.filter (fun x => x.1 ≠ e.1) ++ [e]

/-- An error. -/
inductive Err where
  /-- The error that a library call returned. -/
  | lib (call : String)
  /-- `errors.Str`. -/
  | str (text : String)
  /-- `errors.Errorf` of one error. -/
  | errorf (format : String) (arg : Err)
  /-- `errors.Errorf` of two errors. -/
  | errorf₂ (format : String) (arg₁ arg₂ : Err)
  /-- `errors.E(op, err)`. -/
  | op (op : String) (err : Err)
  deriving DecidableEq, Repr

/-- `jobs.Options`: how a pushed job is to be handled. -/
structure JobOptions where
  priority : Int64
  pipeline : Bytes
  delay : Int64
  deriving DecidableEq

/-- `jobs.Job`: a job as a client pushes it. -/
structure Job where
  job : Bytes
  ident : Bytes
  payload : Bytes
  headers : Headers
  options : JobOptions
  deriving DecidableEq

/-- A job with nothing but an id and a delay. -/
def plainJob (ident : Bytes) (delay : Int64) : Job :=
  ⟨[], ident, [], none, ⟨0, [], delay⟩⟩

end RoadRunner
