import RoadRunner.Basic
import RoadRunner.Lib.Decimal
import RoadRunner.Lib.Split

/-!
# Errors of gRPC workers (`grpc/proxy/proxy.go`)

A worker that fails sends the text of its error, and `wrapError` makes a status of it. The text has a code, a message
and details, with `|:|` between them; what is not of this form becomes a status of its own or is passed on.

The protobuf library is outside of the model: `unmarshal` is what it makes of the bytes of an `anypb.Any`, for details
of any type.

* `wrapError_joined`: joined parts are read back.
-/

namespace RoadRunner.Grpc

/-- `delimiter`. -/
def delimiter : Bytes := ascii "|:|"

/-- `codes.Internal`. -/
def internal : UInt32 := 13

/-- `spb.Status`. -/
structure Status (A : Type) where
  code : Int32
  message : Bytes
  details : List A := []
  deriving DecidableEq

/-- `Status.Code()`. -/
def Status.grpcCode {A : Type} (s : Status A) : UInt32 := s.code.toUInt32

/-- What `wrapError` returns. -/
inductive Wrapped (A : Type) where
  /-- No error. -/
  | nil
  /-- The error that it was given. -/
  | same
  | status (s : Status A)
  deriving DecidableEq

section

variable {A : Type}

/-- `status.ErrorProto` and `status.Error`: the code `OK` is no error. -/
def errorProto (s : Status A) : Wrapped A := if s.grpcCode = 0 then .nil else .status s

/-- `strconv.ParseUint(s, 10, 32)`. -/
def parseUint32 (s : Bytes) : Option Nat := (Decimal.parse s).bind fun n => if n < 2 ^ 32 then some n else none

/-- The loop over the details. -/
def appendDetails (unmarshal : Bytes → Option A) (details : List A) (messages : List Bytes) : List A :=
  messages.foldl (fun details message =>
    match unmarshal message with
    | some any => details ++ [any]
    | none => details) details

/-- `wrapError` for an error with this text. -/
def wrapError (unmarshal : Bytes → Option A) (text : Bytes) : Wrapped A :=
  if delimiter <:+: text then
    match Split.split delimiter text with
    | first :: message :: messages =>
      match parseUint32 first with
      | none => .same
      | some phpCode =>
        let code := if 0 < phpCode ∧ phpCode < 2 ^ 32 - 1 then UInt32.ofNat phpCode else internal
        errorProto ⟨code.toInt32, message, appendDetails unmarshal [] messages⟩
    | _ => .same
  else errorProto ⟨internal.toInt32, text, []⟩

theorem appendDetails_eq (unmarshal : Bytes → Option A) (details : List A) (messages : List Bytes) :
    appendDetails unmarshal details messages = details ++ messages.filterMap unmarshal := by
  induction messages generalizing details with
  | nil => exact (List.append_nil details).symm
  | cons message messages ih =>
    rw [appendDetails, List.foldl_cons, ← appendDetails, ih, List.filterMap_cons]
    cases unmarshal message with
    | none => rfl
    | some any => rw [List.append_assoc, List.singleton_append]

/-- A place of the delimiter that begins in the part is in it, or begins with its last two bytes. -/
theorem free_delimiter {part : Bytes} (hplace : ¬ delimiter <:+: part) (hend : ¬ ascii "|:" <:+ part) :
    Split.Free delimiter part := by
  rintro ⟨l, r, heq⟩
  have heq : l ++ [124, 58, 124] ++ r = part ++ [124, 58] := heq
  rcases List.eq_nil_or_concat' r with rfl | ⟨r, x, rfl⟩
  · have hlast := congrArg List.getLast? heq
    simp at hlast
  rcases List.eq_nil_or_concat' r with rfl | ⟨r, y, rfl⟩
  · have hsame : l ++ [124, 58] ++ [124, x] = part ++ [124, 58] := by
      rw [← heq]
      simp
    exact hend ⟨l, (List.append_inj' hsame rfl).1⟩
  · have hsame : l ++ [124, 58, 124] ++ r ++ [y, x] = part ++ [124, 58] := by
      rw [← heq]
      simp
    exact hplace ⟨l, r, (List.append_inj' hsame rfl).1⟩

/-- Digits do not have the first byte of the delimiter. -/
theorem free_number {num : Bytes} {n : Nat} (h : Decimal.parse num = some n) : Split.Free delimiter num := by
  have hdigits : 124 ∉ num := by
    intro hmem
    unfold Decimal.parse at h
    split at h
    case isTrue hnum => exact absurd (List.all_eq_true.mp hnum.2 124 hmem) (by decide)
    · cases h
  refine free_delimiter (fun hplace => hdigits ?_) (fun hend => hdigits ?_)
  · exact hplace.subset (by decide)
  · exact hend.subset (by decide)

theorem delimiter_place (num message : Bytes) (details : List Bytes) :
    delimiter <:+: delimiter.intercalate (num :: message :: details) := by
  rw [List.intercalate_cons_cons]
  exact ⟨num, _, rfl⟩

/-- The numbers at the ends have no code of their own. -/
theorem toNat_code {n : Nat} (hn : n < 2 ^ 32) :
    (if 0 < n ∧ n < 2 ^ 32 - 1 then UInt32.ofNat n else internal).toNat =
      if n = 0 ∨ n = 2 ^ 32 - 1 then 13 else n := by
  by_cases hedge : n = 0 ∨ n = 2 ^ 32 - 1
  · rw [if_pos hedge, if_neg (by omega)]
    rfl
  · rw [if_neg hedge, if_pos (by omega), UInt32.toNat_ofNat_of_lt' hn]

/-- The code is never `OK`. -/
theorem code_ne_zero {n : Nat} (hn : n < 2 ^ 32) :
    (if 0 < n ∧ n < 2 ^ 32 - 1 then UInt32.ofNat n else internal) ≠ 0 := by
  intro hzero
  have hcode := toNat_code hn
  rw [hzero] at hcode
  split at hcode
  · cases hcode
  case isFalse hedge => exact hedge (.inl hcode.symm)

/-- **Errors of workers.** For every decimal text of a number below `2 ^ 32`, every message and all details, none of
which has the delimiter or ends with the first two bytes of it: the joined text becomes a status with the number as its
code, or `Internal` for the least and the greatest number, with the message, and with the details that are decoded, in
their order. -/
theorem wrapError_joined (unmarshal : Bytes → Option A) (n : Nat) (hn : n < 2 ^ 32) (num : Bytes)
    (hnum : Decimal.parse num = some n) (message : Bytes) (details : List Bytes)
    (hparts : ∀ part ∈ message :: details, ¬ delimiter <:+: part ∧ ¬ ascii "|:" <:+ part) :
    ∃ s, wrapError unmarshal (delimiter.intercalate (num :: message :: details)) = .status s ∧
      s.grpcCode.toNat = (if n = 0 ∨ n = 2 ^ 32 - 1 then 13 else n) ∧ s.message = message ∧
      s.details = details.filterMap unmarshal := by
  have hfree : ∀ part ∈ num :: message :: details, Split.Free delimiter part := by
    intro part hpart
    rcases List.mem_cons.mp hpart with rfl | hpart
    · exact free_number hnum
    · exact free_delimiter (hparts part hpart).1 (hparts part hpart).2
  have hsplit := Split.split_intercalate (by decide) (List.cons_ne_nil num _) hfree
  have hparse : parseUint32 num = some n := by
    rw [parseUint32, hnum, Option.bind_some, if_pos hn]
  have hcode := toNat_code hn
  have hne := code_ne_zero hn
  rw [wrapError, if_pos (delimiter_place num message details), hsplit]
  dsimp only
  rw [hparse, appendDetails_eq, List.nil_append]
  dsimp only
  generalize (if 0 < n ∧ n < 2 ^ 32 - 1 then UInt32.ofNat n else internal) = code at hcode hne ⊢
  have hgrpc : (⟨code.toInt32, message, details.filterMap unmarshal⟩ : Status A).grpcCode = code :=
    UInt32.toUInt32_toInt32 code
  refine ⟨_, if_neg ?_, ?_, rfl, rfl⟩
  · rw [hgrpc]
    exact hne
  · rw [hgrpc]
    exact hcode

end

/-- A detail that is not decoded is left out. A part may start or end with a byte of the delimiter. -/
theorem wrapError_three_details :
    let unmarshal (s : Bytes) : Option Bytes := if s.head? = some 10 then some s else none
    ∃ s, wrapError unmarshal (ascii "05|:|no|:|:|\n|:|x|:|\n|") = .status s ∧ s.grpcCode.toNat = 5 ∧
      s.message = ascii "no" ∧ s.details = [ascii "\n|"] := by
  intro unmarshal
  exact wrapError_joined unmarshal 5 (by decide) (ascii "05") (by decide) (ascii "no")
    [ascii ":|\n", ascii "x", ascii "\n|"] (by decide)

end RoadRunner.Grpc
