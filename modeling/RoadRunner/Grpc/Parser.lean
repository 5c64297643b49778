import RoadRunner.Basic
import RoadRunner.Lib.Unfold

/-!
# The proto files of the gRPC plugin (`grpc/parser/parse.go`)

`parser.File` reads a proto file, lists the services it defines and then reads each file it imports
in the same way, relative to one import path. It keeps no set of the files it has read.

The proto library is outside the model: a `Disk` says which file a path opens and what the library
makes of the file's text. So are the limits of the process: each call holds its file open until it
returns, and a file that can be opened once can be opened again. The recursion is bounded by its depth,
and `none` is a call that has not returned within the bound.

* `file_returns_iff_no_import_cycle`: it returns exactly if no import cycle can be reached from the
  file; on a file that imports itself it never does.
-/

namespace RoadRunner.Grpc

/-- `parser.Method`, with the fields of the library's `RPC` element that it copies. -/
structure Method where
  name : Bytes
  streamsRequest : Bool
  requestType : Bytes
  streamsReturns : Bool
  returnsType : Bytes
  deriving DecidableEq

/-- `parser.Service`. -/
structure Service where
  package : Bytes
  name : Bytes
  methods : List Method
  deriving DecidableEq

/-- An element of a service: an `rpc`, or an option or a comment. -/
inductive ServiceElement where
  | rpc (method : Method)
  | other

/-- A top level element of a proto file. -/
inductive Element where
  | package (name : Bytes)
  | service (name : Bytes) (elements : List ServiceElement)
  | imports (filename : Bytes)
  | other

/-- The files that can be opened, and what the proto parser returns for each. -/
structure Disk (F : Type) where
  opens : Bytes → Option F
  parsed : F → Except Err (List Element)

/-- The name of the first `package` element. -/
def parsePackage (proto : List Element) : Bytes :=
  (proto.findSome? fun e => match e with
    | .package name => some name
    | _ => none).getD []

/-- `parseMethods`. -/
def parseMethods (elements : List ServiceElement) : List Method :=
  elements.filterMap fun e => match e with
    | .rpc m => some m
    | .other => none

/-- The services of a file, as the first walk of `parseServices` lists them. -/
def walkServices (proto : List Element) (pkg : Bytes) : List Service :=
  proto.filterMap fun e => match e with
    | .service name elements => some ⟨pkg, name, parseMethods elements⟩
    | _ => none

/-- The file names that the second walk of `parseServices` meets. -/
def walkImports (proto : List Element) : List Bytes :=
  proto.filterMap fun e => match e with
    | .imports filename => some filename
    | _ => none

/-- `services = append(services, im...)`, for an import that was read without an error. -/
def appendImport (services : List Service) : Except Err (List Service) → List Service
  | .ok im => services ++ im
  | .error _ => services

/-- `parseServices`, with `file` for the calls of `File`. -/
def parseServices (file : Bytes → Option (Except Err (List Service))) (proto : List Element)
    (pkg importPath : Bytes) : Option (Except Err (List Service)) :=
  ((walkImports proto).foldlM
    (fun services filename => (file (importPath ++ ascii "/" ++ filename)).map (appendImport services))
    (walkServices proto pkg)).map .ok

section

variable {F : Type} (d : Disk F) (importPath : Bytes)

/-- `parse`, its depth bounded by the first argument; `none` is the nil reader that `File` passes on
when `os.Open` has failed, on which the proto parser fails. -/
def parse : Nat → Option F → Option (Except Err (List Service))
  | _, none => some (.error (.lib "proto.Parser.Parse"))
  | 0, some _ => none
  | n + 1, some f =>
    match d.parsed f with
    | .error e => some (.error e)
    | .ok proto => parseServices (fun path => parse n (d.opens path)) proto (parsePackage proto) importPath

/-- `File`. -/
def file (n : Nat) (path : Bytes) : Option (Except Err (List Service)) :=
  parse d importPath n (d.opens path)

/-! ### The walk over the files -/

/-- The services that a file defines itself. -/
def defined (f : F) : List Service :=
  match d.parsed f with
  | .error _ => []
  | .ok proto => walkServices proto (parsePackage proto)

/-- The files that a file imports and that can be opened, one for each import. -/
def imported (f : F) : List F :=
  match d.parsed f with
  | .error _ => []
  | .ok proto => (walkImports proto).filterMap fun filename => d.opens (importPath ++ ascii "/" ++ filename)

variable {d importPath}

theorem walk_of_error {f : F} {e : Err} (he : d.parsed f = .error e) {n : Nat} {found : List Service}
    (h : Unfold.collect (imported d importPath) (defined d) n f = some found) : found = [] := by
  cases n with
  | zero => cases h
  | succ n =>
    simp only [Unfold.collect, imported, defined, he] at h
    simpa using h.symm

/-- The result that `parse` makes of what the walk from a file gathers. -/
def result (d : Disk F) (f : F) (found : List Service) : Except Err (List Service) :=
  match d.parsed f with
  | .error e => .error e
  | .ok _ => .ok found

theorem appendImport_result {f : F} {n : Nat} {found : List Service}
    (h : Unfold.collect (imported d importPath) (defined d) n f = some found) (services : List Service) :
    appendImport services (result d f found) = services ++ found := by
  unfold result
  cases he : d.parsed f with
  | error e => simp [appendImport, walk_of_error he h]
  | ok proto => rfl

/-- The loop over the imports appends what the walks from the imported files gather. -/
theorem foldlM_imports {n : Nat}
    (ih : ∀ f, parse d importPath n (some f) =
      (Unfold.collect (imported d importPath) (defined d) n f).map (result d f))
    (filenames : List Bytes) (services : List Service) :
    filenames.foldlM (fun services filename =>
        (parse d importPath n (d.opens (importPath ++ ascii "/" ++ filename))).map (appendImport services))
        services =
      ((filenames.filterMap fun filename => d.opens (importPath ++ ascii "/" ++ filename)).mapM
        (Unfold.collect (imported d importPath) (defined d) n)).map fun found => services ++ found.flatten := by
  induction filenames generalizing services with
  | nil => simp
  | cons filename filenames ihl =>
    rw [List.foldlM_cons, List.filterMap_cons]
    cases hopen : d.opens (importPath ++ ascii "/" ++ filename) with
    | none =>
      -- the import cannot be opened: an error, which is ignored
      simp only [parse, Option.map_some, appendImport]
      exact ihl services
    | some f =>
      rw [ih f, List.mapM_cons]
      cases hf : Unfold.collect (imported d importPath) (defined d) n f with
      | none => rfl
      | some found =>
        simp only [Option.map_some, appendImport_result hf]
        refine (ihl (services ++ found)).trans ?_
        cases (filenames.filterMap fun filename => d.opens (importPath ++ ascii "/" ++ filename)).mapM
            (Unfold.collect (imported d importPath) (defined d) n) with
        | none => rfl
        | some rest => simp

/-- `parse` is the walk over the files along their imports. -/
theorem parse_eq (n : Nat) (f : F) :
    parse d importPath n (some f) =
      (Unfold.collect (imported d importPath) (defined d) n f).map (result d f) := by
  induction n generalizing f with
  | zero => rfl
  | succ n ih =>
    rw [parse, Unfold.collect]
    unfold result
    cases he : d.parsed f with
    | error e => simp [imported, he]
    | ok proto =>
      simp only [parseServices, foldlM_imports ih, imported, defined, he, Option.map_map]

theorem parse_returns_iff {f : F} :
    (∃ n r, parse d importPath n (some f) = some r) ↔
      ∃ n found, Unfold.collect (imported d importPath) (defined d) n f = some found := by
  constructor
  · rintro ⟨n, r, h⟩
    rw [parse_eq] at h
    obtain ⟨found, hfound, -⟩ := Option.map_eq_some_iff.mp h
    exact ⟨n, found, hfound⟩
  · rintro ⟨n, found, h⟩
    exact ⟨n, result d f found, by rw [parse_eq, h, Option.map_some]⟩

end

/-- `File` returns exactly if the file cannot be opened or no import cycle can be reached from it. -/
theorem file_returns_iff_no_import_cycle {F : Type} [Finite F] (d : Disk F) (importPath path : Bytes) :
    (∃ n r, file d importPath n path = some r) ↔
      ∀ f, d.opens path = some f →
        ∀ g, Unfold.Reaches (imported d importPath) f g → ¬ Unfold.Cyclic (imported d importPath) g := by
  unfold file
  cases hopen : d.opens path with
  | none =>
    refine iff_of_true ⟨0, .error (.lib "proto.Parser.Parse"), rfl⟩ fun f hf => ?_
    cases hf
  | some f =>
    rw [parse_returns_iff, Unfold.returns_iff_acyclic]
    constructor
    · rintro h _ ⟨⟩
      exact h
    · intro h
      exact h f rfl

/-- `a.proto`, which imports `b.proto`, each with a service of its own. -/
def chain : Disk (Fin 2) where
  opens path := if path = ascii "./a.proto" then some 0 else if path = ascii "./b.proto" then some 1 else none
  parsed f := if f = 0 then .ok [.imports (ascii "b.proto"), .service (ascii "A") []]
    else .ok [.package (ascii "p"), .service (ascii "B") [.rpc ⟨ascii "M", false, [], false, []⟩]]

theorem file_returns_chain :
    (∀ f, chain.opens (ascii "./a.proto") = some f → ∀ g, Unfold.Reaches (imported chain (ascii ".")) f g →
      ¬ Unfold.Cyclic (imported chain (ascii ".")) g) ∧
      ∃ n r, file chain (ascii ".") n (ascii "./a.proto") = some r := by
  have hacyclic : ∀ f, chain.opens (ascii "./a.proto") = some f → ∀ g,
      Unfold.Reaches (imported chain (ascii ".")) f g → ¬ Unfold.Cyclic (imported chain (ascii ".")) g := by
    intro f hf
    obtain rfl : (0 : Fin 2) = f := Option.some.inj hf
    exact Unfold.acyclic_of_collect (defined chain) 2 0 (by decide)
  exact ⟨hacyclic, (file_returns_iff_no_import_cycle chain (ascii ".") (ascii "./a.proto")).mpr hacyclic⟩

/-- One file, `self.proto`, that imports itself. -/
def selfImport : Disk (Fin 1) where
  opens path := if path = ascii "./self.proto" then some 0 else none
  parsed _ := .ok [.imports (ascii "self.proto")]

theorem self_import_never_returns :
    ¬ ∃ n r, file selfImport (ascii ".") n (ascii "./self.proto") = some r := by
  have hroot : selfImport.opens (ascii "./self.proto") = some 0 := rfl
  simp only [file, hroot]
  rw [parse_returns_iff, Unfold.returns_iff_acyclic]
  intro h
  exact h 0 .refl (.single (List.mem_singleton.mpr rfl))

end RoadRunner.Grpc
