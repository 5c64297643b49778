import RoadRunner.Grpc.Php.Ns
import RoadRunner.Lib.Traverse

/-!
# The files of the PHP generator (`protoc-gen-php-grpc/php/generate.go`, `template.go`)

One file is generated for each service of each file of the request. `none` is a panic: a nil pointer in a function that
the template calls is one as well, since `body` panics with the error of the template.

* `body`: the template with its values. `filename`: the path of the namespace.
* `generate_returns_iff`: when there is a response.
-/

namespace RoadRunner.Grpc.Php

/-- A file of the generator's response. -/
structure ResponseFile where
  name : Text
  content : Text
  deriving DecidableEq

/-- A template writes a nil pointer so. -/
def printed (s : Option Text) : Text := s.getD "<nil>".toList

section

variable (u : Unicode)

/-- `filename`. -/
def filename (file : FileDescriptorProto) : Option Text → Option Text
  | none => none
  | some name =>
    let ns :=
      match file.phpNamespace with
      | some custom => custom.map fun c => if c = '\\' then '/' else c
      | none => nameSpace u '/' file.package
    some (ns ++ '/' :: identifier u name "interface".toList ++ ".php".toList)

/-- A method in the template. -/
def methodText (name : Option Text) (input output : Text) : Text :=
  "\n    /**\n    * @param GRPC\\ContextInterface $ctx\n    * @param ".toList ++ input ++
  " $in\n    * @return ".toList ++ output ++
  "\n    *\n    * @throws GRPC\\Exception\\InvokeException\n    */\n    public function ".toList ++ printed name ++
  "(GRPC\\ContextInterface $ctx, ".toList ++ input ++ " $in): ".toList ++ output ++ ";\n".toList

/-- The template. -/
def phpBody (ns : Ns) (file : FileDescriptorProto) (name interface : Text) (methods : List Text) : Text :=
  "<?php\n# Generated by the protocol buffer compiler (spiral/php-grpc). DO NOT EDIT!\n# source: ".toList ++
  printed file.name ++ "\n".toList ++
  (if ns.nameSpace ≠ [] then "\nnamespace ".toList ++ ns.nameSpace ++ ";\n".toList else []) ++
  ns.uses.flatMap (fun n => "\nuse ".toList ++ n ++ ";".toList) ++
  "\n\ninterface ".toList ++ interface ++
  " extends GRPC\\ServiceInterface\n\x7b\n    // GRPC specific service name.\n    public const NAME = \"".toList ++
  printed file.package ++ '.' :: name ++ "\";\n".toList ++ methods.flatten ++ "\x7d\n".toList

/-- `body`. -/
def body (req : CodeGeneratorRequest) (file : FileDescriptorProto) (service : ServiceDescriptorProto) : Option Text :=
  (newNamespace u req file service).bind fun ns =>
  service.name.bind fun name =>
  (service.method.mapM fun m =>
    (ns.resolve u m.inputType).bind fun input => (ns.resolve u m.outputType).map (methodText m.name input)).map
  fun methods => phpBody ns file name (identifier u name "interface".toList) methods

/-- `generate`. -/
def generate (req : CodeGeneratorRequest) (file : FileDescriptorProto) (service : ServiceDescriptorProto) :
    Option ResponseFile :=
  (filename u file service.name).bind fun name => (body u req file service).map fun content => ⟨name, content⟩

/-- `Generate`. -/
def CodeGeneratorRequest.generate (req : CodeGeneratorRequest) : Option (List ResponseFile) :=
  req.protoFile.foldlM
    (fun resp file =>
      file.service.foldlM (fun resp service => (Php.generate u req file service).map fun f => resp ++ [f]) resp) []

end

example :
    filename .ascii { name := none, options := some ⟨some "Test\\CustomNamespace".toList⟩ } (some "service".toList) =
      some "Test/CustomNamespace/ServiceInterface.php".toList := by
  decide +kernel

/-! ## When there is a response -/

/-- The services in the order of their files. -/
def CodeGeneratorRequest.services (req : CodeGeneratorRequest) : List (FileDescriptorProto × ServiceDescriptorProto) :=
  req.protoFile.flatMap fun file => file.service.map fun service => (file, service)

section

variable {u : Unicode} {req : CodeGeneratorRequest}

/-- The loops of `Generate` go through the services. -/
theorem generate_eq_mapM : req.generate u = req.services.mapM fun s => generate u req s.1 s.2 := by
  have hloop : ∀ (files : List FileDescriptorProto) (resp : List ResponseFile),
      files.foldlM
          (fun resp file =>
            file.service.foldlM (fun resp service => (generate u req file service).map fun f => resp ++ [f]) resp)
          resp =
        (files.flatMap fun file => file.service.map fun service => (file, service)).foldlM
          (fun resp s => (generate u req s.1 s.2).map fun f => resp ++ [f]) resp := by
    intro files
    induction files with
    | nil => exact fun _ => rfl
    | cons file files ih =>
      intro resp
      rw [List.foldlM_cons, List.flatMap_cons, List.foldlM_append, List.foldlM_map]
      simp only [ih]
  rw [CodeGeneratorRequest.generate, hloop, Traverse.foldlM_append]
  exact Option.map_id'

theorem isSome_resolve_iff {ns : Ns} {type : Option Text} : (ns.resolve u type).isSome ↔ type.isSome := by
  cases type <;> rfl

/-- All methods are written if the types of all methods are set. -/
theorem isSome_methods_iff {ns : Ns} {service : ServiceDescriptorProto} :
    (service.method.mapM fun m => (ns.resolve u m.inputType).bind fun input =>
        (ns.resolve u m.outputType).map (methodText m.name input)).isSome ↔
      ∀ type ∈ service.types, type.isSome := by
  rw [Traverse.isSome_mapM_iff, ServiceDescriptorProto.types, List.forall_mem_flatMap]
  refine forall₂_congr fun m _ => ?_
  rw [List.forall_mem_cons, List.forall_mem_singleton]
  cases m.inputType with
  | none => exact iff_of_false Bool.false_ne_true fun h => Bool.false_ne_true h.1
  | some input =>
    rw [Ns.resolve, Option.bind_some, Option.isSome_map, isSome_resolve_iff, Option.isSome_some, and_iff_right rfl]

/-- The file of a service is generated: its name and the types of its methods are set, its file has a package, and the
search for the package of each type ends before a file without one. -/
theorem isSome_generate_iff {file : FileDescriptorProto} {service : ServiceDescriptorProto} :
    (generate u req file service).isSome ↔
      service.name.isSome ∧ (∀ type ∈ service.types, type.isSome) ∧
        ∃ pkg, file.package = some pkg ∧ ∀ t, service.Uses t → Finds req pkg t := by
  rw [← newNamespace_ne_none_iff (u := u), generate, body]
  cases service.name with
  | none => exact iff_of_false Bool.false_ne_true fun h => Bool.false_ne_true h.1
  | some name =>
    rw [filename, Option.bind_some, Option.isSome_map, Option.isSome_some, and_iff_right rfl]
    cases newNamespace u req file service with
    | none => exact iff_of_false Bool.false_ne_true fun h => h.2 rfl
    | some ns =>
      rw [Option.bind_some, Option.bind_some, Option.isSome_map, isSome_methods_iff]
      exact (and_iff_left (Option.some_ne_none ns)).symm

end

/-- The names of the services and the types of their methods are set. -/
@[mk_iff]
structure Complete (req : CodeGeneratorRequest) : Prop where
  name : ∀ file ∈ req.protoFile, ∀ service ∈ file.service, service.name.isSome
  types : ∀ file ∈ req.protoFile, ∀ service ∈ file.service, ∀ type ∈ service.types, type.isSome

instance (req : CodeGeneratorRequest) : Decidable (Complete req) := decidable_of_iff' _ (complete_iff req)

/-- **Panics of the generator.** For every request with the names of services and the types of methods set, there is a
response, with the file of each service, exactly if the file of every service has a package, and for each type of
another package no file without a package comes before the first one that sets a namespace for the type's package. -/
theorem generate_returns_iff (u : Unicode) (req : CodeGeneratorRequest) (hreq : Complete req) :
    (∃ resp, req.generate u = some resp ∧
        List.Forall₂ (fun s f => generate u req s.1 s.2 = some f) req.services resp) ↔
      ∀ file ∈ req.protoFile, ∀ service ∈ file.service,
        ∃ pkg, file.package = some pkg ∧
          ∀ t, service.Uses t → packageOf t ≠ '.' :: pkg → Found (packageOf t) req.protoFile := by
  have hresp : (∃ resp, req.generate u = some resp ∧
      List.Forall₂ (fun s f => generate u req s.1 s.2 = some f) req.services resp) ↔ (req.generate u).isSome := by
    rw [generate_eq_mapM, Option.isSome_iff_exists]
    exact exists_congr fun resp => and_iff_left_of_imp Traverse.mapM_eq_some_iff.mp
  rw [hresp, generate_eq_mapM, Traverse.isSome_mapM_iff, CodeGeneratorRequest.services, List.forall_mem_flatMap]
  refine forall₂_congr fun file hfile => ?_
  rw [List.forall_mem_map]
  refine forall₂_congr fun service hservice => ?_
  rw [isSome_generate_iff, and_iff_right (hreq.name file hfile service hservice),
    and_iff_right (hreq.types file hfile service hservice)]
  rfl

/-- Two files with packages. -/
theorem generate_returns_empty :
    let req : CodeGeneratorRequest := ⟨[emptyFile, appFile ".app.Request" ".google.protobuf.Empty"]⟩
    ∃ resp, req.generate .ascii = some resp ∧
      List.Forall₂ (fun s f => generate .ascii req s.1 s.2 = some f) req.services resp := by
  intro req
  have hcomplete : Complete req := by decide +kernel
  refine (generate_returns_iff .ascii req hcomplete).mpr fun file hfile service hservice => ?_
  have hpackages : ∀ f ∈ req.protoFile, f.package ≠ none := by decide +kernel
  obtain ⟨pkg, hpkg⟩ := Option.ne_none_iff_exists'.mp (hpackages file hfile)
  refine ⟨pkg, hpkg, fun t _ _ l f r heq hnone => absurd hnone (hpackages f ?_)⟩
  rw [heq]
  exact List.mem_append_right l List.mem_cons_self

/-- A file without a package, which the service does not use. -/
def legacyFile : FileDescriptorProto := { name := some "legacy.proto".toList, messageType := [⟨some "Old".toList⟩] }

/-- The search for the package of `Empty` meets the file without a package. -/
theorem generate_panics_unrelated :
    let req : CodeGeneratorRequest := ⟨[emptyFile, legacyFile, appFile ".app.Request" ".google.protobuf.Empty"]⟩
    Valid req ∧ Complete req ∧ req.generate .ascii = none := by
  decide +kernel

end RoadRunner.Grpc.Php
