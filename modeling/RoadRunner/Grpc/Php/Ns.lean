import RoadRunner.Grpc.Php.Keywords
import RoadRunner.Lib.Bucket
import RoadRunner.Lib.Cut

/-!
# Namespaces of the PHP generator (`protoc-gen-php-grpc/php/ns.go`)

A service is generated into the namespace of its package. The messages of its methods are named in it: those of the same
package by their class, and those of another one by the last part of the namespace that is imported for it.

The optional fields of a descriptor are pointers, and `none` as a result is a panic.

* `CodeGeneratorRequest`: the descriptors, with the fields that the generator reads, and the messages of a file.
  `Valid`: what the compiler sends.
* `customNamespace`: the loop of `importMessage` over all files. `customNamespace_ne_none_iff`: when it does not panic.
* `newNamespace_eq_some`: what is imported for a service.
* `resolve_root`, `resolve_imported`: the name of a message.
* `class_unreserved_iff`: which names of classes are no keywords.
-/

namespace RoadRunner.Grpc.Php

/-! ## Descriptors -/

/-- The options of a file that are read. -/
structure FileOptions where
  phpNamespace : Option Text := none

/-- The descriptor of a message. -/
structure DescriptorProto where
  name : Option Text

/-- The descriptor of a method. -/
structure MethodDescriptorProto where
  name : Option Text
  inputType : Option Text
  outputType : Option Text

/-- The descriptor of a service. -/
structure ServiceDescriptorProto where
  name : Option Text
  method : List MethodDescriptorProto

/-- The descriptor of a file. -/
structure FileDescriptorProto where
  name : Option Text
  package : Option Text := none
  options : Option FileOptions := none
  messageType : List DescriptorProto := []
  service : List ServiceDescriptorProto := []

/-- A request to the generator. -/
structure CodeGeneratorRequest where
  protoFile : List FileDescriptorProto

/-- `f.Options.PhpNamespace`, if there are options. -/
def FileDescriptorProto.phpNamespace (f : FileDescriptorProto) : Option Text := f.options.bind (·.phpNamespace)

/-- The types of the methods, in the order in which they are imported. -/
def ServiceDescriptorProto.types (s : ServiceDescriptorProto) : List (Option Text) :=
  s.method.flatMap fun m => [m.inputType, m.outputType]

/-- A method has the type as its input or output. -/
def ServiceDescriptorProto.Uses (s : ServiceDescriptorProto) (t : Text) : Prop := some t ∈ s.types

instance (s : ServiceDescriptorProto) (t : Text) : Decidable (s.Uses t) := inferInstanceAs (Decidable (_ ∈ _))

/-- An identifier of the protocol buffer language. -/
def IsIdent : Text → Prop
  | [] => False
  | c :: s => (c.isAlpha ∨ c = '_') ∧ ∀ d ∈ s, d.isAlphanum ∨ d = '_'

instance : DecidablePred IsIdent
  | [] => inferInstanceAs (Decidable False)
  | _ :: s => @instDecidableAnd _ _ inferInstance (List.decidableBAll _ s)

/-- Identifiers with dots between them. -/
def IsFullName (name : Text) : Prop := ∀ part ∈ name.splitOn '.', IsIdent part

instance (name : Text) : Decidable (IsFullName name) := List.decidableBAll IsIdent (name.splitOn '.')

/-- The descriptors that the compiler sends: all names and types are set, packages may be missing. -/
@[mk_iff]
structure Valid (req : CodeGeneratorRequest) : Prop where
  package : ∀ f ∈ req.protoFile, ∀ p ∈ f.package, IsFullName p
  message : ∀ f ∈ req.protoFile, ∀ m ∈ f.messageType, ∃ n ∈ m.name, IsIdent n
  service : ∀ f ∈ req.protoFile, ∀ s ∈ f.service, ∃ n ∈ s.name, IsIdent n
  method : ∀ f ∈ req.protoFile, ∀ s ∈ f.service, ∀ m ∈ s.method, ∃ n ∈ m.name, IsIdent n
  types : ∀ f ∈ req.protoFile, ∀ s ∈ f.service, ∀ type ∈ s.types, ∃ t ∈ type, t.head? = some '.' ∧ IsFullName t.tail

instance (req : CodeGeneratorRequest) : Decidable (Valid req) := decidable_of_iff' _ (valid_iff req)

/-! ## The namespace of a service -/

/-- `ns`. -/
structure Ns where
  package : Text
  nameSpace : Text
  /-- A template visits a map in the order of its keys. -/
  imports : Bucket Text Text

/-- All chunks of the name of a type but the last one. -/
def packageOf (msg : Text) : Text := ['.'].intercalate (msg.splitOn '.').dropLast

/-- The last chunk. -/
def messageOf (msg : Text) : Text := (msg.splitOn '.').getLast?.getD []

/-- The loop of `importMessage`: the namespace that a file of the package sets. -/
def customNamespace (pkg : Text) : List FileDescriptorProto → Option (Option Text)
  | [] => some none
  | f :: files =>
    match f.package with
    | none => none
    | some p =>
      if pkg = '.' :: p then
        match f.phpNamespace with
        | some custom => some (some custom)
        | none => customNamespace pkg files
      else customNamespace pkg files

/-- The namespaces of the `use` lines. -/
def Ns.uses (ns : Ns) : List Text := "Spiral\\RoadRunner\\GRPC".toList :: ns.imports.entries.map Prod.snd

section

variable (u : Unicode) (req : CodeGeneratorRequest)

/-- `importMessage`. A nil pointer is skipped. -/
def importMessage (ns : Ns) : Option Text → Option Ns
  | none => some ns
  | some msg =>
    let pkg := packageOf msg
    let result := path u '\\' (msg.splitOn '.').dropLast
    if pkg = '.' :: ns.package then some ns
    else
      match customNamespace pkg req.protoFile with
      | none => none
      | some custom => some { ns with imports := ns.imports.put pkg (custom.getD result) }

/-- `newNamespace`, `none` if it panics. -/
def newNamespace (file : FileDescriptorProto) (service : ServiceDescriptorProto) : Option Ns :=
  match file.package with
  | none => none
  | some pkg =>
    service.method.foldlM
      (fun ns m => (importMessage u req ns m.inputType).bind fun ns => importMessage u req ns m.outputType)
      ⟨pkg, file.phpNamespace.getD (nameSpace u '\\' (some pkg)), .empty⟩

/-- The last part of a namespace or of the name of a class. -/
def lastSegment (s : Text) : Text := (s.splitOn '\\').getLast?.getD []

/-- `resolve`. -/
def Ns.resolve (ns : Ns) : Option Text → Option Text
  | none => none
  | some msg =>
    let pkg := packageOf msg
    let ident := identifier u (messageOf msg) []
    some <|
      if pkg = '.' :: ns.package then ident
      else
        match ns.imports.get pkg with
        | some imported => lastSegment imported ++ '\\' :: resolveReserved u ident pkg
        | none => '\\' :: Php.nameSpace u '\\' (some msg)

/-! ## What is imported -/

/-- The namespace of a package that is imported. -/
def importNamespace (pkg : Text) : Text :=
  ((customNamespace pkg req.protoFile).getD none).getD (nameSpace u '\\' (some pkg))

end

/-- Every file without a package comes after one with the package and a namespace of its own. -/
def Found (pkg : Text) (files : List FileDescriptorProto) : Prop :=
  ∀ l f r, files = l ++ f :: r → f.package = none →
    ∃ g ∈ l, (∃ p, g.package = some p ∧ pkg = '.' :: p) ∧ g.phpNamespace ≠ none

/-- The loop ends at a file with a namespace for the package, and goes on after another one with a package. -/
theorem found_cons {pkg : Text} {f : FileDescriptorProto} {files : List FileDescriptorProto} {p : Text}
    (hp : f.package = some p) :
    Found pkg (f :: files) ↔ pkg = '.' :: p ∧ f.phpNamespace ≠ none ∨ Found pkg files := by
  constructor
  · intro h
    by_cases hf : pkg = '.' :: p ∧ f.phpNamespace ≠ none
    · exact .inl hf
    refine .inr fun l g r heq hg => ?_
    obtain ⟨g', hmem, ⟨p', hp', hpkg⟩, hcustom⟩ := h (f :: l) g r (congrArg (f :: ·) heq) hg
    rcases List.mem_cons.mp hmem with rfl | hmem
    · rw [hp] at hp'
      cases hp'
      exact absurd ⟨hpkg, hcustom⟩ hf
    · exact ⟨g', hmem, ⟨p', hp', hpkg⟩, hcustom⟩
  · intro h l g r heq hg
    cases l with
    | nil =>
      obtain ⟨rfl, -⟩ := List.cons.inj heq
      rw [hp] at hg
      cases hg
    | cons f' l =>
      obtain ⟨rfl, hrest⟩ := List.cons.inj heq
      rcases h with ⟨hpkg, hcustom⟩ | hfound
      · exact ⟨f, List.mem_cons_self, ⟨p, hp, hpkg⟩, hcustom⟩
      · obtain ⟨g', hmem, hg'⟩ := hfound l g r hrest hg
        exact ⟨g', List.mem_cons_of_mem f hmem, hg'⟩

/-- The loop over the files does not panic. -/
theorem customNamespace_ne_none_iff {pkg : Text} {files : List FileDescriptorProto} :
    customNamespace pkg files ≠ none ↔ Found pkg files := by
  induction files with
  | nil =>
    refine iff_of_true (Option.some_ne_none _) fun l f r heq => ?_
    cases l <;> cases heq
  | cons f files ih =>
    rw [customNamespace]
    cases hp : f.package with
    | none =>
      refine iff_of_false (fun h => h rfl) fun h => ?_
      obtain ⟨g, hg, -⟩ := h [] f files rfl hp
      cases hg
    | some p =>
      rw [found_cons hp, ← ih]
      dsimp only
      by_cases hpkg : pkg = '.' :: p
      · rw [if_pos hpkg]
        cases hcustom : f.phpNamespace with
        | none => simp
        | some custom => simp [hpkg]
      · rw [if_neg hpkg]
        simp [hpkg]

section

variable {u : Unicode} {req : CodeGeneratorRequest}

/-- Without a namespace of its own, a package is imported under the name that `namespace` gives it. -/
theorem path_dropLast (msg : Text) :
    path u '\\' (msg.splitOn '.').dropLast = nameSpace u '\\' (some (packageOf msg)) := by
  rw [nameSpace, packageOf]
  by_cases h : (msg.splitOn '.').dropLast = []
  · rw [h]
    rfl
  · rw [List.splitOn_intercalate '.' (fun part hpart => ?_) h]
    exact Cut.not_mem_of_mem_splitOn (List.mem_of_mem_dropLast hpart)

/-- A message is imported without a panic. -/
def Finds (req : CodeGeneratorRequest) (pkg msg : Text) : Prop :=
  packageOf msg ≠ '.' :: pkg → Found (packageOf msg) req.protoFile

/-- The namespace after the import of a message. -/
def Ns.add (u : Unicode) (req : CodeGeneratorRequest) (ns : Ns) : Option Text → Ns
  | none => ns
  | some msg =>
    if packageOf msg = '.' :: ns.package then ns
    else { ns with imports := ns.imports.put (packageOf msg) (importNamespace u req (packageOf msg)) }

@[simp] theorem Ns.package_add (ns : Ns) (msg : Option Text) : (ns.add u req msg).package = ns.package := by
  cases msg with
  | none => rfl
  | some msg =>
    rw [Ns.add]
    split <;> rfl

theorem importMessage_eq (ns : Ns) (msg : Option Text) :
    ((∀ t, msg = some t → Finds req ns.package t) → importMessage u req ns msg = some (ns.add u req msg)) ∧
      (importMessage u req ns msg ≠ none → ∀ t, msg = some t → Finds req ns.package t) := by
  cases msg with
  | none => exact ⟨fun _ => rfl, fun _ t ht => by cases ht⟩
  | some msg =>
    rw [importMessage, Ns.add, path_dropLast]
    by_cases hroot : packageOf msg = '.' :: ns.package
    · rw [if_pos hroot, if_pos hroot]
      refine ⟨fun _ => rfl, fun _ t ht hne => ?_⟩
      cases ht
      exact absurd hroot hne
    · rw [if_neg hroot, if_neg hroot]
      constructor
      · intro h
        obtain ⟨custom, hcustom⟩ := Option.ne_none_iff_exists'.mp (customNamespace_ne_none_iff.mpr (h msg rfl hroot))
        rw [importNamespace, hcustom]
        rfl
      · rintro h t ht -
        cases ht
        refine customNamespace_ne_none_iff.mp fun hnone => h ?_
        rw [hnone]

theorem foldlM_importMessage (ts : List (Option Text)) (ns : Ns) :
    ((∀ t, some t ∈ ts → Finds req ns.package t) →
        ts.foldlM (importMessage u req) ns = some (ts.foldl (Ns.add u req) ns)) ∧
      (ts.foldlM (importMessage u req) ns ≠ none → ∀ t, some t ∈ ts → Finds req ns.package t) := by
  induction ts generalizing ns with
  | nil => exact ⟨fun _ => rfl, fun _ t ht => by cases ht⟩
  | cons msg ts ih =>
    rw [List.foldlM_cons]
    constructor
    · intro h
      rw [(importMessage_eq ns msg).1 fun t ht => h t (ht ▸ List.mem_cons_self)]
      refine (ih (ns.add u req msg)).1 fun t ht => ?_
      rw [Ns.package_add]
      exact h t (List.mem_cons_of_mem msg ht)
    · intro h
      have hmsg : importMessage u req ns msg ≠ none := by
        intro hnone
        rw [hnone] at h
        exact h rfl
      have hfinds := (importMessage_eq ns msg).2 hmsg
      rw [(importMessage_eq ns msg).1 hfinds] at h
      have hrest := (ih (ns.add u req msg)).2 h
      rw [Ns.package_add] at hrest
      intro t ht
      rcases List.mem_cons.mp ht with heq | ht
      · exact hfinds t heq.symm
      · exact hrest t ht

/-- The loop over the methods goes through their types. -/
theorem foldlM_method (methods : List MethodDescriptorProto) (ns : Ns) :
    methods.foldlM
        (fun ns m => (importMessage u req ns m.inputType).bind fun ns => importMessage u req ns m.outputType) ns =
      (methods.flatMap fun m => [m.inputType, m.outputType]).foldlM (importMessage u req) ns := by
  induction methods generalizing ns with
  | nil => rfl
  | cons m methods ih =>
    rw [List.foldlM_cons, List.flatMap_cons, List.foldlM_append]
    simp only [List.foldlM_cons, List.foldlM_nil, ih]
    cases importMessage u req ns m.inputType with
    | none => rfl
    | some ns => simp

/-- The packages of the types that were visited are imported, the own one apart. -/
structure Imports (u : Unicode) (req : CodeGeneratorRequest) (pkg : Text) (ts : List (Option Text)) (ns : Ns) :
    Prop where
  package : ns.package = pkg
  mem : ∀ p n, (p, n) ∈ ns.imports ↔
    (∃ t, some t ∈ ts ∧ packageOf t = p) ∧ p ≠ '.' :: pkg ∧ n = importNamespace u req p

theorem Imports.start (pkg n : Text) : Imports u req pkg [] ⟨pkg, n, .empty⟩ where
  package := rfl
  mem p n := by
    refine iff_of_false List.not_mem_nil ?_
    rintro ⟨⟨t, ht, -⟩, -⟩
    cases ht

theorem Imports.add {pkg : Text} {ts : List (Option Text)} {ns : Ns} (h : Imports u req pkg ts ns) (msg : Option Text) :
    Imports u req pkg (ts ++ [msg]) (ns.add u req msg) where
  package := (ns.package_add msg).trans h.package
  mem p n := by
    cases msg with
    | none =>
      rw [Ns.add, h.mem]
      simp
    | some msg =>
      rw [Ns.add, h.package]
      by_cases hroot : packageOf msg = '.' :: pkg
      · rw [if_pos hroot, h.mem]
        constructor
        · rintro ⟨⟨t, ht, hp⟩, hrest⟩
          exact ⟨⟨t, List.mem_append_left _ ht, hp⟩, hrest⟩
        · rintro ⟨⟨t, ht, hp⟩, hne, hn⟩
          rcases List.mem_append.mp ht with ht | ht
          · exact ⟨⟨t, ht, hp⟩, hne, hn⟩
          · cases List.mem_singleton.mp ht
            exact absurd (hp.symm.trans hroot) hne
      · rw [if_neg hroot, Bucket.mem_put, Prod.mk.injEq, h.mem]
        constructor
        · rintro (⟨rfl, rfl⟩ | ⟨-, ⟨t, ht, hp⟩, hrest⟩)
          · exact ⟨⟨msg, List.mem_append_right ts List.mem_cons_self, rfl⟩, hroot, rfl⟩
          · exact ⟨⟨t, List.mem_append_left _ ht, hp⟩, hrest⟩
        · rintro ⟨⟨t, ht, hp⟩, hne, hn⟩
          by_cases heq : p = packageOf msg
          · exact .inl ⟨heq, by rw [hn, heq]⟩
          · rcases List.mem_append.mp ht with ht | ht
            · exact .inr ⟨heq, ⟨t, ht, hp⟩, hne, hn⟩
            · cases List.mem_singleton.mp ht
              exact absurd hp.symm heq

theorem Imports.foldl {pkg : Text} {done : List (Option Text)} {ns : Ns} (h : Imports u req pkg done ns)
    (ts : List (Option Text)) : Imports u req pkg (done ++ ts) (ts.foldl (Ns.add u req) ns) := by
  induction ts generalizing done ns with
  | nil => rwa [List.append_nil]
  | cons msg ts ih =>
    have hrest := ih (h.add msg)
    rwa [List.append_assoc, List.singleton_append] at hrest

theorem newNamespace_ne_none_iff {file : FileDescriptorProto} {service : ServiceDescriptorProto} :
    newNamespace u req file service ≠ none ↔
      ∃ pkg, file.package = some pkg ∧ ∀ t, service.Uses t → Finds req pkg t := by
  rw [newNamespace]
  cases hpkg : file.package with
  | none => exact iff_of_false (fun h => h rfl) (by rintro ⟨pkg, h, -⟩; cases h)
  | some pkg =>
    dsimp only
    rw [foldlM_method]
    constructor
    · intro h
      exact ⟨pkg, rfl, (foldlM_importMessage service.types _).2 h⟩
    · rintro ⟨p, hp, hfinds⟩
      cases hp
      rw [← ServiceDescriptorProto.types, (foldlM_importMessage service.types ⟨pkg, _, _⟩).1 hfinds]
      exact Option.some_ne_none _

theorem newNamespace_eq_some {file : FileDescriptorProto} {service : ServiceDescriptorProto} {ns : Ns}
    (h : newNamespace u req file service = some ns) :
    ∃ pkg, file.package = some pkg ∧ Imports u req pkg service.types ns := by
  obtain ⟨pkg, hpkg, hfinds⟩ := newNamespace_ne_none_iff.mp (h ▸ Option.some_ne_none ns)
  refine ⟨pkg, hpkg, ?_⟩
  rw [newNamespace, hpkg] at h
  dsimp only at h
  rw [foldlM_method, ← ServiceDescriptorProto.types, (foldlM_importMessage service.types ⟨pkg, _, _⟩).1 hfinds,
    Option.some_inj] at h
  rw [← h]
  exact (Imports.start pkg _).foldl service.types

/-- A package other than the own one, of a type that a method has. -/
def ServiceDescriptorProto.Needs (service : ServiceDescriptorProto) (own pkg : Text) : Prop :=
  pkg ≠ '.' :: own ∧ ∃ t, service.Uses t ∧ packageOf t = pkg

theorem mem_imports {file : FileDescriptorProto} {service : ServiceDescriptorProto} {ns : Ns}
    (h : newNamespace u req file service = some ns) {p n : Text} :
    (p, n) ∈ ns.imports ↔ service.Needs ns.package p ∧ n = importNamespace u req p := by
  obtain ⟨pkg, -, himports⟩ := newNamespace_eq_some h
  rw [himports.mem, ← himports.package, ServiceDescriptorProto.Needs]
  exact ⟨fun ⟨ht, hne, hn⟩ => ⟨⟨hne, ht⟩, hn⟩, fun ⟨⟨hne, ht⟩, hn⟩ => ⟨ht, hne, hn⟩⟩

/-! ## Names of messages -/

/-- The name of a message as that of a class. -/
def className (u : Unicode) (msg : Text) : Text := identifier u (messageOf msg) []

theorem resolve_root {ns : Ns} {t : Text} (h : packageOf t = '.' :: ns.package) :
    ns.resolve u (some t) = some (className u t) :=
  congrArg some (if_pos h)

/-- The types of the methods never get a name from the last exit of `resolve`. -/
theorem resolve_imported {file : FileDescriptorProto} {service : ServiceDescriptorProto} {ns : Ns}
    (hns : newNamespace u req file service = some ns) {t : Text} (ht : service.Uses t)
    (h : packageOf t ≠ '.' :: ns.package) :
    ns.resolve u (some t) =
      some (lastSegment (importNamespace u req (packageOf t)) ++
        '\\' :: resolveReserved u (className u t) (packageOf t)) := by
  have hget : ns.imports.get (packageOf t) = some (importNamespace u req (packageOf t)) :=
    Bucket.get_eq_some.mpr ((mem_imports hns).mpr ⟨⟨h, t, ht, rfl⟩, rfl⟩)
  rw [Ns.resolve, if_neg h, hget]
  rfl

theorem backslash_not_mem_lastSegment (s : Text) : '\\' ∉ lastSegment s := by
  rw [lastSegment]
  cases h : (s.splitOn '\\').getLast? with
  | none => exact List.not_mem_nil
  | some part => exact Cut.not_mem_of_mem_splitOn (List.mem_of_getLast? h)

theorem lastSegment_append {l : Text} (h : '\\' ∉ l) (r : Text) : lastSegment (l ++ '\\' :: r) = lastSegment r := by
  rw [lastSegment, lastSegment, List.splitOn_append_cons_self_of_not_mem h, List.getLast?_cons]
  cases hr : (r.splitOn '\\').getLast? with
  | none => exact absurd (List.getLast?_eq_none_iff.mp hr) (List.splitOn_ne_nil '\\' r)
  | some part => rfl

theorem lastSegment_of_not_mem {s : Text} (h : '\\' ∉ s) : lastSegment s = s := by
  rw [lastSegment, List.splitOn_eq_singleton h]
  rfl

/-- The last part of a name that may get letters in front of it. -/
theorem reserved_lastSegment_iff {ident pkg : Text} :
    ¬ Reserved (lastSegment (resolveReserved u ident pkg)) ↔ (Reserved (lastSegment ident) → '\\' ∉ ident) := by
  by_cases hmem : '\\' ∈ ident
  · have hnot : isReserved u (ident.map u.toLower) ≠ true := fun hres => backslash_not_mem u hres hmem
    rw [resolveReserved, if_neg hnot]
    exact ⟨fun h hres => absurd hres h, fun h hres => h hres hmem⟩
  · have hmark : '\\' ∉ reservedMark pkg := by
      unfold reservedMark
      split <;> decide
    have hresolve : '\\' ∉ resolveReserved u ident pkg := by
      rw [resolveReserved]
      split
      · exact List.not_mem_append hmark hmem
      · exact hmem
    rw [lastSegment_of_not_mem hresolve]
    exact iff_of_true (not_reserved_resolveReserved u pkg) fun _ => hmem

/-- **Reserved names of classes.** For every request and service that does not make the generator panic, the class in
the name of a type is no keyword exactly if this holds already for its identifier, or the type is of another package
than the service and has no backslash in it. -/
theorem class_unreserved_iff (u : Unicode) (req : CodeGeneratorRequest) (file : FileDescriptorProto)
    (service : ServiceDescriptorProto) (ns : Ns) (hns : newNamespace u req file service = some ns) (t : Text)
    (ht : service.Uses t) :
    ∃ name, ns.resolve u (some t) = some name ∧
      (¬ Reserved (lastSegment name) ↔
        (Reserved (lastSegment (className u t)) → packageOf t ≠ '.' :: ns.package ∧ '\\' ∉ className u t)) := by
  by_cases hroot : packageOf t = '.' :: ns.package
  · refine ⟨_, resolve_root hroot, ?_⟩
    exact ⟨fun h hres => absurd hres h, fun h hres => (h hres).1 hroot⟩
  · refine ⟨_, resolve_imported hns ht hroot, ?_⟩
    rw [lastSegment_append (backslash_not_mem_lastSegment _), reserved_lastSegment_iff]
    exact ⟨fun h hres => ⟨hroot, h hres⟩, fun h hres => (h hres).2⟩

end

/-- A service of the package `app` with one method. -/
def appService (input output : String) : ServiceDescriptorProto :=
  ⟨some "Service".toList, [⟨some "Call".toList, some input.toList, some output.toList⟩]⟩

/-- A file with two messages and a service. -/
def appFile (input output : String) : FileDescriptorProto :=
  { name := some "app.proto".toList, package := some "app".toList,
    messageType := [⟨some "Request".toList⟩, ⟨some "Class".toList⟩], service := [appService input output] }

/-- The file of `google.protobuf.Empty`. -/
def emptyFile : FileDescriptorProto :=
  { name := some "empty.proto".toList, package := some "google.protobuf".toList,
    messageType := [⟨some "Empty".toList⟩] }

/-- The message of another package is `Protobuf\GPBEmpty`. -/
theorem empty_unreserved :
    let file := appFile ".app.Class" ".google.protobuf.Empty"
    let service := appService ".app.Class" ".google.protobuf.Empty"
    ∃ ns, newNamespace .ascii ⟨[emptyFile, file]⟩ file service = some ns ∧
      ∃ name, ns.resolve .ascii (some ".google.protobuf.Empty".toList) = some name ∧ ¬ Reserved (lastSegment name) := by
  intro file service
  have hsome : (newNamespace .ascii ⟨[emptyFile, file]⟩ file service).isSome = true := by decide +kernel
  obtain ⟨ns, hns⟩ := Option.isSome_iff_exists.mp hsome
  obtain ⟨pkg, hpkg, himports⟩ := newNamespace_eq_some hns
  obtain ⟨name, hname, hiff⟩ :=
    class_unreserved_iff .ascii _ file service ns hns ".google.protobuf.Empty".toList (by decide +kernel)
  refine ⟨ns, hns, name, hname, hiff.mpr fun _ => ⟨?_, by decide +kernel⟩⟩
  rw [himports.package, ← Option.some.inj hpkg]
  decide +kernel

/-- A message of the service's own package is named by a keyword. -/
theorem class_of_own_package_reserved :
    let file := appFile ".app.Class" ".google.protobuf.Empty"
    let service := appService ".app.Class" ".google.protobuf.Empty"
    (newNamespace .ascii ⟨[emptyFile, file]⟩ file service).map (·.resolve .ascii (some ".app.Class".toList)) =
        some (some "Class".toList) ∧
      Reserved (lastSegment "Class".toList) := by
  decide +kernel

end RoadRunner.Grpc.Php
