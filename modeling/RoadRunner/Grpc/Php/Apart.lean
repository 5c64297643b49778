import RoadRunner.Grpc.Php.Ns

/-!
# Types that are told apart in generated PHP (`protoc-gen-php-grpc/php/ns.go`)

A type of another package is named by the last part of the namespace that is imported for its package. The names differ
if these parts do, and if no name is that of another type with the letters that a keyword gets.

* `uses_nodup_iff`: the last parts of the `use` lines.
* `resolve_eq_iff_of_package`, `resolve_ne_of_root`: names in one package, and in the own one and another.
* `types_apart_iff`: when all names and all `use` lines are told apart.
-/

namespace RoadRunner.Grpc.Php

/-- A message that is declared in a file, and not in another message. -/
def TopLevel (req : CodeGeneratorRequest) (t : Text) : Prop :=
  ∃ f ∈ req.protoFile, ∃ m ∈ f.messageType, ∃ n ∈ m.name,
    t = (f.package.elim [] fun p => '.' :: p) ++ '.' :: n

/-- Two types of a service with different names: in one package, the classes have different names. -/
structure Distinct (u : Unicode) (req : CodeGeneratorRequest) (service : ServiceDescriptorProto) (t t' : Text) :
    Prop where
  uses : service.Uses t ∧ service.Uses t'
  top : TopLevel req t ∧ TopLevel req t'
  ne : t ≠ t'
  names : packageOf t = packageOf t' → className u t ≠ className u t'

section

variable {u : Unicode} {req : CodeGeneratorRequest}

theorem lt_of_isAlphanum {c : Char} (h : c.isAlphanum = true) : c.toNat < 128 := by
  simp only [Char.isAlphanum, Char.isAlpha, Char.isUpper, Char.isLower, Char.isDigit, Bool.or_eq_true,
    Bool.and_eq_true, decide_eq_true_eq, UInt32.le_iff_toNat_le] at h
  rcases h with (⟨-, hupper⟩ | ⟨-, hlower⟩) | ⟨-, hdigit⟩
  · exact Nat.lt_of_le_of_lt hupper (by decide)
  · exact Nat.lt_of_le_of_lt hlower (by decide)
  · exact Nat.lt_of_le_of_lt hdigit (by decide)

theorem IsIdent.forall {s : Text} (h : IsIdent s) : ∀ c ∈ s, c.isAlphanum = true ∨ c = '_' := by
  cases s with
  | nil => cases h
  | cons c s =>
    rw [List.forall_mem_cons]
    refine ⟨h.1.imp_left fun halpha => ?_, h.2⟩
    rw [Char.isAlphanum, halpha, Bool.true_or]

theorem IsIdent.ascii {s : Text} (h : IsIdent s) : ∀ c ∈ s, c.toNat < 128 := by
  intro c hc
  rcases h.forall c hc with halpha | rfl
  · exact lt_of_isAlphanum halpha
  · decide

theorem toCase_ne_backslash {c : Char} (h : c ≠ '\\') : c.toUpper ≠ '\\' ∧ c.toLower ≠ '\\' := by
  cases halpha : c.isAlpha with
  | true =>
    constructor
    · intro heq
      have hupper : c.toUpper.isAlpha = true := by simpa using halpha
      rw [heq] at hupper
      exact absurd hupper (by decide)
    · intro heq
      have hlower : c.toLower.isAlpha = true := by simpa using halpha
      rw [heq] at hlower
      exact absurd hlower (by decide)
  | false =>
    rw [Char.isAlpha, Bool.or_eq_false_iff] at halpha
    rw [Char.toUpper_eq_of_not_isLower (by simp [halpha.2]), Char.toLower_eq_of_not_isUpper (by simp [halpha.1])]
    exact ⟨h, h⟩

theorem messageOf_isIdent {n : Text} (h : IsFullName n) : IsIdent (messageOf ('.' :: n)) := by
  have hsplit : ('.' :: n).splitOn '.' = [] :: n.splitOn '.' :=
    List.splitOn_append_cons_self_of_not_mem (List.not_mem_nil) n
  rw [messageOf, hsplit, List.getLast?_cons]
  cases hlast : (n.splitOn '.').getLast? with
  | none => exact absurd (List.getLast?_eq_none_iff.mp hlast) (List.splitOn_ne_nil '.' n)
  | some part => exact h part (List.mem_of_getLast? hlast)

/-- The class of a valid type has no backslash. -/
theorem className_of_valid {t : Text} (h : IsIdent (messageOf t)) :
    '\\' ∉ className u t ∧ ∀ c ∈ className u t, c.toNat < 128 := by
  have hname : className u t = camelize u (messageOf t) := rfl
  rw [hname]
  refine ⟨?_, ascii_camelize u h.ascii⟩
  rw [camelize_eq, cased_of_ascii u h.ascii]
  intro hmem
  refine forall_cased (P := (· ≠ '\\')) .ascii (fun c hc _ => toCase_ne_backslash ?_) true _ hmem rfl
  rintro rfl
  rcases h.forall _ hc with hc | hc
  · exact absurd hc (by decide)
  · exact absurd hc (by decide)

/-- What has to be apart for the names to be: the last parts of the imported namespaces, and a name that gets letters in
front of it from the other names of its package. -/
structure Separate (u : Unicode) (req : CodeGeneratorRequest) (service : ServiceDescriptorProto) (own : Text) :
    Prop where
  namespaces : ∀ p q, service.Needs own p → service.Needs own q → p ≠ q →
    lastSegment (importNamespace u req p) ≠ lastSegment (importNamespace u req q)
  grpc : ∀ p, service.Needs own p → lastSegment (importNamespace u req p) ≠ "GRPC".toList
  marks : ∀ t t', Distinct u req service t t' → packageOf t = packageOf t' → packageOf t ≠ '.' :: own →
    Reserved (className u t) → className u t' ≠ reservedMark (packageOf t) ++ className u t

theorem uses_nodup_iff {file : FileDescriptorProto} {service : ServiceDescriptorProto} {ns : Ns}
    (hns : newNamespace u req file service = some ns) :
    (ns.uses.map lastSegment).Nodup ↔
      (∀ p q, service.Needs ns.package p → service.Needs ns.package q → p ≠ q →
          lastSegment (importNamespace u req p) ≠ lastSegment (importNamespace u req q)) ∧
        ∀ p, service.Needs ns.package p → lastSegment (importNamespace u req p) ≠ "GRPC".toList := by
  have hgrpc : lastSegment "Spiral\\RoadRunner\\GRPC".toList = "GRPC".toList := by decide +kernel
  have hentries : ns.imports.entries.Nodup := ns.imports.keys_nodup.of_map _
  rw [Ns.uses, List.map_cons, hgrpc, List.nodup_cons, List.map_map, List.nodup_map_iff_inj_on hentries, and_comm]
  refine and_congr ?_ ?_
  · constructor
    · intro h p q hp hq hne heq
      have hmem := (mem_imports hns).mpr ⟨hp, rfl⟩
      have hmem' := (mem_imports hns).mpr ⟨hq, rfl⟩
      exact hne (Prod.mk.inj (h _ hmem _ hmem' heq)).1
    · rintro h ⟨p, n⟩ hmem ⟨q, n'⟩ hmem' heq
      obtain ⟨hp, rfl⟩ := (mem_imports hns).mp hmem
      obtain ⟨hq, rfl⟩ := (mem_imports hns).mp hmem'
      by_contra hne
      exact h p q hp hq (fun hpq => hne (by rw [hpq])) heq
  · constructor
    · intro h p hp heq
      exact h (List.mem_map.mpr ⟨_, (mem_imports hns).mpr ⟨hp, rfl⟩, heq⟩)
    · intro h hmem
      obtain ⟨⟨p, n⟩, hmem, heq⟩ := List.mem_map.mp hmem
      obtain ⟨hp, rfl⟩ := (mem_imports hns).mp hmem
      exact h p hp heq

/-- Two types of one imported package. -/
theorem resolve_eq_iff_of_package {file : FileDescriptorProto} {service : ServiceDescriptorProto} {ns : Ns}
    (hns : newNamespace u req file service = some ns) {t t' : Text} (h : Distinct u req service t t')
    (hpkg : packageOf t = packageOf t') (hroot : packageOf t ≠ '.' :: ns.package)
    (hident : IsIdent (messageOf t) ∧ IsIdent (messageOf t')) :
    ns.resolve u (some t) = ns.resolve u (some t') ↔
      Reserved (className u t) ∧ className u t' = reservedMark (packageOf t) ++ className u t ∨
        Reserved (className u t') ∧ className u t = reservedMark (packageOf t) ++ className u t' := by
  rw [resolve_imported hns h.uses.1 hroot, resolve_imported hns h.uses.2 (hpkg ▸ hroot), ← hpkg, Option.some_inj,
    List.append_cancel_left_eq, List.cons.injEq, and_iff_right rfl, resolveReserved_eq_iff u (h.names hpkg),
    isReserved_iff_of_ascii u (className_of_valid hident.1).2,
    isReserved_iff_of_ascii u (className_of_valid hident.2).2]

theorem Distinct.symm {service : ServiceDescriptorProto} {t t' : Text} (h : Distinct u req service t t') :
    Distinct u req service t' t :=
  ⟨h.uses.symm, h.top.symm, h.ne.symm, fun hpkg => (h.names hpkg.symm).symm⟩

/-- A class of the own package and one of another package are never the same text. -/
theorem resolve_ne_of_root {file : FileDescriptorProto} {service : ServiceDescriptorProto} {ns : Ns}
    (hns : newNamespace u req file service = some ns) {t t' : Text} (h' : service.Uses t')
    (hroot : packageOf t = '.' :: ns.package) (hroot' : packageOf t' ≠ '.' :: ns.package)
    (hident : IsIdent (messageOf t)) : ns.resolve u (some t) ≠ ns.resolve u (some t') := by
  rw [resolve_root hroot, resolve_imported hns h' hroot']
  intro heq
  refine (className_of_valid (u := u) hident).1 ?_
  rw [Option.some.inj heq]
  exact List.mem_append_right _ List.mem_cons_self

theorem resolve_ne_of_separate {file : FileDescriptorProto} {service : ServiceDescriptorProto} {ns : Ns}
    (hns : newNamespace u req file service = some ns) (hsep : Separate u req service ns.package) {t t' : Text}
    (h : Distinct u req service t t') (hident : IsIdent (messageOf t) ∧ IsIdent (messageOf t')) :
    ns.resolve u (some t) ≠ ns.resolve u (some t') := by
  by_cases hroot : packageOf t = '.' :: ns.package
  · by_cases hroot' : packageOf t' = '.' :: ns.package
    · rw [resolve_root hroot, resolve_root hroot']
      exact fun heq => h.names (hroot.trans hroot'.symm) (Option.some.inj heq)
    · exact resolve_ne_of_root hns h.uses.2 hroot hroot' hident.1
  · by_cases hroot' : packageOf t' = '.' :: ns.package
    · exact (resolve_ne_of_root hns h.uses.1 hroot' hroot hident.2).symm
    · by_cases hpkg : packageOf t = packageOf t'
      · rw [Ne, resolve_eq_iff_of_package hns h hpkg hroot hident]
        rintro (⟨hres, heq⟩ | ⟨hres, heq⟩)
        · exact hsep.marks t t' h hpkg hroot hres heq
        · exact hsep.marks t' t h.symm hpkg.symm hroot' hres (hpkg ▸ heq)
      · rw [resolve_imported hns h.uses.1 hroot, resolve_imported hns h.uses.2 hroot']
        intro heq
        have hsegments := (Cut.append_cons_inj (backslash_not_mem_lastSegment _) (backslash_not_mem_lastSegment _)
          (Option.some.inj heq)).1
        exact hsep.namespaces _ _ ⟨hroot, t, h.uses.1, rfl⟩ ⟨hroot', t', h.uses.2, rfl⟩ hpkg hsegments

/-- **Types are kept apart.** For every valid request and every service that is generated, all types of its methods get
different names and no two `use` lines end alike, exactly if the namespaces of the packages and the names with letters
in front of them are separate. -/
theorem types_apart_iff (u : Unicode) (req : CodeGeneratorRequest) (hvalid : Valid req) (file : FileDescriptorProto)
    (hfile : file ∈ req.protoFile) (service : ServiceDescriptorProto) (hservice : service ∈ file.service) (ns : Ns)
    (hns : newNamespace u req file service = some ns) :
    ((∀ t t', Distinct u req service t t' → ns.resolve u (some t) ≠ ns.resolve u (some t')) ∧
        (ns.uses.map lastSegment).Nodup) ↔ Separate u req service ns.package := by
  have hident : ∀ t, service.Uses t → IsIdent (messageOf t) := by
    intro t ht
    obtain ⟨_, ⟨⟩, hhead, hfull⟩ := hvalid.types file hfile service hservice _ ht
    obtain ⟨n, rfl⟩ := List.head?_eq_some_iff.mp hhead
    exact messageOf_isIdent hfull
  rw [uses_nodup_iff hns]
  constructor
  · rintro ⟨happart, hnamespaces, hgrpc⟩
    refine ⟨hnamespaces, hgrpc, fun t t' h hpkg hroot hres heq => happart t t' h ?_⟩
    exact (resolve_eq_iff_of_package hns h hpkg hroot ⟨hident t h.uses.1, hident t' h.uses.2⟩).mpr (.inl ⟨hres, heq⟩)
  · intro hsep
    refine ⟨fun t t' h => ?_, hsep.namespaces, hsep.grpc⟩
    exact resolve_ne_of_separate hns hsep h ⟨hident t h.uses.1, hident t' h.uses.2⟩

end

theorem appService_uses {input output : String} {t : Text} (h : (appService input output).Uses t) :
    t = input.toList ∨ t = output.toList := by
  simpa [ServiceDescriptorProto.Uses, ServiceDescriptorProto.types, appService] using h

/-- `Request` and `Protobuf\GPBEmpty`. -/
theorem request_and_empty_apart :
    let file := appFile ".app.Request" ".google.protobuf.Empty"
    let service := appService ".app.Request" ".google.protobuf.Empty"
    let req : CodeGeneratorRequest := ⟨[emptyFile, file]⟩
    ∃ ns, newNamespace .ascii req file service = some ns ∧
      (∀ t t', Distinct .ascii req service t t' → ns.resolve .ascii (some t) ≠ ns.resolve .ascii (some t')) ∧
        (ns.uses.map lastSegment).Nodup := by
  intro file service req
  have hvalid : Valid req := by decide +kernel
  have hsome : (newNamespace .ascii req file service).isSome = true := by decide +kernel
  obtain ⟨ns, hns⟩ := Option.isSome_iff_exists.mp hsome
  obtain ⟨pkg, hpkg, himports⟩ := newNamespace_eq_some hns
  have hown : packageOf ".app.Request".toList = '.' :: ns.package := by
    rw [himports.package, ← Option.some.inj hpkg]
    decide +kernel
  have hempty : ∀ t, service.Uses t → packageOf t ≠ '.' :: ns.package → t = ".google.protobuf.Empty".toList := by
    intro t ht hne
    rcases appService_uses ht with rfl | rfl
    · exact absurd hown hne
    · rfl
  refine ⟨ns, hns, (types_apart_iff .ascii req hvalid file (by simp [req]) service (by simp [file, appFile, service])
    ns hns).mpr ⟨?_, ?_, ?_⟩⟩
  · rintro p q ⟨hp, t, ht, rfl⟩ ⟨hq, t', ht', rfl⟩ hne
    rw [hempty t ht hp, hempty t' ht' hq] at hne
    exact absurd rfl hne
  · rintro p ⟨hp, t, ht, rfl⟩
    rw [hempty t ht hp]
    decide +kernel
  · intro t t' h hsame hroot
    exact absurd ((hempty t h.uses.1 hroot).trans (hempty t' h.uses.2 (hsame ▸ hroot)).symm) h.ne

/-- A file of a package with one message. -/
def commonFile (name pkg : String) : FileDescriptorProto :=
  { name := some name.toList, package := some pkg.toList, messageType := [⟨some "Item".toList⟩] }

/-- The messages of two packages with one last part have one name, and both packages are imported under it. -/
theorem common_imported_twice :
    let file := appFile ".a.common.Item" ".b.common.Item"
    let service := appService ".a.common.Item" ".b.common.Item"
    let req : CodeGeneratorRequest := ⟨[commonFile "a.proto" "a.common", commonFile "b.proto" "b.common", file]⟩
    Valid req ∧ Distinct .ascii req service ".a.common.Item".toList ".b.common.Item".toList ∧
      (newNamespace .ascii req file service).map (fun ns =>
          (ns.resolve .ascii (some ".a.common.Item".toList), ns.resolve .ascii (some ".b.common.Item".toList))) =
        some (some "Common\\Item".toList, some "Common\\Item".toList) ∧
      (newNamespace .ascii req file service).map (·.uses) =
        some ["Spiral\\RoadRunner\\GRPC".toList, "A\\Common".toList, "B\\Common".toList] := by
  intro file service req
  refine ⟨by decide +kernel, ⟨by decide +kernel, ⟨?_, ?_⟩, by decide +kernel, by decide +kernel⟩, by decide +kernel⟩
  · exact ⟨_, List.mem_cons_self, _, List.mem_cons_self, _, rfl, by decide +kernel⟩
  · exact ⟨_, List.mem_cons_of_mem _ List.mem_cons_self, _, List.mem_cons_self, _, rfl, by decide +kernel⟩

end RoadRunner.Grpc.Php
