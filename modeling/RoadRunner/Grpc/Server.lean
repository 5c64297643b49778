import RoadRunner.Grpc.Parser

/-!
# The services of the gRPC server (`grpc/server.go`)

`createGRPCserver` registers the services that `parser.File` returns for each configured proto file
under their fully qualified names. `RegisterService` of the gRPC library aborts the process when a
name is registered already.

* `services_once_iff_one_route`: every service of an acyclic import graph is listed once, and the
  server starts, exactly if one route of imports leads to each file that defines a service. A file
  that is imported twice, on two routes, stops the process.
-/

namespace RoadRunner.Grpc

/-- `fmt.Sprintf("%s.%s", service.Package, service.Name)`. -/
def Service.fullName (s : Service) : Bytes := s.package ++ ascii "." ++ s.name

/-- `proxy.Proxy`: what is registered for a service. -/
structure Proxy where
  name : Bytes
  metadata : Bytes
  methods : List Bytes
  deriving DecidableEq

/-- `NewProxy`, with `RegisterMethod` for each method. -/
def newProxy (proto : Bytes) (service : Service) : Proxy :=
  ⟨service.fullName, proto, service.methods.map (·.name)⟩

/-- How the creation of the server ends. -/
inductive Startup where
  | failed (err : Err)
  /-- `RegisterService` has found the name registered, and ended the process. -/
  | aborted (name : Bytes)
  | serving (proxyList : List Proxy)
  deriving DecidableEq

/-- The loop over the services of one proto file; the error is the name that was registered before. -/
def register (proto : Bytes) : List Proxy → List Service → Except Bytes (List Proxy)
  | proxyList, [] => .ok proxyList
  | proxyList, service :: services =>
    if service.fullName ∈ proxyList.map (·.name) then .error service.fullName
    else register proto (proxyList ++ [newProxy proto service]) services

/-- `createGRPCserver`, without the server's options and the services of other plugins; `dir` is
`path.Dir` and `n` bounds the depth of `parser.File`. -/
def createGRPCserver {F : Type} (d : Disk F) (dir : Bytes → Bytes) (n : Nat) :
    List Proxy → List Bytes → Option Startup
  | proxyList, [] => some (.serving proxyList)
  | proxyList, proto :: protos =>
    if proto = [] then createGRPCserver d dir n proxyList protos
    else match file d (dir proto) n proto with
      | none => none
      | some (.error err) => some (.failed err)
      | some (.ok services) =>
        match register proto proxyList services with
        | .error name => some (.aborted name)
        | .ok proxyList => createGRPCserver d dir n proxyList protos

/-- A registration goes through exactly if no name comes twice. -/
theorem register_ok_iff {proto : Bytes} {proxyList : List Proxy} {services : List Service}
    (hnames : (proxyList.map (·.name)).Nodup) :
    (∃ proxies, register proto proxyList services = .ok proxies) ↔
      (proxyList.map (·.name) ++ services.map Service.fullName).Nodup := by
  induction services generalizing proxyList with
  | nil => simpa [register] using hnames
  | cons service services ih =>
    rw [register]
    split
    · rename_i hmem
      refine iff_of_false (by simp) fun hnodup => ?_
      exact (List.nodup_append.mp hnodup).2.2 _ hmem _ (by simp) rfl
    · rename_i hmem
      have hgrown : (proxyList ++ [newProxy proto service]).map (·.name) =
          proxyList.map (·.name) ++ [service.fullName] := by
        simp [newProxy]
      rw [ih (by rw [hgrown]; exact List.nodup_append_comm.mp (List.nodup_cons.mpr ⟨hmem, hnames⟩)), hgrown,
        List.append_assoc]
      rfl

section

variable {F : Type} (d : Disk F) (importPath : Bytes) (root : F)

/-- The fully qualified names of the services of the files that the root reaches are pairwise
distinct. -/
structure Distinct : Prop where
  within : ∀ f, Unfold.Reaches (imported d importPath) root f → ((defined d f).map Service.fullName).Nodup
  across : ∀ f g, Unfold.Reaches (imported d importPath) root f → Unfold.Reaches (imported d importPath) root g →
    ∀ s ∈ defined d f, ∀ t ∈ defined d g, s.fullName = t.fullName → f = g

/-- One route of imports at most leads from the root to each file that defines a service. -/
def OneRoute : Prop :=
  ∀ f, defined d f ≠ [] → ∀ r r', Unfold.follow (imported d importPath) root r = some f →
    Unfold.follow (imported d importPath) root r' = some f → r = r'

variable {d importPath root}

/-- Distinct names of all files of the disk. -/
theorem Distinct.of_forall (hwithin : ∀ f, ((defined d f).map Service.fullName).Nodup)
    (hacross : ∀ f g, ∀ s ∈ defined d f, ∀ t ∈ defined d g, s.fullName = t.fullName → f = g) :
    Distinct d importPath root :=
  ⟨fun f _ => hwithin f, fun f g _ _ => hacross f g⟩

theorem Distinct.eq_of_fullName (hdistinct : Distinct d importPath root) {f g : F}
    (hf : Unfold.Reaches (imported d importPath) root f) (hg : Unfold.Reaches (imported d importPath) root g)
    {s t : Service} (hs : s ∈ defined d f) (ht : t ∈ defined d g) (hst : s.fullName = t.fullName) :
    f = g ∧ s = t := by
  obtain rfl : f = g := hdistinct.across f g hf hg s hs t ht hst
  exact ⟨rfl, List.inj_on_of_nodup_map (hdistinct.within f hf) hs ht hst⟩

/-- Every service is listed once exactly if one route leads to each file that defines one. -/
theorem count_eq_one_iff_oneRoute (hdistinct : Distinct d importPath root) {n : Nat} {services : List Service}
    (h : Unfold.collect (imported d importPath) (defined d) n root = some services) :
    (∀ f, Unfold.Reaches (imported d importPath) root f → ∀ s ∈ defined d f, services.count s = 1) ↔
      OneRoute d importPath root := by
  have hcount : ∀ f, Unfold.Reaches (imported d importPath) root f → ∀ s ∈ defined d f,
      (services.count s = 1 ↔ ∀ r r', Unfold.follow (imported d importPath) root r = some f →
        Unfold.follow (imported d importPath) root r' = some f → r = r') := by
    intro f hf s hs
    refine Unfold.count_eq_one_iff h hf ?_ fun g hg hsg => ?_
    · exact List.count_eq_one_of_mem (hdistinct.within f hf).of_map hs
    · exact (hdistinct.eq_of_fullName hg hf hsg hs rfl).1
  constructor
  · intro hall f hne r r' hr hr'
    have hf := Unfold.follow_iff_reaches.mp ⟨r, hr⟩
    obtain ⟨s, hs⟩ := List.exists_mem_of_ne_nil _ hne
    exact (hcount f hf s hs).mp (hall f hf s hs) r r' hr hr'
  · intro hone f hf s hs
    exact (hcount f hf s hs).mpr (hone f (List.ne_nil_of_mem hs))

/-- No name is listed twice exactly if every service is listed once. -/
theorem fullNames_nodup_iff (hdistinct : Distinct d importPath root) {n : Nat} {services : List Service}
    (h : Unfold.collect (imported d importPath) (defined d) n root = some services) :
    (services.map Service.fullName).Nodup ↔
      ∀ f, Unfold.Reaches (imported d importPath) root f → ∀ s ∈ defined d f, services.count s = 1 := by
  constructor
  · intro hnodup f hf s hs
    exact List.count_eq_one_of_mem hnodup.of_map ((Unfold.mem_collect h).mpr ⟨f, hf, hs⟩)
  · intro hall
    have hservices : services.Nodup := by
      rw [List.nodup_iff_count_eq_one]
      intro s hs
      obtain ⟨f, hf, hsf⟩ := (Unfold.mem_collect h).mp hs
      exact hall f hf s hsf
    refine hservices.map_on fun s hs t ht hst => ?_
    obtain ⟨f, hf, hsf⟩ := (Unfold.mem_collect h).mp hs
    obtain ⟨g, hg, htg⟩ := (Unfold.mem_collect h).mp ht
    exact (hdistinct.eq_of_fullName hf hg hsf htg hst).2

end

/-- For an acyclic import graph with distinct service names: the list that `File` returns has every
service once, and the server starts, exactly if one route leads to each file that defines a service. -/
theorem services_once_iff_one_route {F : Type} [Finite F] {d : Disk F} {dir : Bytes → Bytes} {path : Bytes}
    {root : F} {proto : List Element} (hpath : path ≠ []) (hopen : d.opens path = some root)
    (hparsed : d.parsed root = .ok proto)
    (hacyclic : ∀ f, Unfold.Reaches (imported d (dir path)) root f → ¬ Unfold.Cyclic (imported d (dir path)) f)
    (hdistinct : Distinct d (dir path) root) :
    ∃ n services, file d (dir path) n path = some (.ok services) ∧
      (∀ s, s ∈ services ↔ ∃ f, Unfold.Reaches (imported d (dir path)) root f ∧ s ∈ defined d f) ∧
      ((∀ f, Unfold.Reaches (imported d (dir path)) root f → ∀ s ∈ defined d f, services.count s = 1) ↔
        OneRoute d (dir path) root) ∧
      ((∃ proxyList, createGRPCserver d dir n [] [path] = some (.serving proxyList)) ↔
        OneRoute d (dir path) root) := by
  obtain ⟨n, services, hwalk⟩ :
      ∃ n services, Unfold.collect (imported d (dir path)) (defined d) n root = some services :=
    Unfold.returns_iff_acyclic.mpr hacyclic
  have hfile : file d (dir path) n path = some (.ok services) := by
    rw [file, hopen, parse_eq, hwalk]
    simp [result, hparsed]
  have honce := count_eq_one_iff_oneRoute hdistinct hwalk
  refine ⟨n, services, hfile, fun s => Unfold.mem_collect hwalk, honce, ?_⟩
  rw [← honce, ← fullNames_nodup_iff hdistinct hwalk]
  have hregister : (∃ proxies, register path [] services = .ok proxies) ↔
      (services.map Service.fullName).Nodup := register_ok_iff List.nodup_nil
  rw [← hregister]
  simp only [createGRPCserver, hpath, if_false, hfile]
  cases hreg : register path [] services with
  | error name => simp
  | ok proxies => simp

/-- Two files in a chain. -/
theorem services_once_chain :
    (∀ f, Unfold.Reaches (imported chain (ascii ".")) 0 f → ¬ Unfold.Cyclic (imported chain (ascii ".")) f) ∧
      Distinct chain (ascii ".") 0 ∧
      ∃ n services, file chain (ascii ".") n (ascii "./a.proto") = some (.ok services) := by
  have hacyclic : ∀ f, Unfold.Reaches (imported chain (ascii ".")) 0 f →
      ¬ Unfold.Cyclic (imported chain (ascii ".")) f :=
    Unfold.acyclic_of_collect (defined chain) 2 0 (by decide)
  have hdistinct : Distinct chain (ascii ".") 0 := .of_forall (by decide) (by decide)
  obtain ⟨n, services, hfile, -⟩ :=
    @services_once_iff_one_route _ _ chain (fun _ => ascii ".") (ascii "./a.proto") 0 _ (by decide) rfl rfl
      hacyclic hdistinct
  exact ⟨hacyclic, hdistinct, n, services, hfile⟩

/-- `a.proto` imports `b.proto` and `c.proto`, both of which import `d.proto`, the only file with a
service. -/
def diamond : Disk (Fin 4) where
  opens path :=
    if path = ascii "./a.proto" then some 0 else if path = ascii "./b.proto" then some 1
    else if path = ascii "./c.proto" then some 2 else if path = ascii "./d.proto" then some 3 else none
  parsed f :=
    if f = 0 then .ok [.imports (ascii "b.proto"), .imports (ascii "c.proto")]
    else if f = 3 then .ok [.package (ascii "p"), .service (ascii "S") []]
    else .ok [.imports (ascii "d.proto")]

theorem diamond_import_aborts :
    (∀ f, Unfold.Reaches (imported diamond (ascii ".")) 0 f → ¬ Unfold.Cyclic (imported diamond (ascii ".")) f) ∧
      Distinct diamond (ascii ".") 0 ∧
      file diamond (ascii ".") 3 (ascii "./a.proto") =
        some (.ok [⟨ascii "p", ascii "S", []⟩, ⟨ascii "p", ascii "S", []⟩]) ∧
      createGRPCserver diamond (fun _ => ascii ".") 3 [] [ascii "./a.proto"] =
        some (.aborted (ascii "p.S")) := by
  refine ⟨Unfold.acyclic_of_collect (defined diamond) 3 0 (by decide), ?_, by rfl, by rfl⟩
  exact .of_forall (by decide) (by decide)

end RoadRunner.Grpc
