import RoadRunner.Http.Leak

/-!
# The address behind a proxy

`resolveIP` of `http/handler/handler.go` with `Cidrs.IsTrusted` of `http/config/ip.go`: the address of a request from a
trusted proxy is read from its headers. A proxy adds the address of its client at the end of `X-Forwarded-For`, as an
entry of the last line or as a line of its own, and everything before it may come from the client. `Header.Get` reads
the first line.

* `Appended`: the entry that the proxy has added to a line. `lastIP`: the last address of a line.
* `addr_unspoofed_iff`: when it is the one that the proxy has added.
-/

namespace RoadRunner.Http

/-! ## Trusted subnets -/

/-- Functions of the libraries, on addresses of type `IP`. -/
structure Net (IP : Type) where
  /-- `net.ParseIP`. -/
  parseIP : Bytes → Option IP
  /-- `strings.TrimSpace`. -/
  trimSpace : Bytes → Bytes
  parse_nil : parseIP (trimSpace []) = none

/-- `Cidrs`, by `IPNet.Contains`. -/
abbrev Cidrs (IP : Type) := List (IP → Bool)

/-- `Cidrs.IsTrusted`. -/
def Cidrs.isTrusted {IP : Type} (net : Net IP) (c : Cidrs IP) (ip : Bytes) : Bool :=
  if c.length = 0 then false
  else
    match net.parseIP ip with
    | none => false
    | some i => c.any fun cidr => cidr i

namespace Net

variable {IP : Type} (net : Net IP)

/-- The text is an address. -/
def IsIP (s : Bytes) : Prop := (net.parseIP s).isSome

/-- The settings of a handler with these trusted subnets. -/
def config (cfg : Config) (trusted : Cidrs IP) : Config :=
  { cfg with
    isTrusted := trusted.isTrusted net
    isIP := fun s => (net.parseIP s).isSome
    trimSpace := net.trimSpace }

/-- The last entry of a line, which is an address. -/
def Appended (line entry : Bytes) : Prop := (line.splitOn 44).getLast? = some entry ∧ net.IsIP (net.trimSpace entry)

instance (line entry : Bytes) : Decidable (net.Appended line entry) :=
  inferInstanceAs (Decidable (_ ∧ (net.parseIP (net.trimSpace entry)).isSome))

/-- The last entry of a line that is an address. -/
def lastIP (line : Bytes) : Option Bytes :=
  ((line.splitOn 44).reverse.map net.trimSpace).find? fun s => (net.parseIP s).isSome

end Net

/-- The headers that are read if there is no `X-Forwarded-For`. -/
def realIP (addr : Bytes) (header : Header) : Bytes :=
  if header.first "X-Real-Ip" ≠ [] then fetchIP (header.first "X-Real-Ip")
  else if header.first "True-Client-Ip" ≠ [] then fetchIP (header.first "True-Client-Ip")
  else if header.first "Cf-Connecting-Ip" ≠ [] then fetchIP (header.first "Cf-Connecting-Ip")
  else addr

variable {IP : Type} {net : Net IP} {cfg : Config} {trusted : Cidrs IP}

/-! ## The address of a request -/

/-- The address that a line gives to a request from a trusted proxy. -/
def Net.lineAddr (net : Net IP) (addr : Bytes) (header : Header) (line : Bytes) : Bytes :=
  if line = [] then realIP addr header else (net.lastIP line).getD addr

/-- A proxy that is trusted: the first line decides. -/
theorem clientAddr_trusted {addr : Bytes} (htrusted : trusted.isTrusted net addr) (header : Header) :
    (net.config cfg trusted).clientAddr addr header =
      net.lineAddr addr header (header.first "X-Forwarded-For") := by
  have hpeer : ¬ ¬ (net.config cfg trusted).isTrusted addr := not_not_intro htrusted
  unfold Config.clientAddr
  rw [if_neg hpeer, Net.lineAddr, ite_not]
  rfl

/-- One that is not: the headers are not read. -/
theorem clientAddr_untrusted {addr : Bytes} (huntrusted : ¬ trusted.isTrusted net addr) (header : Header) :
    (net.config cfg trusted).clientAddr addr header = addr := by
  unfold Config.clientAddr
  exact if_pos huntrusted

theorem first_append {header : Header} {earlier : List Bytes} {line : Bytes}
    (hlines : header.lookup (ascii "X-Forwarded-For") = some (earlier ++ [line])) :
    header.first "X-Forwarded-For" = earlier.head?.getD line := by
  unfold Header.first
  rw [hlines]
  cases earlier <;> rfl

/-- The search from the end of a line finds the entry of the proxy, whatever is before it. -/
theorem Net.Appended.lastIP {line entry : Bytes} (h : net.Appended line entry) :
    net.lastIP line = some (net.trimSpace entry) := by
  obtain ⟨hlast, hip⟩ := h
  obtain ⟨entries, hentries⟩ := List.getLast?_eq_some_iff.mp hlast
  rw [Net.lastIP, hentries, List.reverse_concat, List.map_cons]
  exact List.find?_cons_of_pos hip

theorem Net.Appended.ne_nil {line entry : Bytes} (h : net.Appended line entry) : line ≠ [] := by
  rintro rfl
  obtain ⟨hlast, hip⟩ := h
  have hentry : [] = entry := Option.some.inj hlast
  rw [Net.IsIP, ← hentry, net.parse_nil] at hip
  cases hip

theorem Net.Appended.lineAddr {line entry : Bytes} (h : net.Appended line entry) (addr : Bytes) (header : Header) :
    net.lineAddr addr header line = net.trimSpace entry := by
  rw [Net.lineAddr, if_neg h.ne_nil, h.lastIP, Option.getD_some]

/-- **The address of a client.** For a request from a trusted proxy, with any lines of `X-Forwarded-For` such that the
proxy has added an address at the end of the last one: the request gets this address if and only if there is one line,
or the first line, with everything that is read if it is empty or has no address, happens to give the same. A request
from another peer keeps its address, with any headers. -/
theorem addr_unspoofed_iff (net : Net IP) (cfg : Config) (trusted : Cidrs IP) (req : Request) :
    (trusted.isTrusted net req.remoteAddr → ∀ earlier line entry,
        req.header.lookup (ascii "X-Forwarded-For") = some (earlier ++ [line]) → net.Appended line entry →
          (((net.config cfg trusted).resolveIP req).remoteAddr = net.trimSpace entry ↔
            ∀ first ∈ earlier.head?,
              net.lineAddr req.remoteAddr req.header first = net.trimSpace entry)) ∧
      (¬ trusted.isTrusted net req.remoteAddr →
        ((net.config cfg trusted).resolveIP req).remoteAddr = req.remoteAddr) := by
  refine ⟨fun htrusted earlier line entry hlines happended => ?_, fun huntrusted => ?_⟩
  · rw [Config.resolveIP, clientAddr_trusted htrusted, first_append hlines]
    -- what is read is the line of the proxy, if it is the only one, and else the first one
    cases earlier with
    | nil => exact iff_of_true (happended.lineAddr _ _) nofun
    | cons first rest => simp
  · exact clientAddr_untrusted huntrusted req.header

/-- A number of an address of version 4. -/
def parseByte (s : Bytes) : Option Nat :=
  if s = [] ∨ 3 < s.length ∨ (∃ c ∈ s, c < 48 ∨ 57 < c) ∨ 1 < s.length ∧ s.head? = some 48 then none
  else
    let n := s.foldl (fun n c => 10 * n + (c.toNat - 48)) 0
    if n ≤ 255 then some n else none

/-- Addresses of version 4, by their numbers, and blanks. -/
def netV4 : Net (List Nat) where
  parseIP s := ((s.splitOn 46).mapM parseByte).filter (·.length = 4)
  trimSpace s := ((s.dropWhile (· = 32)).reverse.dropWhile (· = 32)).reverse
  parse_nil := by decide

/-- Behind the proxy 10.0.0.1, which has added a line with the address of the client, the client chooses its address. -/
theorem addr_spoofed :
    let trusted : Cidrs (List Nat) := [fun ip => ip.head? = some 10]
    let req : Request :=
      { remoteAddr := ascii "10.0.0.1"
        header := [(ascii "X-Forwarded-For", [ascii "127.0.0.1", ascii "5.6.7.8"])] }
    trusted.isTrusted netV4 req.remoteAddr ∧ netV4.Appended (ascii "5.6.7.8") (ascii "5.6.7.8") ∧
      ((netV4.config sampleConfig trusted).resolveIP req).remoteAddr = ascii "127.0.0.1" := by
  decide +kernel

end RoadRunner.Http
