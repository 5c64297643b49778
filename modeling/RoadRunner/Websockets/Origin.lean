import RoadRunner.Basic
import RoadRunner.Lib.Cut

/-!
# Origins of websocket connections

The model of `InitDefault` of `http/middleware/websockets/config.go`, which compiles the pattern of allowed origins,
and of `isOriginAllowed` of `origin.go`, which checks an origin against what was compiled.

* `isOriginAllowed_iff`: the check after `InitDefault` is `Allows`.
-/

namespace RoadRunner.Websockets.Origin

/-! ## Lower case -/

/-- `strings.ToLower` of an ASCII byte. -/
def lower (b : UInt8) : UInt8 := if 65 ≤ b ∧ b ≤ 90 then b + 32 else b

/-- All bytes are ASCII. -/
def IsAscii (s : Bytes) : Prop := ∀ b ∈ s, b < 128

instance (s : Bytes) : Decidable (IsAscii s) := List.decidableBAll (· < 128) s

/-- `strings.ToLower`. -/
structure ToLower where
  run : Bytes → Bytes
  run_ascii : ∀ s, IsAscii s → run s = s.map lower

/-- `*`. -/
def star : UInt8 := 42

/-! ## The configuration -/

/-- `pool.Config`, with what `InitDefault` sets. -/
structure PoolConfig where
  numWorkers : UInt64 := 0
  allocateTimeout : Int := 0
  destroyTimeout : Int := 0
  deriving DecidableEq

/-- The exported fields of `Config`. -/
structure Settings where
  path : Bytes := []
  allowedOrigin : Bytes := []
  broker : Bytes := []
  pool : Option PoolConfig := none
  deriving DecidableEq

/-- `wildcard`. -/
structure Wildcard where
  start : Bytes
  suffix : Bytes
  deriving DecidableEq

/-- The configuration, with what `InitDefault` makes of it. -/
structure Config extends Settings where
  allowedWOrigins : List Wildcard := []
  allowedOrigins : List Bytes := []
  allowedAll : Bool := false
  deriving DecidableEq

/-- `time.Minute`. -/
def minute : Int := 60000000000

/-- The fields of `Config` with their defaults. -/
def Config.defaults (c : Config) : Config :=
  { c with
    path := if c.path = [] then ascii "/ws" else c.path
    pool := some (c.pool.getD { numWorkers := 2, allocateTimeout := minute, destroyTimeout := minute })
    allowedOrigin := if c.allowedOrigin = [] then ascii "*" else c.allowedOrigin }

section

variable (toLower : ToLower)

/-- The pattern is compiled. A star splits it in two. -/
def Config.normalize (c : Config) : Config :=
  let origin := toLower.run c.allowedOrigin
  if origin = ascii "*" then { c with allowedAll := true }
  else if star ∈ origin then
    let w := ⟨origin.takeWhile (· ≠ star), (origin.dropWhile (· ≠ star)).drop 1⟩
    { c with allowedWOrigins := c.allowedWOrigins ++ [w] }
  else { c with allowedOrigins := c.allowedOrigins ++ [origin] }

/-- `InitDefault`. -/
def Config.initDefault (c : Config) : Except Err Config :=
  if c.broker = [] then .error (.str "broker key should be specified")
  else .ok (c.defaults.normalize toLower)

/-- `wildcard.match`. -/
def Wildcard.isMatch (w : Wildcard) (s : Bytes) : Bool :=
  w.start.length + w.suffix.length ≤ s.length ∧ w.start <+: s ∧ w.suffix <:+ s

/-- `isOriginAllowed`. -/
def isOriginAllowed (origin : Bytes) (cfg : Config) : Bool :=
  if cfg.allowedAll then true
  else
    let origin := toLower.run origin
    let origin := toLower.run origin
    cfg.allowedOrigins.any (· = origin) || cfg.allowedWOrigins.any fun w => w.isMatch origin

end

/-! ## The policy -/

/-- The pattern allows the origin: it is empty or a star; or it has no star and is the origin up to case; or it has
one star, with the text before it and the text after it at the ends of the origin, up to case and without an
overlap. -/
def Allows (pattern origin : Bytes) : Prop :=
  pattern = [] ∨ pattern = ascii "*" ∨ (star ∉ pattern ∧ pattern.map lower = origin.map lower) ∨
    ∃ p s, pattern = p ++ star :: s ∧ star ∉ p ∧ star ∉ s ∧
      ∃ text, origin.map lower = p.map lower ++ text ++ s.map lower

theorem lower_eq_star {b : UInt8} : lower b = star ↔ b = star := by
  have hall : ∀ b : Fin 256, lower (UInt8.ofFin b) = star ↔ UInt8.ofFin b = star := by decide +kernel
  exact hall b.toFin

theorem lower_lower (b : UInt8) : lower (lower b) = lower b := by
  have hall : ∀ b : Fin 256, lower (lower (UInt8.ofFin b)) = lower (UInt8.ofFin b) := by decide +kernel
  exact hall b.toFin

theorem lower_lt {b : UInt8} (h : b < 128) : lower b < 128 := by
  have hall : ∀ b : Fin 256, UInt8.ofFin b < 128 → lower (UInt8.ofFin b) < 128 := by decide +kernel
  exact hall b.toFin h

theorem star_mem_lower {s : Bytes} : star ∈ s.map lower ↔ star ∈ s := by
  rw [List.mem_map]
  constructor
  · rintro ⟨b, hb, hlower⟩
    exact lower_eq_star.mp hlower ▸ hb
  · intro h
    exact ⟨star, h, rfl⟩

theorem IsAscii.map_lower {s : Bytes} (h : IsAscii s) : IsAscii (s.map lower) := by
  intro b hb
  obtain ⟨c, hc, rfl⟩ := List.mem_map.mp hb
  exact lower_lt (h c hc)

/-- A text is matched exactly if the two parts are at its ends without an overlap. -/
theorem isMatch_iff {w : Wildcard} {s : Bytes} :
    w.isMatch s = true ↔ ∃ text, s = w.start ++ text ++ w.suffix := by
  rw [Wildcard.isMatch, decide_eq_true_eq]
  constructor
  · rintro ⟨hlen, ⟨rest, rfl⟩, hsuffix⟩
    -- the suffix is one of the rest, which is long enough
    rw [List.length_append] at hlen
    obtain ⟨text, rfl⟩ : w.suffix <:+ rest :=
      List.suffix_of_suffix_length_le hsuffix (List.suffix_append _ _) (by omega)
    exact ⟨text, by rw [List.append_assoc]⟩
  · rintro ⟨text, rfl⟩
    refine ⟨?_, ?_, List.suffix_append _ _⟩
    · simp only [List.length_append]
      omega
    · rw [List.append_assoc]
      exact List.prefix_append _ _

section

variable {pattern origin : Bytes}

theorem map_lower_eq_star : pattern.map lower = ascii "*" ↔ pattern = ascii "*" := by
  constructor
  · intro h
    obtain ⟨b, rfl, hb⟩ := List.map_eq_singleton_iff.mp h
    rw [lower_eq_star.mp hb]
    rfl
  · rintro rfl
    rfl

/-- A pattern with a star, cut at the star. -/
theorem exists_cut (h : star ∈ pattern) (hcount : pattern.count star ≤ 1) :
    ∃ p s, pattern = p ++ star :: s ∧ star ∉ p ∧ star ∉ s := by
  obtain ⟨p, s, rfl, hp⟩ := List.eq_append_cons_of_mem h
  refine ⟨p, s, rfl, hp, fun hs => ?_⟩
  have hpos := List.count_pos_iff.mpr hs
  rw [List.count_append, List.count_cons_self] at hcount
  omega

/-- A pattern is cut at its star in one way. -/
theorem allows_cut {p s : Bytes} (hp : star ∉ p) (hs : star ∉ s) (hne : p ++ star :: s ≠ ascii "*") :
    Allows (p ++ star :: s) origin ↔ ∃ text, origin.map lower = p.map lower ++ text ++ s.map lower := by
  constructor
  · rintro (h | h | ⟨h, -⟩ | ⟨p', s', heq, -, -, htext⟩)
    · simp at h
    · exact absurd h hne
    · simp at h
    · obtain ⟨rfl, -, rfl⟩ := (List.append_cons_inj_of_notMem hp hs).mp heq
      exact htext
  · intro h
    exact .inr (.inr (.inr ⟨p, s, rfl, hp, hs, h⟩))

theorem allows_of_no_star (hstar : star ∉ pattern) (hne : pattern ≠ []) :
    Allows pattern origin ↔ pattern.map lower = origin.map lower := by
  constructor
  · rintro (h | rfl | ⟨-, h⟩ | ⟨p, s, rfl, -, -, -⟩)
    · exact absurd h hne
    · exact absurd (by decide) hstar
    · exact h
    · simp at hstar
  · intro h
    exact .inr (.inr (.inl ⟨hstar, h⟩))

variable {toLower : ToLower}

/-- The check with a compiled configuration that does not allow all origins. -/
theorem isOriginAllowed_eq (horigin : IsAscii origin) {cfg : Config} (hall : cfg.allowedAll = false) :
    isOriginAllowed toLower origin cfg = true ↔
      origin.map lower ∈ cfg.allowedOrigins ∨ ∃ w ∈ cfg.allowedWOrigins, w.isMatch (origin.map lower) = true := by
  have htwice : toLower.run (toLower.run origin) = origin.map lower := by
    rw [toLower.run_ascii origin horigin, toLower.run_ascii _ horigin.map_lower, List.map_map]
    exact List.map_congr_left fun b _ => lower_lower b
  simp [isOriginAllowed, hall, htwice]

/-- What is compiled is `Allows`. -/
theorem normalize_iff (hpattern : IsAscii pattern) (hcount : pattern.count star ≤ 1) (hne : pattern ≠ [])
    (horigin : IsAscii origin) {c : Config} (hc : c.allowedOrigin = pattern) (hw : c.allowedWOrigins = [])
    (ho : c.allowedOrigins = []) (hall : c.allowedAll = false) :
    isOriginAllowed toLower origin (c.normalize toLower) = true ↔ Allows pattern origin := by
  have hlower : toLower.run c.allowedOrigin = pattern.map lower := by rw [hc, toLower.run_ascii pattern hpattern]
  unfold Config.normalize
  simp only [hlower]
  by_cases hstar : pattern = ascii "*"
  · rw [if_pos (map_lower_eq_star.mpr hstar)]
    exact iff_of_true rfl (.inr (.inl hstar))
  rw [if_neg (mt map_lower_eq_star.mp hstar)]
  by_cases hmem : star ∈ pattern
  · obtain ⟨p, s, rfl, hp, hs⟩ := exists_cut hmem hcount
    have hmap : (p ++ star :: s).map lower = p.map lower ++ star :: s.map lower := by
      rw [List.map_append, List.map_cons, lower_eq_star.mpr rfl]
    have hp' : star ∉ p.map lower := mt star_mem_lower.mp hp
    rw [if_pos (star_mem_lower.mpr hmem), hmap, Cut.takeWhile_append hp', Cut.dropWhile_append hp',
      allows_cut hp hs hstar]
    refine (isOriginAllowed_eq horigin (by exact hall)).trans ?_
    simp [ho, hw, isMatch_iff]
  · rw [if_neg (mt star_mem_lower.mp hmem), allows_of_no_star hmem hne]
    refine (isOriginAllowed_eq horigin (by exact hall)).trans ?_
    rw [hw, ho, List.nil_append, List.mem_singleton, eq_comm]
    exact or_iff_left nofun

end

/-- **The origin policy.** For every ASCII pattern with at most one star and every ASCII origin, `InitDefault`
succeeds if there is a broker, and then an origin is allowed exactly if the pattern allows it. -/
theorem isOriginAllowed_iff (toLower : ToLower) (settings : Settings) (hbroker : settings.broker ≠ [])
    (hpattern : IsAscii settings.allowedOrigin) (hcount : settings.allowedOrigin.count star ≤ 1) :
    ∃ cfg, Config.initDefault toLower { toSettings := settings } = .ok cfg ∧
      ∀ origin, IsAscii origin →
        (isOriginAllowed toLower origin cfg = true ↔ Allows settings.allowedOrigin origin) := by
  refine ⟨_, if_neg hbroker, fun origin horigin => ?_⟩
  by_cases hempty : settings.allowedOrigin = []
  · -- an empty pattern is made a star, which allows all
    have hstar : (Config.defaults { toSettings := settings }).allowedOrigin = ascii "*" := if_pos hempty
    rw [normalize_iff (by decide) (by decide) (by decide) horigin hstar rfl rfl rfl]
    exact iff_of_true (.inr (.inl rfl)) (.inl hempty)
  · exact normalize_iff hpattern hcount hempty horigin (if_neg hempty) rfl rfl rfl

/-- `strings.ToLower` for ASCII texts. -/
def asciiLower : ToLower := ⟨List.map lower, fun _ _ => rfl⟩

/-- `a.*.com` does not allow `a.com`, in which the dots overlap, and allows `A.b.COM`. -/
theorem origins_of_wildcard :
    ∃ cfg, Config.initDefault asciiLower { broker := ascii "b", allowedOrigin := ascii "a.*.com" } = .ok cfg ∧
      isOriginAllowed asciiLower (ascii "A.b.COM") cfg = true ∧
      ¬ isOriginAllowed asciiLower (ascii "a.com") cfg = true := by
  obtain ⟨cfg, hcfg, hiff⟩ := isOriginAllowed_iff asciiLower
    { broker := ascii "b", allowedOrigin := ascii "a.*.com" } (by decide) (by decide) (by decide)
  refine ⟨cfg, hcfg, (hiff _ (by decide)).mpr ?_, fun h => ?_⟩
  · exact .inr (.inr (.inr ⟨ascii "a.", ascii ".com", rfl, by decide, by decide, ascii "b", rfl⟩))
  · have hcut := (allows_cut (p := ascii "a.") (s := ascii ".com") (by decide) (by decide) (by decide)).mp
      ((hiff _ (by decide)).mp h)
    obtain ⟨text, htext⟩ := hcut
    have hlen := congrArg List.length htext
    simp [ascii] at hlen

end RoadRunner.Websockets.Origin
