import ErrorAbuse.Config.Directive
import ErrorAbuse.Redis.Layout

/-!
# The directive `error_abuse_zone`

The loop over the arguments gathers twelve options in `ZoneArgs`, where zero means that an option
was not given. `finishZone` then fills in the defaults, compares the durations with each other and
the names and paths with those of the zones declared before, and hands the zone over to nginx.

`Valid` is what parsing guarantees of a single option, `ZoneArgs.Parsed` what it guarantees of all
of them together, and `Sound` what follows for a zone that is accepted.
-/

namespace ErrorAbuse

open Lib

variable {κ : Type}

/-- The fields of `ngx_http_error_abuse_zone_t` that the directive sets. -/
structure ZoneDecl (κ : Type) where
  name : List UInt8
  size : ℕ
  key : κ
  statuses : Bitmap
  interval : ℤ
  block : ℤ
  inactive : ℤ
  threshold : ℕ
  persist : List UInt8
  persistSecret : List UInt8
  persistInterval : ℕ
  redis : Bool
  onFullReject : Bool

def defaultInterval : ℤ := 300
def defaultThreshold : ℕ := 100
def defaultBlock : ℤ := 3600
def minPersistSecretBytes : ℕ := 16

/-! ## The options -/

inductive ZoneOption
  | zone
  | key
  | statuses
  | interval
  | threshold
  | block
  | inactive
  | persist
  | persistInterval
  | persistSecret
  | redis
  | onFull
  deriving DecidableEq, Repr

namespace ZoneOption

/-- In the order of the comparisons. -/
def all : List ZoneOption :=
  [zone, key, statuses, interval, threshold, block, inactive, persist, persistInterval,
    persistSecret, redis, onFull]

def token : ZoneOption → List UInt8
  | zone => ascii "zone="
  | key => ascii "key="
  | statuses => ascii "statuses="
  | interval => ascii "interval="
  | threshold => ascii "threshold="
  | block => ascii "block="
  | inactive => ascii "inactive="
  | persist => ascii "persist="
  | persistInterval => ascii "persist_interval="
  | persistSecret => persistSecretToken
  | redis => ascii "redis="
  | onFull => ascii "on_full="

theorem mem_all (o : ZoneOption) : o ∈ all := by cases o <;> decide

/-- No token begins with another one. -/
theorem eq_of_prefix (o o' : ZoneOption) (h : o.token <+: o'.token) : o = o' := by
  have hall : ∀ o ∈ all, ∀ o' ∈ all, o.token.isPrefixOf o'.token = true → o = o' := by decide
  exact hall o (mem_all o) o' (mem_all o') (List.isPrefixOf_iff_prefix.mpr h)

end ZoneOption

/-- An option with its value. -/
inductive ZoneSetting
  | zone (name : List UInt8) (size : ℕ)
  | key (value : List UInt8)
  | statuses (value : List UInt8)
  | interval (seconds : ℤ)
  | threshold (n : ℕ)
  | block (seconds : ℤ)
  | inactive (seconds : ℤ)
  | persist (path : List UInt8)
  | persistInterval (msec : ℕ)
  | persistSecret (secret : List UInt8)
  | redis (on : Bool)
  | onFull (reject : Bool)

def ZoneSetting.kind : ZoneSetting → ZoneOption
  | zone .. => .zone
  | key _ => .key
  | statuses _ => .statuses
  | interval _ => .interval
  | threshold _ => .threshold
  | block _ => .block
  | inactive _ => .inactive
  | persist _ => .persist
  | persistInterval _ => .persistInterval
  | persistSecret _ => .persistSecret
  | redis _ => .redis
  | onFull _ => .onFull

/-- The variables of the handler and the fields of the zone, zero where nothing was given. -/
structure ZoneArgs where
  name : List UInt8 := []
  size : ℕ := 0
  key : List UInt8 := []
  statuses : List UInt8 := []
  interval : ℤ := 0
  threshold : ℕ := 0
  block : ℤ := 0
  inactive : ℤ := 0
  persist : List UInt8 := []
  persistInterval : ℕ := 0
  persistSecret : List UInt8 := []
  redis : Bool := false
  onFullReject : Bool := false

def ZoneArgs.set (s : ZoneArgs) : ZoneSetting → ZoneArgs
  | .zone name size => { s with name := name, size := size }
  | .key value => { s with key := value }
  | .statuses value => { s with statuses := value }
  | .interval seconds => { s with interval := seconds }
  | .threshold n => { s with threshold := n }
  | .block seconds => { s with block := seconds }
  | .inactive seconds => { s with inactive := seconds }
  | .persist path => { s with persist := path }
  | .persistInterval msec => { s with persistInterval := msec }
  | .persistSecret secret => { s with persistSecret := secret }
  | .redis on => { s with redis := on }
  | .onFull reject => { s with onFullReject := reject }

/-! ## Parsing -/

/-- `parse_seconds`; `none` is `NGX_ERROR` -/
def parseSeconds (core : ConfCore κ) (data : List UInt8) : Option ℤ :=
  match core.parseTime data true with
  | none => none
  | some t => if t = 0 || (t : ℤ) > maxSeconds then none else some t

/-- The bytes that pairs of digits stand for. -/
def hexDecode : List UInt8 → Option (List UInt8)
  | hi :: lo :: text => do
    let hi ← ngxHextoi hi
    let lo ← ngxHextoi lo
    let rest ← hexDecode text
    return UInt8.ofNat (hi <<< 4 ||| lo) :: rest
  | _ => some []

def parseRedisFlag (value : List UInt8) : Option Bool :=
  if value.length = 2 && (cString value).map ngxTolower = ascii "on" then some true
  else if value.length = 3 && (cString value).map ngxTolower = ascii "off" then some false
  else none

def parseOnFull (value : List UInt8) : Option Bool :=
  if value.length = 5 && strncmpEq value (ascii "allow") then some false
  else if value.length = 6 && strncmpEq value (ascii "reject") then some true
  else none

/-- A branch of the loop: what becomes of the value of an option. -/
def ZoneOption.parse (core : ConfCore κ) (o : ZoneOption) (param value : List UInt8) :
    Conf ZoneSetting :=
  let bad {α : Type} : Conf α := invalid "error_abuse_zone" param
  match o with
  | .zone => do
    let p ← orElse (ngxStrchr 58 value) (emerg "error_abuse zone requires name:size" [])
    let parsedSize ← orElse (core.parseSize (value.drop (p + 1)))
      (emerg "error_abuse zone has invalid size" [])
    refuseIf (parsedSize < 8 * core.plat.pageSize) "error_abuse zone is too small" []
    return .zone (value.take p) parsedSize
  | .key => return .key value
  | .statuses => return .statuses value
  | .interval => do
    let seconds ← orElse (parseSeconds core value) bad
    return .interval seconds
  | .threshold => do
    let n := atoi core.plat value
    if n < 1 || n > maxThreshold then bad else return .threshold n.toNat
  | .block => do
    let seconds ← orElse (parseSeconds core value) bad
    return .block seconds
  | .inactive => do
    let seconds ← orElse (parseSeconds core value) bad
    return .inactive seconds
  | .persist => if value.length = 0 then bad else return .persist value
  | .persistInterval => do
    let parsedTime ← orElse (core.parseTime value false) bad
    if parsedTime < 100 then bad else return .persistInterval parsedTime
  | .persistSecret =>
    if value.length = 0 || value.length % 2 = 1 then bad
    else do
      let keylen := value.length / 2
      refuseIf (keylen < minPersistSecretBytes)
        "persist_secret: min %d bytes (%d hex chars); got %uz bytes"
        [.num minPersistSecretBytes, .num (minPersistSecretBytes * 2), .num keylen]
      require (core.alloc .persistSecret)
      let secret ← orElse (hexDecode value) bad
      return .persistSecret secret
  | .redis => do
    let on ← orElse (parseRedisFlag value) bad
    return .redis on
  | .onFull => do
    let reject ← orElse (parseOnFull value) bad
    return .onFull reject

/-! ## Defaults and cross checks -/

/-- `find_zone` -/
def findZone (zones : List (ZoneDecl κ)) (name : List UInt8) : Option (ZoneDecl κ) :=
  zones.find? fun zone => strncmpEq zone.name name

/-- `inactive`, long enough by default and compared if it was given. -/
def checkedInactive (name : List UInt8) (interval block inactive : ℤ) : Conf ℤ :=
  if inactive = 0 then
    let inactive := 3600
    let inactive := if inactive < interval then interval else inactive
    let inactive := if inactive < block then block else inactive
    return inactive
  else do
    refuseIf (inactive < interval || inactive < block)
      "error_abuse_zone \"%V\" inactive must be >= interval and >= block" [.str name]
    return inactive

/-- `parse_statuses_conf`, into the bitmap of a new zone. -/
def parseStatusesConf (plat : Platform) (value : List UInt8) : Conf Bitmap :=
  match parseStatuses plat value ⟨List.replicate statusBytes 0, List.length_replicate⟩ with
  | none => confError -- a write outside the bitmap, which there is none of
  | some (.ok, statuses) => return statuses
  | some (.emptyElement, _) =>
    emerg "invalid error_abuse status list \"%V\" (empty element)" [.str value]
  | some (.trailingComma, _) =>
    emerg "invalid error_abuse status list \"%V\" (trailing comma)" [.str value]
  | some (.range, _) => emerg "invalid error_abuse status list \"%V\"" [.str value]

/-- The path of the snapshot and how often it is written. -/
def checkedPersist (core : ConfCore κ) (zones : List (ZoneDecl κ)) (s : ZoneArgs) :
    Conf (List UInt8 × ℕ) :=
  if s.persist.length ≠ 0 then do
    require (core.alloc .persist)
    let persist ← orElse (core.fullName s.persist) confError
    match zones.find? fun zone => strncmpEq zone.persist persist with
    | some zone =>
      emerg "error_abuse zones \"%V\" and \"%V\" use the same persistence file \"%V\""
        [.str zone.name, .str s.name, .str persist]
    | none => return (persist, if s.persistInterval = 0 then 5000 else s.persistInterval)
  else do
    refuseIf (s.persistInterval ≠ 0) "persist_interval requires persist" []
    refuseIf (s.persistSecret.length ≠ 0) "persist_secret requires persist" []
    return ([], 0)

/-- The handler after its loop. -/
def finishZone (core : ConfCore κ) (zones : List (ZoneDecl κ)) (s : ZoneArgs) :
    Conf (ZoneDecl κ) := do
  refuseIf (s.name.length = 0 || s.size = 0) "error_abuse_zone requires zone=name:size" []
  let key := if s.key.length = 0 then ascii "$binary_remote_addr" else s.key
  let list := if s.statuses.length = 0 then ascii "403,404,500-599" else s.statuses
  let interval := if s.interval = 0 then defaultInterval else s.interval
  let threshold := if s.threshold = 0 then defaultThreshold else s.threshold
  let block := if s.block = 0 then defaultBlock else s.block
  refuseIf (findZone zones s.name).isSome "duplicate error_abuse zone \"%V\"" [.str s.name]
  let inactive ← checkedInactive s.name interval block s.inactive
  let statuses ← parseStatusesConf core.plat list
  let key ← core.compileComplexValue key
  let persist ← checkedPersist core zones s
  refuseIf ((ngxStrlchr 123 s.name).isSome || (ngxStrlchr 125 s.name).isSome)
    "error_abuse zone name may not contain braces" []
  let used ← core.sharedMemoryAdd s.name s.size
  refuseIf used "shared memory zone \"%V\" is already used" [.str s.name]
  require (core.alloc .slot)
  return { name := s.name, size := s.size, key := key, statuses := statuses, interval := interval,
           block := block, inactive := inactive, threshold := threshold, persist := persist.1,
           persistSecret := s.persistSecret, persistInterval := persist.2, redis := s.redis,
           onFullReject := s.onFullReject }

/-! ## What parsing guarantees -/

/-- Parsing yields a value of the option that was asked for. -/
theorem kind_parse (core : ConfCore κ) (o : ZoneOption) (param value : List UInt8)
    (v : ZoneSetting) (h : (o.parse core param value).accepted = some v) : v.kind = o := by
  cases o <;> simp only [ZoneOption.parse, accepted_ite_invalid, Logged.accepted_bind,
    Logged.accepted_pure, Option.bind_eq_some_iff, Option.some.injEq] at h
  case zone =>
    obtain ⟨_, -, _, -, _, -, rfl⟩ := h
    rfl
  case key | statuses => exact h ▸ rfl
  case interval | block | inactive | redis | onFull =>
    obtain ⟨_, -, rfl⟩ := h
    rfl
  case threshold | persist =>
    obtain ⟨-, rfl⟩ := h
    rfl
  case persistInterval =>
    obtain ⟨_, -, -, rfl⟩ := h
    rfl
  case persistSecret =>
    obtain ⟨-, _, -, _, -, _, -, rfl⟩ := h
    rfl

theorem ZoneArgs.set_comm (s : ZoneArgs) (v v' : ZoneSetting) (h : v.kind ≠ v'.kind) :
    (s.set v').set v = (s.set v).set v' := by
  cases v <;> cases v' <;> first | rfl | exact absurd rfl h

/-- The options of `error_abuse_zone`. -/
def zoneOptions (core : ConfCore κ) : Options ZoneOption ZoneSetting ZoneArgs where
  directive := "error_abuse_zone"
  all := ZoneOption.all
  token := ZoneOption.token
  parse := ZoneOption.parse core
  kind := ZoneSetting.kind
  set v s := s.set v
  mem_all := ZoneOption.mem_all
  eq_of_prefix := ZoneOption.eq_of_prefix
  kind_parse := kind_parse core
  set_comm v v' s := s.set_comm v v'

/-- `error_abuse_zone` -/
def abuseZone (core : ConfCore κ) (zones : List (ZoneDecl κ)) (args : List (List UInt8)) :
    Conf (ZoneDecl κ) := do
  require (core.alloc .zone)
  let gathered ← (zoneOptions core).gather args {}
  finishZone core zones gathered.values

/-! ### The secret -/

theorem hexDigits_of_ngxHextoi {c : UInt8} {d : ℕ} (h : ngxHextoi c = some d) :
    d < 16 ∧ hexDigits.getD d 0 = ngxTolower c := by
  have hall : ∀ n < 256, (ngxHextoi (UInt8.ofNat n)).all (fun d =>
      d < 16 && hexDigits.getD d 0 = ngxTolower (UInt8.ofNat n)) = true := by decide +kernel
  have hc := hall c.toNat c.toNat_lt
  rw [UInt8.ofNat_toNat, h] at hc
  simpa using hc

theorem hexByte_ofNat : ∀ hi < 16, ∀ lo < 16,
    hexByte (UInt8.ofNat (hi <<< 4 ||| lo)) = [hexDigits.getD hi 0, hexDigits.getD lo 0] := by
  decide

/-- Written in hexadecimal again, what was decoded is the text it was decoded from. -/
theorem flatMap_hexByte_of_hexDecode {text secret : List UInt8} (heven : text.length % 2 = 0)
    (h : hexDecode text = some secret) : secret.flatMap hexByte = text.map ngxTolower := by
  induction text, heven using pairs_induction generalizing secret with
  | nil =>
      obtain rfl : [] = secret := by simpa [hexDecode] using h
      rfl
  | pair hi lo text heven ih =>
      simp only [hexDecode, Option.bind_eq_bind, Option.bind_eq_some_iff, Option.pure_def,
        Option.some.injEq] at h
      obtain ⟨d, hd, d', hd', rest, hrest, rfl⟩ := h
      obtain ⟨hlt, hdigit⟩ := hexDigits_of_ngxHextoi hd
      obtain ⟨hlt', hdigit'⟩ := hexDigits_of_ngxHextoi hd'
      rw [List.flatMap_cons, hexByte_ofNat d hlt d' hlt', ih hrest, hdigit, hdigit']
      rfl

/-! ### One option -/

/-- The secret is given by an argument in hexadecimal. -/
def GivenBy (args : List (List UInt8)) (secret : List UInt8) : Prop :=
  ∃ text, persistSecretToken ++ text ∈ args ∧ secret.flatMap hexByte = text.map ngxTolower

/-- What parsing guarantees of an option. -/
def ZoneSetting.Valid (core : ConfCore κ) (args : List (List UInt8)) : ZoneSetting → Prop
  | .zone _ size => 8 * core.plat.pageSize ≤ size ∧ size < 2 ^ 63
  | .interval seconds | .block seconds | .inactive seconds => 1 ≤ seconds ∧ seconds ≤ maxSeconds
  | .threshold n => 1 ≤ n ∧ n ≤ maxThreshold
  | .persist path => path ≠ []
  | .persistInterval msec => 100 ≤ msec
  | .persistSecret secret => 16 ≤ secret.length ∧ GivenBy args secret
  | .key _ | .statuses _ | .redis _ | .onFull _ => True

theorem parseSeconds_eq_some {core : ConfCore κ} {data : List UInt8} {seconds : ℤ}
    (h : parseSeconds core data = some seconds) : 1 ≤ seconds ∧ seconds ≤ maxSeconds := by
  rw [parseSeconds] at h
  cases htime : core.parseTime data true with
  | none => simp [htime] at h
  | some t =>
      simp only [htime, Option.ite_none_left_eq_some, Option.some.injEq, Bool.or_eq_true,
        decide_eq_true_eq] at h
      omega

/-- What is parsed is valid. -/
theorem valid_of_parse {core : ConfCore κ} {args : List (List UInt8)} {o : ZoneOption}
    {value : List UInt8} {v : ZoneSetting} (hmem : o.token ++ value ∈ args)
    (h : (o.parse core (o.token ++ value) value).accepted = some v) : v.Valid core args := by
  cases o <;> simp only [ZoneOption.parse, accepted_ite_invalid, Logged.accepted_bind,
    Logged.accepted_pure, Option.bind_eq_some_iff, Option.some.injEq] at h
  case zone =>
    obtain ⟨p, -, size, hsize, u, hsmall, rfl⟩ := h
    rw [accepted_refuseIf, decide_eq_false_iff_not, not_lt] at hsmall
    rw [accepted_orElse (accepted_emerg ..)] at hsize
    exact ⟨hsmall, core.parseSize_lt _ _ hsize⟩
  case key | statuses => exact h ▸ trivial
  case interval | block | inactive =>
    obtain ⟨seconds, hseconds, rfl⟩ := h
    rw [accepted_orElse (accepted_invalid ..)] at hseconds
    exact parseSeconds_eq_some hseconds
  case threshold =>
    obtain ⟨hbounds, rfl⟩ := h
    simp only [Bool.or_eq_true, decide_eq_true_eq, not_or, not_lt] at hbounds
    change 1 ≤ (atoi core.plat value).toNat ∧ (atoi core.plat value).toNat ≤ maxThreshold
    omega
  case persist =>
    obtain ⟨hlength, rfl⟩ := h
    exact fun hnil => hlength (List.length_eq_zero_iff.mpr hnil)
  case persistInterval =>
    obtain ⟨msec, -, hmsec, rfl⟩ := h
    exact not_lt.mp hmsec
  case persistSecret =>
    obtain ⟨hparity, u, hmin, u', -, secret, hsecret, rfl⟩ := h
    rw [accepted_refuseIf, decide_eq_false_iff_not, not_lt] at hmin
    rw [accepted_orElse (accepted_invalid ..)] at hsecret
    simp only [Bool.or_eq_true, decide_eq_true_eq, not_or] at hparity
    have heven : value.length % 2 = 0 := by omega
    have hhex := flatMap_hexByte_of_hexDecode heven hsecret
    have hlength := congrArg List.length hhex
    rw [length_flatMap_const length_hexByte, List.length_map] at hlength
    refine ⟨?_, value, hmem, hhex⟩
    have hbytes : minPersistSecretBytes = 16 := rfl
    omega
  case redis | onFull =>
    obtain ⟨_, -, rfl⟩ := h
    trivial

/-! ### All options -/

/-- What parsing guarantees of all options together; zero means that none was given. -/
structure ZoneArgs.Parsed (core : ConfCore κ) (args : List (List UInt8)) (s : ZoneArgs) : Prop where
  size : s.size = 0 ∨ 8 * core.plat.pageSize ≤ s.size ∧ s.size < 2 ^ 63
  interval : s.interval = 0 ∨ 1 ≤ s.interval ∧ s.interval ≤ maxSeconds
  block : s.block = 0 ∨ 1 ≤ s.block ∧ s.block ≤ maxSeconds
  inactive : s.inactive = 0 ∨ 1 ≤ s.inactive ∧ s.inactive ≤ maxSeconds
  threshold : s.threshold ≤ maxThreshold
  persistInterval : s.persistInterval = 0 ∨ 100 ≤ s.persistInterval
  persistSecret : s.persistSecret = [] ∨ 16 ≤ s.persistSecret.length ∧ GivenBy args s.persistSecret

theorem ZoneArgs.parsed_empty (core : ConfCore κ) (args : List (List UInt8)) :
    ZoneArgs.Parsed core args {} :=
  ⟨.inl rfl, .inl rfl, .inl rfl, .inl rfl, Nat.zero_le _, .inl rfl, .inl rfl⟩

/-- A valid option is kept with the others. -/
theorem ZoneArgs.Parsed.set {core : ConfCore κ} {args : List (List UInt8)} {s : ZoneArgs}
    {v : ZoneSetting} (h : s.Parsed core args) (hv : v.Valid core args) :
    (s.set v).Parsed core args := by
  cases v with
  | zone name size => exact { h with size := .inr hv }
  | interval seconds => exact { h with interval := .inr hv }
  | block seconds => exact { h with block := .inr hv }
  | inactive seconds => exact { h with inactive := .inr hv }
  | threshold n => exact { h with threshold := hv.2 }
  | persistInterval msec => exact { h with persistInterval := .inr hv }
  | persistSecret secret => exact { h with persistSecret := .inr hv }
  | key | statuses | persist | redis | onFull => exact { h with }

theorem parsed_of_gather {core : ConfCore κ} {args : List (List UInt8)}
    {gathered : Gathered ZoneOption ZoneArgs}
    (h : ((zoneOptions core).gather args {}).accepted = some gathered) :
    gathered.values.Parsed core args := by
  refine Options.gather_invariant (zoneOptions core) (ZoneArgs.parsed_empty core args) ?_ h
  intro o value v s hmem hparse hs
  exact hs.set (valid_of_parse hmem hparse)

/-! ## What the cross checks guarantee -/

/-- A zone that is fit for use next to those declared before it. -/
structure ZoneDecl.Sound (core : ConfCore κ) (zones : List (ZoneDecl κ))
    (args : List (List UInt8)) (zone : ZoneDecl κ) : Prop where
  threshold : 1 ≤ zone.threshold ∧ zone.threshold ≤ 1024
  interval : 1 ≤ zone.interval ∧ zone.interval ≤ 315360000
  block : 1 ≤ zone.block ∧ zone.block ≤ 315360000
  inactive : 1 ≤ zone.inactive ∧ zone.inactive ≤ 315360000
  interval_le : zone.interval ≤ zone.inactive
  block_le : zone.block ≤ zone.inactive
  size : 8 * core.plat.pageSize ≤ zone.size ∧ zone.size < 2 ^ 63
  name_ne_nil : zone.name ≠ []
  name_braceless : Braceless zone.name
  name_unique : ∀ other ∈ zones, other.name ≠ zone.name
  persist_unique : zone.persist ≠ [] → ∀ other ∈ zones, other.persist ≠ zone.persist
  persistInterval : zone.persist ≠ [] → 100 ≤ zone.persistInterval
  persistSecret : zone.persistSecret ≠ [] →
    zone.persist ≠ [] ∧ 16 ≤ zone.persistSecret.length ∧ GivenBy args zone.persistSecret

/-- The configuration that requests are handled under. -/
def ZoneDecl.Sound.conf {core : ConfCore κ} {zones : List (ZoneDecl κ)} {args : List (List UInt8)}
    {zone : ZoneDecl κ} (h : zone.Sound core zones args) : ZoneConf where
  plat := core.plat
  shmSize := zone.size
  name := zone.name
  statuses := zone.statuses.bytes
  interval := zone.interval
  block := zone.block
  inactive := zone.inactive
  threshold := zone.threshold
  persistSecret := zone.persistSecret
  redis := zone.redis
  onFullReject := zone.onFullReject
  shmSize_ge := h.size.1
  shmSize_lt := h.size.2
  threshold_pos := h.threshold.1
  threshold_le := h.threshold.2
  interval_pos := h.interval.1
  block_pos := h.block.1
  interval_le_inactive := h.interval_le
  block_le_inactive := h.block_le
  inactive_le := h.inactive.2

/-- A duration that was left out has a default within the bounds. -/
theorem default_bounds {seconds : ℤ} (default : ℤ)
    (hdefault : 1 ≤ default ∧ default ≤ maxSeconds)
    (h : seconds = 0 ∨ 1 ≤ seconds ∧ seconds ≤ maxSeconds) :
    1 ≤ (if seconds = 0 then default else seconds) ∧
      (if seconds = 0 then default else seconds) ≤ maxSeconds := by
  split_ifs <;> omega

theorem threshold_bounds {n : ℕ} (h : n ≤ maxThreshold) :
    1 ≤ (if n = 0 then defaultThreshold else n) ∧ (if n = 0 then defaultThreshold else n) ≤ 1024 := by
  have hbound : maxThreshold = 1024 := rfl
  have hdefault : defaultThreshold = 100 := rfl
  split_ifs <;> omega

theorem accepted_checkedInactive {name : List UInt8} {interval block inactive a : ℤ}
    (hinterval : 1 ≤ interval ∧ interval ≤ maxSeconds) (hblock : 1 ≤ block ∧ block ≤ maxSeconds)
    (hinactive : inactive = 0 ∨ 1 ≤ inactive ∧ inactive ≤ maxSeconds)
    (h : (checkedInactive name interval block inactive).accepted = some a) :
    interval ≤ a ∧ block ≤ a ∧ 1 ≤ a ∧ a ≤ maxSeconds := by
  have hmax : maxSeconds = 315360000 := rfl
  rw [checkedInactive] at h
  by_cases hunset : inactive = 0
  · rw [if_pos hunset, Logged.accepted_pure, Option.some.injEq] at h
    subst h
    split_ifs <;> omega
  · rw [if_neg hunset, Logged.accepted_bind] at h
    obtain ⟨u, hlong, h⟩ := Option.bind_eq_some_iff.mp h
    obtain rfl : inactive = a := Option.some.inj h
    simp only [accepted_refuseIf, Bool.or_eq_false_iff, decide_eq_false_iff_not, not_lt] at hlong
    omega

theorem accepted_checkedPersist {core : ConfCore κ} {zones : List (ZoneDecl κ)} {s : ZoneArgs}
    {persist : List UInt8 × ℕ} (hinterval : s.persistInterval = 0 ∨ 100 ≤ s.persistInterval)
    (h : (checkedPersist core zones s).accepted = some persist) :
    persist.1 = [] ∧ s.persistSecret = [] ∨
      persist.1 ≠ [] ∧ (∀ other ∈ zones, other.persist ≠ persist.1) ∧ 100 ≤ persist.2 := by
  rw [checkedPersist] at h
  by_cases hgiven : s.persist.length ≠ 0
  · right
    rw [if_pos hgiven, Logged.accepted_bind] at h
    obtain ⟨u, -, h⟩ := Option.bind_eq_some_iff.mp h
    rw [Logged.accepted_bind, accepted_orElse accepted_confError] at h
    obtain ⟨full, hfull, h⟩ := Option.bind_eq_some_iff.mp h
    have hne : full ≠ [] := core.fullName_ne_nil _ _ (List.length_pos_iff.mp (by omega)) hfull
    cases hfind : zones.find? fun zone => strncmpEq zone.persist full with
    | some other => simp [hfind] at h
    | none =>
        simp only [hfind, Logged.accepted_pure, Option.some.injEq] at h
        subst h
        refine ⟨hne, fun other hmem => ne_of_strncmpEq ?_, ?_⟩
        · exact Bool.eq_false_iff.mpr (List.find?_eq_none.mp hfind other hmem)
        · change 100 ≤ if s.persistInterval = 0 then 5000 else s.persistInterval
          split_ifs <;> omega
  · left
    rw [if_neg hgiven] at h
    simp only [Logged.accepted_bind, Option.bind_eq_some_iff, accepted_refuseIf] at h
    obtain ⟨u, -, u', hsecret, h⟩ := h
    obtain rfl : ([], 0) = persist := Option.some.inj h
    simpa using hsecret

/-- A text in which neither brace is found. -/
theorem braceless_of_ngxStrlchr {text : List UInt8}
    (h : ((ngxStrlchr 123 text).isSome || (ngxStrlchr 125 text).isSome) = false) :
    Braceless text := by
  have hfound : ∀ c ∈ text, (ngxStrlchr c text).isSome = true := by
    intro c hmem
    obtain ⟨l, r, rfl, hl⟩ := List.eq_append_cons_of_mem hmem
    rw [ngxStrlchr_append hl, Option.isSome_some]
  rw [Bool.or_eq_false_iff] at h
  refine ⟨fun hmem => ?_, fun hmem => ?_⟩
  · simp [hfound 123 hmem] at h
  · simp [hfound 125 hmem] at h

/-- A zone made of parsed options that passes the checks is sound. -/
theorem sound_of_finishZone {core : ConfCore κ} {zones : List (ZoneDecl κ)}
    {args : List (List UInt8)} {s : ZoneArgs} {zone : ZoneDecl κ} (hs : s.Parsed core args)
    (h : (finishZone core zones s).accepted = some zone) : zone.Sound core zones args := by
  simp only [finishZone, Logged.accepted_bind, Option.bind_eq_some_iff, Logged.accepted_pure,
    Option.some.injEq] at h
  obtain ⟨_, hgiven, _, hunique, inactive, hinactive, statuses, -, key, -, persist, hpersist,
    _, hbraces, used, -, _, -, _, -, rfl⟩ := h
  rw [accepted_refuseIf, Bool.or_eq_false_iff, decide_eq_false_iff_not,
    decide_eq_false_iff_not] at hgiven
  rw [accepted_refuseIf, findZone, Option.isSome_eq_false_iff, Option.isNone_iff_eq_none] at hunique
  rw [accepted_refuseIf] at hbraces
  have hinterval := default_bounds defaultInterval (by decide) hs.interval
  have hblock := default_bounds defaultBlock (by decide) hs.block
  obtain ⟨hintervalLe, hblockLe, hpos, hmax⟩ :=
    accepted_checkedInactive hinterval hblock hs.inactive hinactive
  have hpath := accepted_checkedPersist hs.persistInterval hpersist
  exact {
    threshold := threshold_bounds hs.threshold
    interval := hinterval
    block := hblock
    inactive := ⟨hpos, hmax⟩
    interval_le := hintervalLe
    block_le := hblockLe
    size := hs.size.resolve_left hgiven.2
    name_ne_nil := fun hnil => hgiven.1 (List.length_eq_zero_iff.mpr hnil)
    name_braceless := braceless_of_ngxStrlchr hbraces
    name_unique := fun other hmem =>
      ne_of_strncmpEq (Bool.eq_false_iff.mpr (List.find?_eq_none.mp hunique other hmem))
    persist_unique := fun hset => (hpath.resolve_left fun hno => hset hno.1).2.1
    persistInterval := fun hset => (hpath.resolve_left fun hno => hset hno.1).2.2
    persistSecret := fun hset => ⟨(hpath.resolve_left fun hno => hset hno.2).1,
      hs.persistSecret.resolve_left hset⟩ }

theorem accepted_abuseZone (core : ConfCore κ) (zones : List (ZoneDecl κ))
    (args : List (List UInt8)) : (abuseZone core zones args).accepted =
      (require (core.alloc .zone)).accepted.bind fun _ =>
        ((zoneOptions core).gather args {}).accepted.bind fun gathered =>
          (finishZone core zones gathered.values).accepted := by
  simp only [abuseZone, Logged.accepted_bind]

theorem sound_of_abuseZone {core : ConfCore κ} {zones : List (ZoneDecl κ)}
    {args : List (List UInt8)} {zone : ZoneDecl κ}
    (h : (abuseZone core zones args).accepted = some zone) : zone.Sound core zones args := by
  rw [accepted_abuseZone] at h
  obtain ⟨_, -, h⟩ := Option.bind_eq_some_iff.mp h
  obtain ⟨gathered, hgather, h⟩ := Option.bind_eq_some_iff.mp h
  exact sound_of_finishZone (parsed_of_gather hgather) h

theorem accepted_abuseZone_eq_none {core : ConfCore κ} {zones : List (ZoneDecl κ)}
    {args : List (List UInt8)} (h : ((zoneOptions core).gather args {}).accepted = none) :
    (abuseZone core zones args).accepted = none := by
  rw [accepted_abuseZone, h]
  cases (require (core.alloc .zone)).accepted <;> rfl

/-- **The zone directive.** A zone that is accepted is sound; an option given twice or an unknown
one is never accepted; and the order of the arguments does not matter. -/
theorem abuse_zone_sound (core : ConfCore κ) (zones : List (ZoneDecl κ))
    (args : List (List UInt8)) :
    (∀ zone, (abuseZone core zones args).accepted = some zone → zone.Sound core zones args) ∧
    (∀ (o : ZoneOption) (l m r : List (List UInt8)) (value value' : List UInt8),
      args = l ++ (o.token ++ value) :: (m ++ (o.token ++ value') :: r) →
      (abuseZone core zones args).accepted = none) ∧
    (∀ param ∈ args, (∀ o : ZoneOption, ¬ o.token <+: param) →
      (abuseZone core zones args).accepted = none) ∧
    ∀ args' : List (List UInt8), args.Perm args' →
      (abuseZone core zones args).accepted = (abuseZone core zones args').accepted := by
  refine ⟨fun zone => sound_of_abuseZone, ?_, ?_, ?_⟩
  · rintro o l m r value value' rfl
    exact accepted_abuseZone_eq_none
      (Options.gather_repeated (zoneOptions core) o l m r value value' {})
  · intro param hmem hunknown
    exact accepted_abuseZone_eq_none (Options.gather_unknown (zoneOptions core) hunknown hmem {})
  · intro args' hperm
    rw [accepted_abuseZone, accepted_abuseZone, Options.gather_perm (zoneOptions core) hperm]

example : (abuseZone .sample [] [ascii "inactive=4000", ascii "zone=one:65536"]).accepted.map
    (fun zone => (zone.interval, zone.block, zone.inactive)) = some (300, 3600, 4000) := by
  decide +kernel

end ErrorAbuse
