import ErrorAbuse.Config.Redis
import ErrorAbuse.Request.Context

/-!
# The directive `error_abuse`, and locations

A block may have one `error_abuse`, and what it leaves out is inherited, option by option: a
location has for each option what the nearest block around it says, else the default (`Nearest`).
Its zone is that of the nearest directive, which may be `off`.

A configuration file is read as a sequence of directives, `{` and `}` included. What it yields is
fit for the requests that are served under it.
-/

namespace ErrorAbuse

open Lib

variable {κ : Type}

/-- The values of `log_level=`. -/
inductive DecisionLevel
  | info
  | notice
  | warn
  | err
  deriving DecidableEq, Repr

/-- `ngx_http_error_abuse_loc_conf_t` while the configuration is read; `none` is
`NGX_CONF_UNSET`. The zone is an index into the zones that have been declared. -/
structure LocDecl where
  zone : Option ℕ
  rejectStatus : Option ℕ
  logLevel : Option DecisionLevel
  dryRun : Option Bool
  enabled : Option Bool
  deriving DecidableEq, Repr

/-- `create_loc_conf` -/
def createLocConf : LocDecl := ⟨none, none, none, none, none⟩

/-! ## The options -/

inductive EnableOption
  | zone
  | status
  | dryRun
  | logLevel
  deriving DecidableEq, Repr

namespace EnableOption

/-- In the order of the comparisons. -/
def all : List EnableOption := [zone, status, dryRun, logLevel]

def token : EnableOption → List UInt8
  | zone => ascii "zone="
  | status => ascii "status="
  | dryRun => ascii "dry_run="
  | logLevel => ascii "log_level="

theorem mem_all (o : EnableOption) : o ∈ all := by cases o <;> decide

/-- No token begins with another one. -/
theorem eq_of_prefix (o o' : EnableOption) (h : o.token <+: o'.token) : o = o' := by
  have hall : ∀ o ∈ all, ∀ o' ∈ all, o.token.isPrefixOf o'.token = true → o = o' := by decide
  exact hall o (mem_all o) o' (mem_all o') (List.isPrefixOf_iff_prefix.mpr h)

end EnableOption

/-- An option with its value. -/
inductive EnableSetting
  | zone (index : ℕ)
  | status (n : ℕ)
  | dryRun (on : Bool)
  | logLevel (level : DecisionLevel)

def EnableSetting.kind : EnableSetting → EnableOption
  | zone _ => .zone
  | status _ => .status
  | dryRun _ => .dryRun
  | logLevel _ => .logLevel

def LocDecl.set (conf : LocDecl) : EnableSetting → LocDecl
  | .zone index => { conf with zone := some index }
  | .status n => { conf with rejectStatus := some n }
  | .dryRun on => { conf with dryRun := some on }
  | .logLevel level => { conf with logLevel := some level }

/-- `ngx_http_error_abuse_log_levels` -/
def logLevels : List (List UInt8 × DecisionLevel) :=
  [(ascii "info", .info), (ascii "notice", .notice), (ascii "warn", .warn), (ascii "error", .err)]

/-- The labels `invalid` and `duplicate` of this handler show an argument as it is. -/
def invalidEnable {α : Type} (param : List UInt8) : Conf α :=
  emerg "invalid error_abuse parameter \"%V\"" [.str param]

def duplicateEnable {α : Type} (param : List UInt8) : Conf α :=
  emerg "duplicate error_abuse parameter \"%V\"" [.str param]

/-- The index of what `find_zone` finds. -/
def findZoneIdx (zones : List (ZoneDecl κ)) (name : List UInt8) : Option ℕ :=
  zones.findIdx? fun zone => strncmpEq zone.name name

def parseDryRun (value : List UInt8) : Option Bool :=
  if value.length = 2 && strncmpEq value (ascii "on") then some true
  else if value.length = 3 && strncmpEq value (ascii "off") then some false
  else none

/-- A branch of the loop: what becomes of the value of an option. -/
def EnableOption.parse (plat : Platform) (zones : List (ZoneDecl κ)) (o : EnableOption)
    (param value : List UInt8) : Conf EnableSetting :=
  match o with
  | .zone => do
    let index ← orElse (findZoneIdx zones value) (emerg "unknown error_abuse zone \"%V\"" [.str value])
    return .zone index
  | .status =>
    let status := atoi plat value
    if status < 400 || status > 599 then invalidEnable param else return .status status.toNat
  | .dryRun => do
    let on ← orElse (parseDryRun value) (invalidEnable param)
    return .dryRun on
  | .logLevel => do
    let level ← orElse (logLevels.find? fun level => strncmpEq value level.1) (invalidEnable param)
    return .logLevel level.2

/-- Parsing yields a value of the option that was asked for. -/
theorem kind_enableParse (plat : Platform) (zones : List (ZoneDecl κ)) (o : EnableOption)
    (param value : List UInt8) (v : EnableSetting)
    (h : (o.parse plat zones param value).accepted = some v) : v.kind = o := by
  cases o with
  | status =>
      simp only [EnableOption.parse] at h
      split_ifs at h
      · cases h
      · exact Option.some.inj h ▸ rfl
  | zone | dryRun | logLevel =>
      simp only [EnableOption.parse, Logged.accepted_bind, Option.bind_eq_some_iff] at h
      obtain ⟨_, -, h⟩ := h
      exact Option.some.inj h ▸ rfl

theorem LocDecl.set_comm (conf : LocDecl) (v v' : EnableSetting) (h : v.kind ≠ v'.kind) :
    (conf.set v').set v = (conf.set v).set v' := by
  cases v <;> cases v' <;> first | rfl | exact absurd rfl h

/-- The options of `error_abuse`. -/
def enableOptions (plat : Platform) (zones : List (ZoneDecl κ)) :
    Options EnableOption EnableSetting LocDecl where
  directive := "error_abuse"
  all := EnableOption.all
  token := EnableOption.token
  parse := EnableOption.parse plat zones
  kind := EnableSetting.kind
  set v conf := conf.set v
  mem_all := EnableOption.mem_all
  eq_of_prefix := EnableOption.eq_of_prefix
  kind_parse := kind_enableParse plat zones
  set_comm v v' conf := conf.set_comm v v'

/-! ## The handler -/

/-- The body of the loop. -/
def enableStep (plat : Platform) (zones : List (ZoneDecl κ)) (s : Gathered EnableOption LocDecl)
    (param : List UInt8) : Conf (Gathered EnableOption LocDecl) :=
  let opts := enableOptions plat zones
  match opts.find param with
  | none => invalidEnable param
  | some o =>
    if o ∈ s.seen then duplicateEnable param
    else do
      let v ← opts.parse o param (param.drop (opts.token o).length)
      return ⟨insert o s.seen, opts.set v s.values⟩

/-- `error_abuse` -/
def enable (plat : Platform) (zones : List (ZoneDecl κ)) (lcf : LocDecl)
    (args : List (List UInt8)) : Conf LocDecl :=
  if lcf.enabled.isSome then .fail [] (.message "is duplicate")
  else if args.length = 1 && strncmpEq (args.headD []) (ascii "off") then
    return { lcf with enabled := some false, zone := none }
  else do
    let gathered ← args.foldlM (enableStep plat zones) ⟨∅, { lcf with enabled := some true }⟩
    refuseIf gathered.values.zone.isNone "error_abuse requires zone=name" []
    return gathered.values

/-- `merge_loc_conf` -/
def mergeLocConf (prev conf : LocDecl) : LocDecl :=
  let enabled := (conf.enabled <|> prev.enabled).getD false
  { enabled := some enabled
    rejectStatus := some ((conf.rejectStatus <|> prev.rejectStatus).getD 429)
    logLevel := some ((conf.logLevel <|> prev.logLevel).getD .notice)
    dryRun := some ((conf.dryRun <|> prev.dryRun).getD false)
    zone := if conf.zone.isNone && enabled then prev.zone else conf.zone }

/-! ## What one directive says -/

/-- But for its messages, the loop is that of the other directives. -/
theorem accepted_enableStep (plat : Platform) (zones : List (ZoneDecl κ))
    (s : Gathered EnableOption LocDecl) (param : List UInt8) :
    (enableStep plat zones s param).accepted =
      ((enableOptions plat zones).step s param).accepted := by
  simp only [enableStep, Options.step]
  cases (enableOptions plat zones).find param with
  | none => rfl
  | some o =>
      dsimp only
      split_ifs
      · rfl
      · rfl

theorem accepted_enableLoop (plat : Platform) (zones : List (ZoneDecl κ)) (lcf : LocDecl)
    (args : List (List UInt8)) :
    (args.foldlM (enableStep plat zones) ⟨∅, lcf⟩).accepted =
      ((enableOptions plat zones).gather args lcf).accepted := by
  rw [Options.gather, Logged.accepted_foldlM, Logged.accepted_foldlM]
  exact congrArg (fun f => args.foldlM f (⟨∅, lcf⟩ : Gathered EnableOption LocDecl))
    (funext fun s => funext fun param => accepted_enableStep plat zones s param)

/-- What the directives of a block can leave in its configuration. -/
structure LocDecl.Own (zones : List (ZoneDecl κ)) (conf : LocDecl) : Prop where
  zone_lt : ∀ i, conf.zone = some i → i < zones.length
  zone_isSome : conf.enabled = some true ↔ conf.zone.isSome
  status : ∀ n, conf.rejectStatus = some n → 400 ≤ n ∧ n ≤ 599

namespace LocDecl.Own

variable {zones : List (ZoneDecl κ)} {conf : LocDecl}

theorem create (zones : List (ZoneDecl κ)) : Own zones createLocConf where
  zone_lt _ h := nomatch h
  zone_isSome := by decide
  status _ h := nomatch h

theorem mono (h : Own zones conf) (zones' : List (ZoneDecl κ)) : Own (zones ++ zones') conf where
  zone_lt i hi := by
    rw [List.length_append]
    exact Nat.lt_add_right _ (h.zone_lt i hi)
  zone_isSome := h.zone_isSome
  status := h.status

theorem zone_eq_none (h : Own zones conf) (hoff : conf.enabled ≠ some true) : conf.zone = none :=
  Option.not_isSome_iff_eq_none.mp fun hsome => hoff (h.zone_isSome.mpr hsome)

theorem exists_zone (h : Own zones conf) (hon : conf.enabled = some true) :
    ∃ i, conf.zone = some i := Option.isSome_iff_exists.mp (h.zone_isSome.mp hon)

end LocDecl.Own

/-- The arguments name the zone with this index. -/
def Names (zones : List (ZoneDecl κ)) (args : List (List UInt8)) (i : ℕ) : Prop :=
  ∃ zone name, zones[i]? = some zone ∧ EnableOption.zone.token ++ name ∈ args ∧
    strncmpEq zone.name name = true

theorem Names.lt {zones : List (ZoneDecl κ)} {args : List (List UInt8)} {i : ℕ}
    (h : Names zones args i) : i < zones.length := by
  obtain ⟨zone, name, hzone, -⟩ := h
  exact (List.getElem?_eq_some_iff.mp hzone).1

theorem Names.mono {zones : List (ZoneDecl κ)} {args : List (List UInt8)} {i : ℕ}
    (h : Names zones args i) (zones' : List (ZoneDecl κ)) : Names (zones ++ zones') args i := by
  have hlt := h.lt
  obtain ⟨zone, name, hzone, hname⟩ := h
  exact ⟨zone, name, (List.getElem?_append_left hlt).trans hzone, hname⟩

/-- What the loop keeps of a configuration that is being filled in. -/
structure LocDecl.Filling (zones : List (ZoneDecl κ)) (args : List (List UInt8)) (conf : LocDecl) :
    Prop where
  enabled : conf.enabled = some true
  named : ∀ i, conf.zone = some i → Names zones args i
  status : ∀ n, conf.rejectStatus = some n → 400 ≤ n ∧ n ≤ 599

/-- A value that is parsed keeps it. -/
theorem filling_set {plat : Platform} {zones : List (ZoneDecl κ)} {args : List (List UInt8)}
    {o : EnableOption} {value : List UInt8} {v : EnableSetting} {conf : LocDecl}
    (h : conf.Filling zones args) (hmem : o.token ++ value ∈ args)
    (hv : (o.parse plat zones (o.token ++ value) value).accepted = some v) :
    (conf.set v).Filling zones args := by
  cases v with
  | zone index =>
      obtain rfl : o = .zone := (kind_enableParse plat zones o _ _ _ hv).symm
      simp only [EnableOption.parse, Logged.accepted_bind, Option.bind_eq_some_iff,
        Logged.accepted_pure, Option.some.injEq, EnableSetting.zone.injEq] at hv
      obtain ⟨i, hi, rfl⟩ := hv
      rw [accepted_orElse (accepted_emerg ..), findZoneIdx, List.findIdx?_eq_some_iff_getElem] at hi
      obtain ⟨hlt, hname, -⟩ := hi
      refine { h with named := fun j hj => ?_ }
      obtain rfl := Option.some.inj hj
      exact ⟨zones[i], value, List.getElem?_eq_getElem hlt, hmem, hname⟩
  | status n =>
      obtain rfl : o = .status := (kind_enableParse plat zones o _ _ _ hv).symm
      simp only [EnableOption.parse] at hv
      split_ifs at hv with hbounds
      · cases hv
      · obtain rfl := EnableSetting.status.inj (Option.some.inj hv)
        simp only [Bool.or_eq_true, decide_eq_true_eq, not_or, not_lt] at hbounds
        refine { h with status := fun n hn => ?_ }
        obtain rfl := Option.some.inj hn
        omega
  | dryRun | logLevel => exact { h with }

/-- What a directive that is accepted does: it is the first one, and it is `off` or names a zone. -/
theorem accepted_enable {plat : Platform} {zones : List (ZoneDecl κ)} {lcf conf : LocDecl}
    {args : List (List UInt8)} (h : (enable plat zones lcf args).accepted = some conf) :
    lcf.enabled = none ∧ (conf = { lcf with enabled := some false, zone := none } ∨
      ∃ gathered, ((enableOptions plat zones).gather args
        { lcf with enabled := some true }).accepted = some gathered ∧
        gathered.values.zone.isSome ∧ conf = gathered.values) := by
  rw [enable] at h
  split_ifs at h with hdup hoff
  · cases h
  · rw [Logged.accepted_pure, Option.some.injEq] at h
    exact ⟨by simpa using hdup, .inl h.symm⟩
  · simp only [Logged.accepted_bind, accepted_enableLoop, Option.bind_eq_some_iff,
      accepted_refuseIf, Logged.accepted_pure, Option.some.injEq] at h
    obtain ⟨gathered, hgather, _, hzone, rfl⟩ := h
    exact ⟨by simpa using hdup, .inr ⟨gathered, hgather, by simpa using hzone, rfl⟩⟩

/-- A directive that is accepted leaves a configuration of the block's own, that says so and names
its zone. -/
theorem own_of_enable {plat : Platform} {zones : List (ZoneDecl κ)} {conf : LocDecl}
    {args : List (List UInt8)} (h : (enable plat zones createLocConf args).accepted = some conf) :
    conf.Own zones ∧ conf.enabled.isSome ∧ ∀ i, conf.zone = some i → Names zones args i := by
  obtain ⟨-, rfl | ⟨gathered, hgather, hzone, rfl⟩⟩ := accepted_enable h
  · exact ⟨⟨fun _ hi => (nomatch hi), by simp, fun _ hn => (nomatch hn)⟩, rfl, fun _ hi => nomatch hi⟩
  · have hstart : LocDecl.Filling zones args { createLocConf with enabled := some true } :=
      ⟨rfl, fun _ hi => (nomatch hi), fun _ hn => nomatch hn⟩
    have hfilling : gathered.values.Filling zones args :=
      Options.gather_invariant (I := LocDecl.Filling zones args) (enableOptions plat zones) hstart
        (fun o value v s hmem hv hs => filling_set hs hmem hv) hgather
    refine ⟨⟨fun i hi => (hfilling.named i hi).lt, ?_, hfilling.status⟩, ?_, hfilling.named⟩
    · simp [hfilling.enabled, hzone]
    · rw [hfilling.enabled]
      rfl

/-- The order of the arguments does not matter. -/
theorem accepted_enable_perm (plat : Platform) (zones : List (ZoneDecl κ)) (lcf : LocDecl)
    {args args' : List (List UInt8)} (h : args.Perm args') :
    (enable plat zones lcf args).accepted = (enable plat zones lcf args').accepted := by
  by_cases hone : args.length = 1
  · obtain ⟨param, rfl⟩ := List.length_eq_one_iff.mp hone
    rw [List.perm_singleton.mp h.symm]
  · simp only [enable, hone, h.length_eq ▸ hone, decide_false, Bool.false_and, Bool.false_eq_true,
      if_false]
    split_ifs
    · rfl
    · simp only [Logged.accepted_bind, accepted_enableLoop,
        Options.gather_perm (enableOptions plat zones) h]

/-! ## Inheritance -/

/-- What a block is configured with, from its own configuration outwards. The outermost block is
that of `http`, and is never merged. -/
def effective : List LocDecl → LocDecl
  | [] => createLocConf
  | [conf] => conf
  | conf :: outer :: chain => mergeLocConf (effective (outer :: chain)) conf

/-- What the nearest block says that says anything. -/
structure Nearest (chain : List LocDecl) (conf : LocDecl) : Prop where
  enabled : conf.enabled = some ((chain.findSome? LocDecl.enabled).getD false)
  zone : conf.zone = (chain.find? fun conf => conf.enabled.isSome).bind LocDecl.zone
  rejectStatus : conf.rejectStatus = some ((chain.findSome? LocDecl.rejectStatus).getD 429)
  logLevel : conf.logLevel = some ((chain.findSome? LocDecl.logLevel).getD .notice)
  dryRun : conf.dryRun = some ((chain.findSome? LocDecl.dryRun).getD false)

/-- An option that is merged step by step is the nearest one that is given. -/
theorem effective_option {α : Type} (f : LocDecl → Option α) (default : α)
    (hmerge : ∀ prev conf, f (mergeLocConf prev conf) = some ((f conf <|> f prev).getD default))
    (conf outer : LocDecl) (chain : List LocDecl) :
    f (effective (conf :: outer :: chain)) =
      some (((conf :: outer :: chain).findSome? f).getD default) := by
  induction chain generalizing conf outer with
  | nil =>
      rw [effective, effective, hmerge]
      cases hc : f conf <;> cases ho : f outer <;> simp [hc, ho]
  | cons next chain ih =>
      rw [effective, hmerge, ih outer next, List.findSome?_cons (a := conf)]
      cases f conf <;> rfl

variable {zones : List (ZoneDecl κ)}

/-- Merging passes a zone on together with `enabled`. -/
theorem zone_mergeLocConf {prev conf : LocDecl} (hprev : prev.Own zones) (hconf : conf.Own zones) :
    (mergeLocConf prev conf).zone = if conf.enabled.isSome then conf.zone else prev.zone := by
  rw [mergeLocConf]
  rcases hc : conf.enabled with _ | _ | _
  · rw [hconf.zone_eq_none (by simp [hc])]
    rcases hp : prev.enabled with _ | _ | _
    · simp [hprev.zone_eq_none (by simp [hp])]
    · simp [hprev.zone_eq_none (by simp [hp])]
    · simp
  · simp
  · obtain ⟨i, hi⟩ := hconf.exists_zone hc
    simp [hi]

theorem enabled_mergeLocConf (prev conf : LocDecl) : (mergeLocConf prev conf).enabled = some true ↔
    conf.enabled = some true ∨ conf.enabled = none ∧ prev.enabled = some true := by
  rcases hc : conf.enabled with _ | _ | _ <;> rcases hp : prev.enabled with _ | _ | _ <;>
    simp [mergeLocConf, hc, hp]

/-- Merging keeps what is so of the blocks' own configurations. -/
theorem LocDecl.Own.merge {prev conf : LocDecl} (hprev : prev.Own zones) (hconf : conf.Own zones) :
    (mergeLocConf prev conf).Own zones where
  zone_lt i hi := by
    rw [zone_mergeLocConf hprev hconf] at hi
    split_ifs at hi
    · exact hconf.zone_lt i hi
    · exact hprev.zone_lt i hi
  zone_isSome := by
    rw [enabled_mergeLocConf, zone_mergeLocConf hprev hconf]
    cases hc : conf.enabled with
    | none => simpa using hprev.zone_isSome
    | some on => simpa [hc] using hconf.zone_isSome
  status n hn := by
    simp only [mergeLocConf, Option.some.injEq] at hn
    subst hn
    cases hc : conf.rejectStatus with
    | some n => exact hconf.status n hc
    | none =>
        cases hp : prev.rejectStatus with
        | some n => exact hprev.status n hp
        | none => exact ⟨by decide, by decide⟩

theorem own_effective {chain : List LocDecl} (hown : ∀ conf ∈ chain, conf.Own zones) :
    (effective chain).Own zones := by
  induction chain with
  | nil => exact .create zones
  | cons conf chain ih =>
      have houter := ih fun conf' h => hown conf' (List.mem_cons_of_mem conf h)
      cases chain with
      | nil => exact hown conf List.mem_cons_self
      | cons outer chain => exact houter.merge (hown conf List.mem_cons_self)

/-- The zone is that of the nearest directive. -/
theorem effective_zone {chain : List LocDecl} (hown : ∀ conf ∈ chain, conf.Own zones) :
    (effective chain).zone =
      (chain.find? fun conf => conf.enabled.isSome).bind LocDecl.zone := by
  induction chain with
  | nil => rfl
  | cons conf chain ih =>
      have hconf := hown conf List.mem_cons_self
      have houter : ∀ conf' ∈ chain, conf'.Own zones :=
        fun conf' h => hown conf' (List.mem_cons_of_mem conf h)
      have hnearest : (effective (conf :: chain)).zone =
          if conf.enabled.isSome then conf.zone else (effective chain).zone := by
        cases chain with
        | nil =>
            split_ifs with hsome
            · rfl
            · exact hconf.zone_eq_none fun hon => hsome (by rw [hon]; rfl)
        | cons outer chain => exact zone_mergeLocConf (own_effective houter) hconf
      rw [hnearest]
      split_ifs with hsome
      · rw [List.find?_cons_of_pos (by simpa using hsome)]
        rfl
      · rw [List.find?_cons_of_neg (by simpa using hsome)]
        exact ih houter

/-- What a block inside another one is configured with. -/
theorem nearest_effective {conf outer : LocDecl} {chain : List LocDecl}
    (hown : ∀ conf' ∈ conf :: outer :: chain, conf'.Own zones) :
    Nearest (conf :: outer :: chain) (effective (conf :: outer :: chain)) where
  enabled := effective_option LocDecl.enabled false (fun _ _ => rfl) conf outer chain
  zone := effective_zone hown
  rejectStatus := effective_option LocDecl.rejectStatus 429 (fun _ _ => rfl) conf outer chain
  logLevel := effective_option LocDecl.logLevel .notice (fun _ _ => rfl) conf outer chain
  dryRun := effective_option LocDecl.dryRun false (fun _ _ => rfl) conf outer chain

/-! ## Reading a configuration -/

/-- A directive of this module in the block of `http`, or a brace; `room` says whether
`create_loc_conf` can allocate. -/
inductive Directive
  | errorAbuseZone (args : List (List UInt8))
  | errorAbuseRedis (args : List (List UInt8))
  | errorAbuse (args : List (List UInt8))
  | enter (room : Bool)
  | leave

/-- What has been read. The blocks are numbered as they open, that of `http` is number 0; `here`
is the current one and those around it, innermost first, and `paths` has the same for each. -/
structure Reading (κ : Type) where
  zones : List (ZoneDecl κ)
  redis : RedisDecl
  confs : List LocDecl
  paths : List (List ℕ)
  here : List ℕ

namespace Reading

def start : Reading κ := ⟨[], {}, [createLocConf], [[0]], [0]⟩

/-- The own configuration of a block. -/
def conf (rd : Reading κ) (i : ℕ) : LocDecl := rd.confs.getD i createLocConf

/-- Those of a block and the blocks around it. -/
def chain (rd : Reading κ) (path : List ℕ) : List LocDecl := path.map rd.conf

/-- What nginx checks of a directive before it calls the handler. -/
def allow (name : String) (context : Bool) (args : List (List UInt8)) : Conf Unit := do
  refuseIf (!context) "\"%s\" directive is not allowed here" [.cstr name]
  refuseIf (args.length = 0) "invalid number of arguments in \"%s\" directive" [.cstr name]

def step (core : ConfCore κ) (rd : Reading κ) : Directive → Conf (Reading κ)
  | .errorAbuseZone args => do
    allow "error_abuse_zone" (rd.here.length = 1) args
    let zone ← abuseZone core rd.zones args
    return { rd with zones := rd.zones ++ [zone] }
  | .errorAbuseRedis args => do
    allow "error_abuse_redis" (rd.here.length = 1) args
    let redis ← abuseRedis core rd.redis args
    return { rd with redis := redis }
  | .errorAbuse args => do
    allow "error_abuse" true args
    let i := rd.here.headD 0
    let conf ← enable core.plat rd.zones (rd.conf i) args
    return { rd with confs := rd.confs.set i conf }
  | .enter room => do
    require room
    let here := rd.confs.length :: rd.here
    return { rd with confs := rd.confs ++ [createLocConf], paths := rd.paths ++ [here], here := here }
  | .leave =>
    match rd.here with
    | _ :: outer :: here => return { rd with here := outer :: here }
    | _ => .fail [] (.message "unexpected \"\x7d\"")

/-- `init`, as far as it can refuse a configuration by itself. -/
def init (rd : Reading κ) : Conf Unit :=
  match rd.zones.find? fun zone => zone.redis && !rd.redis.configured with
  | some zone => emerg "redis=on in zone \"%V\" requires error_abuse_redis" [.str zone.name]
  | none => pure ()

end Reading

/-- A whole configuration. -/
def readConf (core : ConfCore κ) (file : List Directive) : Conf (Reading κ) := do
  let rd ← file.foldlM (Reading.step core) .start
  rd.init
  return rd

/-! ## What is read -/

/-- The own configuration of a block is that of its one directive, if it has any. -/
def LocDecl.Given (core : ConfCore κ) (zones : List (ZoneDecl κ)) (conf : LocDecl) : Prop :=
  conf = createLocConf ∨ ∃ zones' args, zones' <+: zones ∧
    (enable core.plat zones' createLocConf args).accepted = some conf ∧
    ∀ i, conf.zone = some i → Names zones args i

namespace LocDecl.Given

variable {core : ConfCore κ} {conf : LocDecl}

theorem mono (h : Given core zones conf) (zones' : List (ZoneDecl κ)) :
    Given core (zones ++ zones') conf := by
  rcases h with rfl | ⟨zones'', args, hprefix, henable, hnamed⟩
  · exact .inl rfl
  · exact .inr ⟨zones'', args, hprefix.trans (List.prefix_append ..), henable,
      fun i hi => (hnamed i hi).mono zones'⟩

theorem own (h : Given core zones conf) : conf.Own zones := by
  rcases h with rfl | ⟨zones', args, ⟨more, rfl⟩, henable, -⟩
  · exact .create zones
  · exact (own_of_enable henable).1.mono more

/-- A block that has had a directive does not get another one. -/
theorem enable {conf' : LocDecl} {args : List (List UInt8)} (h : Given core zones conf)
    (henable : (ErrorAbuse.enable core.plat zones conf args).accepted = some conf') :
    Given core zones conf' := by
  rcases h with rfl | ⟨zones', args', -, hgiven, -⟩
  · exact .inr ⟨zones, args, List.prefix_rfl, henable, (own_of_enable henable).2.2⟩
  · have hsome := (own_of_enable hgiven).2.1
    rw [(accepted_enable henable).1] at hsome
    cases hsome

end LocDecl.Given

/-- What the directives keep. -/
structure Reading.Ok (core : ConfCore κ) (rd : Reading κ) : Prop where
  sound : ∀ (i : ℕ) (h : i < rd.zones.length), ∃ args,
    rd.zones[i].Sound core (rd.zones.take i) args
  keyPrefix : Braceless rd.redis.keyPrefix
  given : ∀ conf ∈ rd.confs, conf.Given core rd.zones

namespace Reading.Ok

variable {core : ConfCore κ} {rd rd' : Reading κ}

theorem start (core : ConfCore κ) : Ok core (Reading.start : Reading κ) where
  sound _ h := nomatch h
  keyPrefix := ⟨List.not_mem_nil, List.not_mem_nil⟩
  given _ h := .inl (List.mem_singleton.mp h)

theorem given_conf (h : rd.Ok core) (i : ℕ) : (rd.conf i).Given core rd.zones := by
  rw [Reading.conf, List.getD_eq_getElem?_getD]
  cases hconf : rd.confs[i]? with
  | none => exact .inl rfl
  | some conf => exact h.given conf (List.mem_of_getElem? hconf)

theorem step (h : rd.Ok core) {directive : Directive}
    (hstep : (rd.step core directive).accepted = some rd') : rd'.Ok core := by
  cases directive with
  | errorAbuseZone args =>
      simp only [Reading.step, Logged.accepted_bind, Option.bind_eq_some_iff, Logged.accepted_pure,
        Option.some.injEq] at hstep
      obtain ⟨_, -, zone, hzone, rfl⟩ := hstep
      refine ⟨fun i hi => ?_, h.keyPrefix, fun conf hconf => (h.given conf hconf).mono [zone]⟩
      by_cases hold : i < rd.zones.length
      · simp only [List.getElem_append_left hold, List.take_append_of_le_length hold.le]
        exact h.sound i hold
      · have hlast : i = rd.zones.length := by
          rw [List.length_append, List.length_singleton] at hi
          omega
        subst hlast
        simp only [List.getElem_concat_length, List.take_left]
        exact ⟨args, sound_of_abuseZone hzone⟩
  | errorAbuseRedis args =>
      simp only [Reading.step, Logged.accepted_bind, Option.bind_eq_some_iff, Logged.accepted_pure,
        Option.some.injEq] at hstep
      obtain ⟨_, -, redis, hredis, rfl⟩ := hstep
      exact { h with keyPrefix := (keyPrefix_of_abuseRedis hredis).2 }
  | errorAbuse args =>
      simp only [Reading.step, Logged.accepted_bind, Option.bind_eq_some_iff, Logged.accepted_pure,
        Option.some.injEq] at hstep
      obtain ⟨_, -, conf, hconf, rfl⟩ := hstep
      refine { h with given := fun conf' hconf' => ?_ }
      rcases List.mem_or_eq_of_mem_set hconf' with hold | rfl
      · exact h.given conf' hold
      · exact (h.given_conf _).enable hconf
  | enter room =>
      simp only [Reading.step, Logged.accepted_bind, Option.bind_eq_some_iff, Logged.accepted_pure,
        Option.some.injEq] at hstep
      obtain ⟨_, -, rfl⟩ := hstep
      refine { h with given := fun conf hconf => ?_ }
      rcases List.mem_append.mp hconf with hold | hnew
      · exact h.given conf hold
      · exact .inl (List.mem_singleton.mp hnew)
  | leave =>
      simp only [Reading.step] at hstep
      split at hstep
      · rw [Logged.accepted_pure] at hstep
        exact Option.some.inj hstep ▸ { h with }
      · cases hstep

theorem run {file : List Directive} (h : rd.Ok core)
    (hrun : (file.foldlM (Reading.step core) rd).accepted = some rd') : rd'.Ok core := by
  rw [Logged.accepted_foldlM] at hrun
  exact foldlM_invariant (fun _ _ _ _ hs hstep => hs.step hstep) h hrun

end Reading.Ok

theorem accepted_readConf {core : ConfCore κ} {file : List Directive} {rd : Reading κ}
    (h : (readConf core file).accepted = some rd) :
    rd.Ok core ∧ ∀ zone ∈ rd.zones, zone.redis = true → rd.redis.configured = true := by
  simp only [readConf, Logged.accepted_bind, Option.bind_eq_some_iff, Logged.accepted_pure,
    Option.some.injEq] at h
  obtain ⟨rd', hrun, _, hinit, rfl⟩ := h
  refine ⟨(Reading.Ok.start core).run hrun, fun zone hmem hredis => ?_⟩
  rw [Reading.init] at hinit
  split at hinit
  · cases hinit
  · next hnone =>
      have hno := List.find?_eq_none.mp hnone zone hmem
      simpa [hredis] using hno

/-- **What a location is configured with.** In every configuration that is read, however its blocks
are nested and wherever in them the directives stand: a block inside that of `http` has for each
option what the nearest block around it says, else the default; what a block says is what its one
directive says. Its rejections have an error status, and it is enabled if and only if it has a
zone; the zone has been declared, and if it needs Redis then Redis is configured. -/
theorem location_configured (core : ConfCore κ) (file : List Directive) (rd : Reading κ)
    (h : (readConf core file).accepted = some rd) :
    ∀ path ∈ rd.paths, 2 ≤ path.length →
      let conf := effective (rd.chain path)
      Nearest (rd.chain path) conf ∧
      (∀ own ∈ rd.chain path, own.Given core rd.zones) ∧
      (∃ n, conf.rejectStatus = some n ∧ 400 ≤ n ∧ n ≤ 599) ∧
      (conf.enabled = some true ↔ conf.zone.isSome) ∧
      ∀ i, conf.zone = some i → ∃ zone, rd.zones[i]? = some zone ∧
        (zone.redis = true → rd.redis.configured = true) := by
  intro path _ hlen conf
  obtain ⟨hok, hredis⟩ := accepted_readConf h
  have hgiven : ∀ own ∈ rd.chain path, own.Given core rd.zones := by
    intro own hown
    obtain ⟨i, -, rfl⟩ := List.mem_map.mp hown
    exact hok.given_conf i
  have howns : ∀ own ∈ rd.chain path, own.Own rd.zones := fun own hown => (hgiven own hown).own
  have hconf : conf.Own rd.zones := own_effective howns
  have hnearest : Nearest (rd.chain path) conf := by
    obtain ⟨i, j, outer, rfl⟩ : ∃ i j outer, path = i :: j :: outer := by
      match path, hlen with
      | i :: j :: outer, _ => exact ⟨i, j, outer, rfl⟩
    exact nearest_effective howns
  refine ⟨hnearest, hgiven, ⟨_, hnearest.rejectStatus, hconf.status _ hnearest.rejectStatus⟩,
    hconf.zone_isSome, fun i hi => ?_⟩
  have hlt := hconf.zone_lt i hi
  exact ⟨rd.zones[i], List.getElem?_eq_getElem hlt, hredis _ (List.getElem_mem hlt)⟩

/-- A location inside a block that says `off`, inside one that names a zone. -/
def nestedFile : List Directive :=
  [.errorAbuseZone [ascii "zone=one:65536"], .enter true, .enter true, .errorAbuse [ascii "off"],
    .enter true, .errorAbuse [ascii "dry_run=on", ascii "zone=one"], .leave, .leave,
    .errorAbuse [ascii "zone=one", ascii "status=503"], .leave]

theorem location_configured_nested :
    ∃ rd, (readConf .sample nestedFile).accepted = some rd ∧
      let conf := effective (rd.chain [3, 2, 1, 0])
      Nearest (rd.chain [3, 2, 1, 0]) conf ∧
      (∀ own ∈ rd.chain [3, 2, 1, 0], own.Given .sample rd.zones) ∧
      (∃ n, conf.rejectStatus = some n ∧ 400 ≤ n ∧ n ≤ 599) ∧
      (conf.enabled = some true ↔ conf.zone.isSome) ∧
      ∀ i, conf.zone = some i → ∃ zone, rd.zones[i]? = some zone ∧
        (zone.redis = true → rd.redis.configured = true) := by
  let rd := (readConf .sample nestedFile).accepted.get (by decide +kernel)
  have hrd : (readConf .sample nestedFile).accepted = some rd := (Option.some_get _).symm
  exact ⟨rd, hrd, location_configured .sample nestedFile rd hrd [3, 2, 1, 0] (by decide +kernel)
    (by decide)⟩

/-- A status is inherited past a directive that says `off`. -/
example : (readConf .sample nestedFile).accepted.map (fun rd => effective (rd.chain [3, 2, 1, 0])) =
    some ⟨some 0, some 503, some .notice, some true, some true⟩ := by decide +kernel

/-! ## The order of arguments -/

/-- The same directive, its arguments in any order. -/
inductive Directive.Perm : Directive → Directive → Prop
  | errorAbuseZone {args args' : List (List UInt8)} : args.Perm args' →
      Perm (.errorAbuseZone args) (.errorAbuseZone args')
  | errorAbuseRedis {args args' : List (List UInt8)} : args.Perm args' →
      Perm (.errorAbuseRedis args) (.errorAbuseRedis args')
  | errorAbuse {args args' : List (List UInt8)} : args.Perm args' →
      Perm (.errorAbuse args) (.errorAbuse args')
  | enter (room : Bool) : Perm (.enter room) (.enter room)
  | leave : Perm .leave .leave

theorem accepted_abuseZone_perm (core : ConfCore κ) (zones : List (ZoneDecl κ))
    {args args' : List (List UInt8)} (h : args.Perm args') :
    (abuseZone core zones args).accepted = (abuseZone core zones args').accepted := by
  rw [accepted_abuseZone, accepted_abuseZone, Options.gather_perm (zoneOptions core) h]

theorem accepted_step_perm (core : ConfCore κ) (rd : Reading κ) {directive directive' : Directive}
    (h : directive.Perm directive') :
    (rd.step core directive).accepted = (rd.step core directive').accepted := by
  have hallow : ∀ name context {args args' : List (List UInt8)}, args.Perm args' →
      Reading.allow name context args = Reading.allow name context args' := by
    intro name context args args' hargs
    rw [Reading.allow, Reading.allow, hargs.length_eq]
  cases h with
  | errorAbuseZone hargs =>
      simp only [Reading.step, Logged.accepted_bind, hallow _ _ hargs,
        accepted_abuseZone_perm core rd.zones hargs]
  | errorAbuseRedis hargs =>
      simp only [Reading.step, Logged.accepted_bind, hallow _ _ hargs,
        accepted_abuseRedis_perm core rd.redis hargs]
  | errorAbuse hargs =>
      simp only [Reading.step, Logged.accepted_bind, hallow _ _ hargs,
        accepted_enable_perm core.plat rd.zones (rd.conf (rd.here.headD 0)) hargs]
  | enter room => rfl
  | leave => rfl

/-- **The order of arguments does not matter**, in whatever directives of a configuration: it is
refused in either order, or read as the same zones, Redis and locations. -/
theorem readConf_perm (core : ConfCore κ) (file file' : List Directive)
    (h : List.Forall₂ Directive.Perm file file') :
    (readConf core file).accepted = (readConf core file').accepted := by
  have hloop : ∀ rd : Reading κ, (file.foldlM (Reading.step core) rd).accepted =
      (file'.foldlM (Reading.step core) rd).accepted := by
    induction h with
    | nil => exact fun rd => rfl
    | cons hd _ ih =>
        intro rd
        rw [List.foldlM_cons, List.foldlM_cons, Logged.accepted_bind, Logged.accepted_bind,
          accepted_step_perm core rd hd]
        exact congrArg _ (funext ih)
  rw [readConf, readConf, Logged.accepted_bind, Logged.accepted_bind, hloop]

theorem readConf_perm_nested : (readConf ConfCore.sample nestedFile).accepted =
    (readConf .sample [.errorAbuseZone [ascii "zone=one:65536"], .enter true, .enter true,
      .errorAbuse [ascii "off"], .enter true, .errorAbuse [ascii "zone=one", ascii "dry_run=on"],
      .leave, .leave, .errorAbuse [ascii "status=503", ascii "zone=one"], .leave]).accepted :=
  readConf_perm .sample _ _ (.cons (.errorAbuseZone (.refl _)) (.cons (.enter true)
    (.cons (.enter true) (.cons (.errorAbuse (.refl _)) (.cons (.enter true)
      (.cons (.errorAbuse (.swap ..)) (.cons .leave (.cons .leave
        (.cons (.errorAbuse (.swap ..)) (.cons .leave .nil))))))))))

/-! ## Hosts with one configuration -/

/-- What hosts that share a Redis rely on: no braces in names, and zones of the same name have the
same configuration. -/
structure Site.Uniform {ζ : Type} (site : Site ζ) : Prop where
  keyPrefix : Braceless site.redis.keyPrefix
  name : ∀ zone, Braceless (site.zones zone).name
  alike : ∀ zone zone', (site.zones zone).name = (site.zones zone').name →
    site.zones zone = site.zones zone'

/-- No two zones have the same name. -/
theorem Reading.Ok.eq_of_name {core : ConfCore κ} {rd : Reading κ} (h : rd.Ok core) {i j : ℕ}
    (hi : i < rd.zones.length) (hj : j < rd.zones.length)
    (hname : rd.zones[i].name = rd.zones[j].name) : i = j := by
  have hlt : ∀ {i j : ℕ} (hi : i < rd.zones.length) (hj : j < rd.zones.length), i < j →
      rd.zones[i].name ≠ rd.zones[j].name := by
    intro i j hi hj hij
    obtain ⟨args, hsound⟩ := h.sound j hj
    exact hsound.name_unique _ (List.mem_take_iff_getElem.mpr ⟨i, lt_min hij hi, rfl⟩)
  rcases lt_trichotomy i j with hij | rfl | hij
  · exact absurd hname (hlt hi hj hij)
  · rfl
  · exact absurd hname.symm (hlt hj hi hij)

/-- **A configuration that is read is fit for hosts that share a Redis.** Any number of hosts can
serve requests under it: every zone has a configuration within its bounds, the hosts agree on what
a name stands for, and a Redis key that two of them use is of one zone, one client and one kind. -/
theorem hosts_configured (η : Type) (core : ConfCore κ) (file : List Directive) (rd : Reading κ)
    (h : (readConf core file).accepted = some rd) (zoneCore : Core)
    (sha256 : List UInt8 → Digest) :
    ∃ site : Site (η × Fin rd.zones.length), site.core = zoneCore ∧ site.sha256 = sha256 ∧
      site.redis = rd.redis.conf core.plat ∧ site.Uniform ∧
      (∀ host i, ∃ args, ∃ hsound : rd.zones[i].Sound core (rd.zones.take i) args,
        site.zones (host, i) = hsound.conf) ∧
      ∀ (host host' : η) (i j : Fin rd.zones.length) (key key' : Digest) (kind kind' : KeyKind),
        (buildRedisKeys site.redis (site.zones (host, i)) key).get kind =
          (buildRedisKeys site.redis (site.zones (host', j)) key').get kind' →
        i = j ∧ key = key' ∧ kind = kind' := by
  obtain ⟨hok, -⟩ := accepted_readConf h
  choose args hsound using hok.sound
  let site : Site (η × Fin rd.zones.length) :=
    ⟨zoneCore, fun zone => (hsound zone.2 zone.2.isLt).conf, rd.redis.conf core.plat, sha256⟩
  have hname : ∀ zone, Braceless (site.zones zone).name := fun zone =>
    (hsound zone.2 zone.2.isLt).name_braceless
  have hsame : ∀ zone zone', (site.zones zone).name = (site.zones zone').name → zone.2 = zone'.2 :=
    fun zone zone' heq => Fin.ext (hok.eq_of_name zone.2.isLt zone'.2.isLt heq)
  refine ⟨site, rfl, rfl, rfl, ⟨hok.keyPrefix, hname, fun zone zone' heq => ?_⟩,
    fun host i => ⟨_, hsound i i.isLt, rfl⟩, fun host host' i j key key' kind kind' hget => ?_⟩
  · show (hsound zone.2 zone.2.isLt).conf = (hsound zone'.2 zone'.2.isLt).conf
    rw [hsame zone zone' heq]
  · obtain ⟨-, heq, hkey, hkind⟩ := get_buildRedisKeys_inj hok.keyPrefix (hname (host, i))
      hok.keyPrefix (hname (host', j)) hget
    exact ⟨hsame (host, i) (host', j) heq, hkey, hkind⟩

theorem hosts_configured_nested : ∃ rd, (readConf .sample nestedFile).accepted = some rd ∧
    ∃ site : Site (Bool × Fin rd.zones.length), site.core = .unbalanced ∧
      site.sha256 = (fun _ => .ofA) ∧ site.redis = rd.redis.conf .lp64 ∧ site.Uniform ∧
      (∀ host i, ∃ args, ∃ hsound : rd.zones[i].Sound .sample (rd.zones.take i) args,
        site.zones (host, i) = hsound.conf) ∧
      ∀ (host host' : Bool) (i j : Fin rd.zones.length) (key key' : Digest) (kind kind' : KeyKind),
        (buildRedisKeys site.redis (site.zones (host, i)) key).get kind =
          (buildRedisKeys site.redis (site.zones (host', j)) key').get kind' →
        i = j ∧ key = key' ∧ kind = kind' := by
  let rd := (readConf .sample nestedFile).accepted.get (by decide +kernel)
  have hrd : (readConf .sample nestedFile).accepted = some rd := (Option.some_get _).symm
  exact ⟨rd, hrd, hosts_configured Bool .sample nestedFile rd hrd .unbalanced fun _ => .ofA⟩

end ErrorAbuse
