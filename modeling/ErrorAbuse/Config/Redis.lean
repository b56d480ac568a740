import ErrorAbuse.Config.Zone

/-!
# The directive `error_abuse_redis`

Its loop gathers seven options in `RedisArgs`, which starts from the defaults. The rest of the
handler resolves the host, and falls back to the name where that fails: a reload does not depend
on the resolver.
-/

namespace ErrorAbuse

open Lib

variable {κ : Type}

/-- `ngx_http_error_abuse_redis_conf_t` -/
structure RedisDecl where
  host : List UInt8 := []
  sni : List UInt8 := []
  keyPrefix : List UInt8 := []
  user : List UInt8 := []
  password : List UInt8 := []
  port : ℕ := 6379
  db : ℕ := 0
  timeout : ℕ := 0
  tls : Bool := false
  configured : Bool := false
  deriving DecidableEq, Repr

/-- What the worker uses of it after the connection is set up. -/
def RedisDecl.conf (plat : Platform) (redis : RedisDecl) : RedisConf where
  plat := plat
  user := redis.user
  password := redis.password
  db := redis.db
  tls := redis.tls
  keyPrefix := redis.keyPrefix

/-! ## The options -/

inductive RedisOption
  | host
  | port
  | keyPrefix
  | timeout
  | user
  | password
  | db
  deriving DecidableEq, Repr

namespace RedisOption

/-- In the order of the comparisons. -/
def all : List RedisOption := [host, port, keyPrefix, timeout, user, password, db]

def token : RedisOption → List UInt8
  | host => ascii "host="
  | port => ascii "port="
  | keyPrefix => ascii "prefix="
  | timeout => ascii "timeout="
  | user => ascii "user="
  | password => passwordToken
  | db => ascii "db="

theorem mem_all (o : RedisOption) : o ∈ all := by cases o <;> decide

/-- No token begins with another one. -/
theorem eq_of_prefix (o o' : RedisOption) (h : o.token <+: o'.token) : o = o' := by
  have hall : ∀ o ∈ all, ∀ o' ∈ all, o.token.isPrefixOf o'.token = true → o = o' := by decide
  exact hall o (mem_all o) o' (mem_all o') (List.isPrefixOf_iff_prefix.mpr h)

end RedisOption

/-- An option with its value. -/
inductive RedisSetting
  | host (name : List UInt8) (tls : Bool)
  | port (n : ℕ)
  | keyPrefix (value : List UInt8)
  | timeout (msec : ℕ)
  | user (value : List UInt8)
  | password (value : List UInt8)
  | db (n : ℕ)

def RedisSetting.kind : RedisSetting → RedisOption
  | host .. => .host
  | port _ => .port
  | keyPrefix _ => .keyPrefix
  | timeout _ => .timeout
  | user _ => .user
  | password _ => .password
  | db _ => .db

/-- The variables of the handler, with their defaults. -/
structure RedisArgs where
  host : List UInt8 := []
  tls : Bool := false
  port : ℕ
  keyPrefix : List UInt8 := ascii "ea_"
  timeout : ℕ := 100
  user : List UInt8 := []
  password : List UInt8 := []
  db : ℕ := 0

def RedisArgs.set (s : RedisArgs) : RedisSetting → RedisArgs
  | .host name tls => { s with host := name, tls := s.tls || tls }
  | .port n => { s with port := n }
  | .keyPrefix value => { s with keyPrefix := value }
  | .timeout msec => { s with timeout := msec }
  | .user value => { s with user := value }
  | .password value => { s with password := value }
  | .db n => { s with db := n }

/-! ## Parsing -/

/-- The host without its scheme, and whether the scheme asks for TLS. -/
def parseHost (host : List UInt8) : List UInt8 × Bool :=
  if 6 ≤ host.length && (ascii "tls://").isPrefixOf host then (host.drop 6, true)
  else if 9 ≤ host.length && (ascii "rediss://").isPrefixOf host then (host.drop 9, true)
  else (host, false)

/-- A branch of the loop: what becomes of the value of an option. -/
def RedisOption.parse (core : ConfCore κ) (o : RedisOption) (param value : List UInt8) :
    Conf RedisSetting :=
  let bad {α : Type} : Conf α := invalid "error_abuse_redis" param
  match o with
  | .host =>
    let host := parseHost value
    if host.1.length = 0 then bad else return .host host.1 host.2
  | .port =>
    let n := atoi core.plat value
    if n < 1 || n > 65535 then bad else return .port n.toNat
  | .keyPrefix =>
    if value.length = 0 || ((ngxStrlchr 123 value).isSome || (ngxStrlchr 125 value).isSome) then bad
    else return .keyPrefix value
  | .timeout => do
    let timeout ← orElse (core.parseTime value false) bad
    if timeout = 0 then bad else return .timeout timeout
  | .user => if value.length = 0 then bad else return .user value
  | .password => if value.length = 0 then bad else return .password value
  | .db =>
    let db := atoi core.plat value
    if db < 0 || db > 65535 then bad else return .db db.toNat

/-- Parsing yields a value of the option that was asked for. -/
theorem kind_redisParse (core : ConfCore κ) (o : RedisOption) (param value : List UInt8)
    (v : RedisSetting) (h : (o.parse core param value).accepted = some v) : v.kind = o := by
  cases o <;> simp only [RedisOption.parse, accepted_ite_invalid, Logged.accepted_bind,
    Logged.accepted_pure, Option.bind_eq_some_iff, Option.some.injEq] at h
  case timeout =>
    obtain ⟨_, -, -, rfl⟩ := h
    rfl
  case host | port | keyPrefix | user | password | db =>
    obtain ⟨-, rfl⟩ := h
    rfl

theorem RedisArgs.set_comm (s : RedisArgs) (v v' : RedisSetting) (h : v.kind ≠ v'.kind) :
    (s.set v').set v = (s.set v).set v' := by
  cases v <;> cases v' <;> first | rfl | exact absurd rfl h

/-- The options of `error_abuse_redis`. -/
def redisOptions (core : ConfCore κ) : Options RedisOption RedisSetting RedisArgs where
  directive := "error_abuse_redis"
  all := RedisOption.all
  token := RedisOption.token
  parse := RedisOption.parse core
  kind := RedisSetting.kind
  set v s := s.set v
  mem_all := RedisOption.mem_all
  eq_of_prefix := RedisOption.eq_of_prefix
  kind_parse := kind_redisParse core
  set_comm v v' s := s.set_comm v v'

/-! ## The handler -/

/-- The address that hiredis is given. -/
def resolveHost (core : ConfCore κ) (host : List UInt8) (port : ℕ) : Conf (List UInt8) := do
  let u := core.parseUrl host port
  Logged.tell u.log
  match u.addr with
  | none => do
    Logged.tell [⟨.warn, "error_abuse_redis cannot resolve host \"%V\" at config time%s%s; " ++
      "falling back to worker-time resolution (may block the event loop on reconnect); " ++
      "use a numeric IP to avoid this",
      [.str host, .cstr (if u.err.isSome then ": " else ""), .cstr (u.err.getD "")]⟩]
    return host
  | some text => do
    require (core.alloc .host)
    return text

/-- The handler after its loop. -/
def finishRedis (core : ConfCore κ) (s : RedisArgs) : Conf RedisDecl := do
  refuseIf (s.host.length = 0) "error_abuse_redis requires host" []
  refuseIf (s.user.length ≠ 0 && s.password.length = 0)
    "error_abuse_redis user= requires password=" []
  require (core.alloc .sni)
  let host ← resolveHost core s.host s.port
  require (core.alloc .keyPrefix)
  require (s.user.length = 0 || core.alloc .user)
  require (s.password.length = 0 || core.alloc .password)
  return { host := host, sni := s.host, keyPrefix := s.keyPrefix, user := s.user,
           password := s.password, port := s.port, db := s.db, timeout := s.timeout,
           tls := s.tls, configured := true }

/-- `error_abuse_redis` -/
def abuseRedis (core : ConfCore κ) (mcf : RedisDecl) (args : List (List UInt8)) :
    Conf RedisDecl :=
  if mcf.configured then .fail [] (.message "is duplicate")
  else do
    let gathered ← (redisOptions core).gather args { port := mcf.port }
    finishRedis core gathered.values

/-! ## What is accepted -/

/-- Every run of the loop leaves a prefix that keys can be built with. -/
theorem keyPrefix_of_gather {core : ConfCore κ} {port : ℕ} {args : List (List UInt8)}
    {gathered : Gathered RedisOption RedisArgs}
    (h : ((redisOptions core).gather args { port := port }).accepted = some gathered) :
    gathered.values.keyPrefix ≠ [] ∧ Braceless gathered.values.keyPrefix := by
  have hdefault : ascii "ea_" ≠ [] ∧ Braceless (ascii "ea_") :=
    ⟨by decide, by decide, by decide⟩
  refine Options.gather_invariant (I := fun s => s.keyPrefix ≠ [] ∧ Braceless s.keyPrefix)
    (redisOptions core) hdefault ?_ h
  intro o value v s hmem hparse hs
  cases v with
  | keyPrefix text =>
      obtain rfl : o = .keyPrefix := (kind_redisParse core o _ _ _ hparse).symm
      simp only [redisOptions, RedisOption.parse, accepted_ite_invalid, Logged.accepted_pure,
        Option.some.injEq, RedisSetting.keyPrefix.injEq, Bool.or_eq_true, decide_eq_true_eq,
        not_or] at hparse
      obtain ⟨⟨hlength, hbraces⟩, rfl⟩ := hparse
      have hneither : ((ngxStrlchr 123 value).isSome || (ngxStrlchr 125 value).isSome) = false := by
        simpa using hbraces
      exact ⟨fun hnil => hlength (List.length_eq_zero_iff.mpr hnil),
        braceless_of_ngxStrlchr hneither⟩
  | host | port | timeout | user | password | db => exact hs

theorem accepted_abuseRedis {core : ConfCore κ} {mcf redis : RedisDecl}
    {args : List (List UInt8)} (h : (abuseRedis core mcf args).accepted = some redis) :
    mcf.configured = false ∧ ∃ gathered,
      ((redisOptions core).gather args { port := mcf.port }).accepted = some gathered ∧
      (finishRedis core gathered.values).accepted = some redis := by
  rw [abuseRedis] at h
  cases hconf : mcf.configured with
  | true => simp [hconf] at h
  | false =>
      rw [hconf, if_neg Bool.false_ne_true, Logged.accepted_bind] at h
      exact ⟨rfl, Option.bind_eq_some_iff.mp h⟩

/-- A prefix that is accepted keeps keys apart. -/
theorem keyPrefix_of_abuseRedis {core : ConfCore κ} {mcf redis : RedisDecl}
    {args : List (List UInt8)} (h : (abuseRedis core mcf args).accepted = some redis) :
    redis.keyPrefix ≠ [] ∧ Braceless redis.keyPrefix := by
  obtain ⟨-, gathered, hgather, h⟩ := accepted_abuseRedis h
  simp only [finishRedis, Logged.accepted_bind, Option.bind_eq_some_iff, Logged.accepted_pure,
    Option.some.injEq] at h
  obtain ⟨_, -, _, -, _, -, host, -, _, -, _, -, _, -, rfl⟩ := h
  exact keyPrefix_of_gather hgather

/-- Keys built under configurations that were accepted tell what they were built from. -/
theorem accepted_keys_inj {core core' : ConfCore κ} {mcf mcf' redis redis' : RedisDecl}
    {zones zones' : List (ZoneDecl κ)} {args args' redisArgs redisArgs' : List (List UInt8)}
    {zone zone' : ZoneDecl κ} {key key' : Digest} {kind kind' : KeyKind}
    (hredis : (abuseRedis core mcf redisArgs).accepted = some redis)
    (hredis' : (abuseRedis core' mcf' redisArgs').accepted = some redis')
    (hzone : zone.Sound core zones args) (hzone' : zone'.Sound core' zones' args')
    (h : (buildRedisKeys (redis.conf core.plat) hzone.conf key).get kind =
      (buildRedisKeys (redis'.conf core'.plat) hzone'.conf key').get kind') :
    redis.keyPrefix = redis'.keyPrefix ∧ zone.name = zone'.name ∧ key = key' ∧ kind = kind' :=
  get_buildRedisKeys_inj (keyPrefix_of_abuseRedis hredis).2 hzone.name_braceless
    (keyPrefix_of_abuseRedis hredis').2 hzone'.name_braceless h

/-- The order of the arguments does not matter. -/
theorem accepted_abuseRedis_perm (core : ConfCore κ) (mcf : RedisDecl)
    {args args' : List (List UInt8)} (h : args.Perm args') :
    (abuseRedis core mcf args).accepted = (abuseRedis core mcf args').accepted := by
  rw [abuseRedis, abuseRedis]
  split_ifs
  · rfl
  · rw [Logged.accepted_bind, Logged.accepted_bind, Options.gather_perm (redisOptions core) h]

end ErrorAbuse
