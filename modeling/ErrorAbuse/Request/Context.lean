import ErrorAbuse.Redis.Keys
import ErrorAbuse.Zone.Record

/-!
# The context of a request

What the module knows about a main request is in a `ReqCtx`, allocated from the request's
pool. nginx keeps a pointer to it in `r->ctx`, and zeroes that on every redirect; the
module therefore leaves another pointer in the request's cleanup list, which survives.
`prepareCtx` returns the context that `r->ctx` points to, or else the one from the cleanup
list, and only builds a new one if there is neither.

`Exchange` is a request with what its handlers read and write: its contexts, the zones'
shared memory and the worker's Redis state. Contexts are numbered in the order they are
allocated; none is freed before the request ends.
-/

namespace ErrorAbuse

open Lib

/-- `ngx_http_error_abuse_loc_conf_t`, with zones `ζ`. -/
structure LocConf (ζ : Type) where
  zone : Option ζ
  rejectStatus : ℕ
  dryRun : Bool
  enabled : Bool

/-- `ngx_http_error_abuse_state_e` -/
inductive CtxState
  | bypassed
  | passed
  | counted
  | blocked
  | dryRun
  deriving DecidableEq, Repr

/-- `ngx_http_error_abuse_req_ctx_t`. The printable form of the key is left out; only log lines
use it. -/
structure ReqCtx (ζ : Type) where
  zone : Option ζ
  key : Key
  redisEvents : List UInt8
  redisBlock : List UInt8
  count : ℕ
  blockedUntil : ℤ
  state : CtxState
  responseSeen : Bool
  ownRejection : Bool
  dryRun : Bool
  redisPending : Bool
  redisChecked : Bool
  redisBlocked : Bool
  fromAnchor : Bool

/-- A context as `ngx_pcalloc` returns it. -/
def ReqCtx.zeroed {ζ : Type} : ReqCtx ζ where
  zone := none
  key := []
  redisEvents := []
  redisBlock := []
  count := 0
  blockedUntil := 0
  state := .bypassed
  responseSeen := false
  ownRejection := false
  dryRun := false
  redisPending := false
  redisChecked := false
  redisBlocked := false
  fromAnchor := false

def anchorMagic : UInt32 := 0x45414e43

/-- A record of the cleanup list: one of the module's own, or another module's. -/
inductive Cleanup
  | anchor (magic : UInt32) (ctx : ℕ)
  | other
  deriving DecidableEq, Repr

/-- What is the same for all requests of a worker. -/
structure Site (ζ : Type) where
  core : Core
  zones : ζ → ZoneConf
  redis : RedisConf
  sha256 : List UInt8 → Digest

/-- A call of one of the functions that read or write what the requests share, and what the
module decides about the request. -/
inductive Act (ζ : Type)
  /-- `prepare_ctx` has evaluated the key for a new context -/
  | built (ctx : ℕ) (key : List UInt8)
  | isBlocked (zone : ζ) (key : Key) (now : ℤ)
  | peek (zone : ζ) (key : Key) (now : ℤ)
  | record (zone : ζ) (key : Key) (now : ℤ)
  | redisRecord (zone : ζ) (key : Key) (now : ℤ)
  /-- a `GET` is queued -/
  | get (block : List UInt8)
  /-- an `EVALSHA` is handed to hiredis -/
  | evalsha (args : RecordArgs)
  /-- `own_rejection` is set -/
  | reject (status : ℕ)
  deriving DecidableEq, Repr

/-- A main request. `waiting` counts the `GET`s whose callback has not run. `acts` is not part
of the program: it logs what the handlers did, newest first. -/
structure Exchange (ζ : Type) where
  loc : LocConf ζ
  ctx : Option ℕ
  cleanup : List Cleanup
  pool : ℕ → ReqCtx ζ
  next : ℕ
  count : ℕ
  waiting : ℕ
  shctx : ζ → Shctx
  worker : Worker
  acts : List (Act ζ)

/-- What a run of a handler depends on besides the request: which of the two kinds of request
it is called for, the time, the value of the key and the answers of the allocators. -/
structure Visit where
  main : Bool
  now : ℤ
  /-- what `ngx_http_complex_value` makes of the zone's key -/
  key : Option (List UInt8)
  ctxRoom : Bool
  anchorRoom : Bool
  digestRoom : Bool
  logKeyRoom : Bool
  redisKeysRoom : Bool
  /-- whether hiredis can queue a command -/
  redisRoom : Bool
  slab : Slab
  /-- for the two headers and the text of the second one -/
  headerRoom : Bool
  retryAfterRoom : Bool
  retryAfterHeaderRoom : Bool

namespace Exchange

variable {ζ : Type}

/-- A request that no handler has seen, at a location. -/
def start (loc : LocConf ζ) (shctx : ζ → Shctx) (worker : Worker) : Exchange ζ where
  loc := loc
  ctx := none
  cleanup := []
  pool _ := .zeroed
  next := 0
  count := 1
  waiting := 0
  shctx := shctx
  worker := worker
  acts := []

/-- Store to the fields of a context. -/
def onCtx (r : Exchange ζ) (ctx : ℕ) (f : ReqCtx ζ → ReqCtx ζ) : Exchange ζ :=
  { r with pool := Function.update r.pool ctx (f (r.pool ctx)) }

/-- Note something a handler did. -/
def note (r : Exchange ζ) (act : Act ζ) : Exchange ζ := { r with acts := act :: r.acts }

end Exchange

variable {ζ : Type}

/-- Walk the cleanup list for the module's own record. -/
def findAnchorCtx : List Cleanup → Option ℕ
  | [] => none
  | .other :: cleanup => findAnchorCtx cleanup
  | .anchor magic ctx :: cleanup => if magic ≠ anchorMagic then findAnchorCtx cleanup else some ctx

/-- The second component is whether `NGX_OK` is returned. -/
def registerAnchor (room : Bool) (ctx : ℕ) (r : Exchange ζ) : Exchange ζ × Bool :=
  if !room then (r, false)
  else ({ r with cleanup := .anchor anchorMagic ctx :: r.cleanup }, true)

def effectiveDryRun (ctx : ReqCtx ζ) (conf : LocConf ζ) : Bool :=
  if ctx.fromAnchor then ctx.dryRun else conf.dryRun

/-- The part of `prepare_ctx` that computes the identity of a new context. -/
def fillCtx (site : Site ζ) (v : Visit) (zone : ζ) (key : List UInt8) (ctx : ℕ) (r : Exchange ζ) :
    Exchange ζ × Option ℕ :=
  if key.length = 0 then (r, some ctx)
  else if !v.digestRoom then (r, none)
  else
    let r := r.onCtx ctx fun c => { c with key := site.sha256 key }
    if !v.logKeyRoom then (r, none)
    else (r.onCtx ctx fun c => { c with zone := some zone, state := .passed }, some ctx)

/-- The part of `prepare_ctx` that builds a new context for the zone of the location. -/
def buildCtx (site : Site ζ) (v : Visit) (zone : ζ) (r : Exchange ζ) : Exchange ζ × Option ℕ :=
  match v.key with
  | none => (r, none)
  | some key =>
    if !v.ctxRoom then (r, none)
    else
      let ctx := r.next
      let c : ReqCtx ζ := { ReqCtx.zeroed with dryRun := r.loc.dryRun }
      let r := { r with
        pool := Function.update r.pool ctx c
        next := r.next + 1
        ctx := some ctx }.note (.built ctx key)
      match registerAnchor v.anchorRoom ctx r with
      | (r, false) => (r, none)
      | (r, true) => fillCtx site v zone key ctx r

/-- The request's context; `none` if there is none to be had. -/
def prepareCtx (site : Site ζ) (v : Visit) (r : Exchange ζ) : Exchange ζ × Option ℕ :=
  match r.ctx with
  | some ctx => (r, some ctx)
  | none =>
    match findAnchorCtx r.cleanup with
    | some ctx => ({ r.onCtx ctx fun c => { c with fromAnchor := true } with ctx := some ctx }, some ctx)
    | none =>
      match r.loc.zone with
      | none => (r, none)
      | some zone => if !r.loc.enabled then (r, none) else buildCtx site v zone r

/-! ## For concrete runs -/

/-- The SHA-256 digest of the key "a". -/
def Digest.ofA : Digest :=
  ⟨[202, 151, 129, 18, 202, 27, 189, 202, 250, 194, 49, 179, 154, 35, 220, 77, 167, 134, 239, 248,
    20, 124, 78, 114, 185, 128, 119, 133, 175, 238, 72, 187], rfl⟩

/-- The zone once two tracked responses have banned "a" until 22. -/
def Shctx.banned : Shctx := run (callStep .unbalanced .small) .empty
  [.record .ofA 1 fun _ => some 4096, .record .ofA 2 fun _ => none]

/-- One zone, where every key is "a". -/
def Site.single (zone : ZoneConf) : Site Unit where
  core := .unbalanced
  zones _ := zone
  redis := .sample
  sha256 _ := .ofA

/-- A location with `error_abuse on`. -/
def LocConf.on : LocConf Unit := ⟨some (), 429, false, true⟩

/-- A location with `error_abuse off`. -/
def LocConf.off : LocConf Unit := ⟨none, 429, true, false⟩

/-- A run of a handler where the key is "a" and no allocation fails, the slab's included, which
hands out the block at `addr`. -/
def Visit.roomy (now : ℤ) (addr : Addr) : Visit where
  main := true
  now := now
  key := some [97]
  ctxRoom := true
  anchorRoom := true
  digestRoom := true
  logKeyRoom := true
  redisKeysRoom := true
  redisRoom := true
  slab _ := some addr
  headerRoom := true
  retryAfterRoom := true
  retryAfterHeaderRoom := true

end ErrorAbuse
