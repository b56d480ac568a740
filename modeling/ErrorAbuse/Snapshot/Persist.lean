import ErrorAbuse.Snapshot.Scan
import ErrorAbuse.Zone.Record

/-!
# Writing and loading snapshots

`serialize` copies the nodes of a zone, oldest first, into a buffer as large as the
segment, behind a header and, with a secret configured, in front of a MAC. `load`
checks a file against the configuration and restores its records one at a time,
each into the node its key already has or into a new one.

Casts between `time_t`, `int64_t` and `uint64_t` are `toUInt64` and `toInt64`; where
the source narrows to `time_t` the value has been clamped into range before.
-/

namespace ErrorAbuse

open Lib

def fileHdrLen : ℕ := 24
def fileVersion : ℕ := 2
def macLen : ℕ := 32

/-- Bytes of the MAC at the end of a snapshot, if there is one. -/
def ZoneConf.macLen (conf : ZoneConf) : ℕ :=
  if conf.persistSecret.length ≠ 0 then ErrorAbuse.macLen else 0

/-- "NGEAB01" and its terminating zero. -/
def fileMagic : List UInt8 := [78, 71, 69, 65, 66, 48, 49, 0]

def toUInt64 (x : ℤ) : ℕ := (x % 2 ^ 64).toNat

def toInt64 (v : ℕ) : ℤ := if v < 2 ^ 63 then v else (v : ℤ) - 2 ^ 64

/-! ## Serialization -/

/-- The header of a snapshot. -/
def putHeader (conf : ZoneConf) (records crc : UInt32) : List UInt8 :=
  fileMagic ++ (putU32 fileVersion ++ (putU32 conf.threshold ++
    (putU32 records.toNat ++ putU32 crc.toNat)))

section Serialize

variable {m : Type → Type} [Monad m] (access : Access m) (conf : ZoneConf)

/-- What the loop of `serialize` appends for one node. -/
def putNodeVia (ean : Node) : m (List UInt8) := do
  let events ← readRing access conf ean
  return putU16 ean.data.length ++ (putU16 ean.eventCount ++ (putU64 (toUInt64 ean.blockedUntil) ++
    (putU64 (toUInt64 ean.lastSeen) ++ (ean.data ++
      events.flatMap fun e => putU64 (toUInt64 e)))))

/-- The loop of `serialize` over the queue from its tail: the bytes appended from `p`
on and the number of records, a 32-bit counter. -/
def serializeNodesVia (mem : Addr → Node) : List Addr → ℕ → m (List UInt8 × UInt32)
  | [], _ => pure ([], 0)
  | q :: rest, p =>
    let ean := mem q
    if ptrDiff conf.shmSize p < serializeRecLen ean.data.length ean.eventCount then pure ([], 0)
    else do
      let bytes ← putNodeVia access conf ean
      let r ← serializeNodesVia mem rest (p + bytes.length)
      return (bytes ++ r.1, r.2 + 1)

/-- `serialize`; `alloc` is whether the buffer could be had. -/
def serializeVia (core : Core) (alloc : Bool) (s : Shctx) : m (Option (List UInt8)) :=
  if !alloc then pure none
  else do
    let r ← serializeNodesVia access conf s.mem s.queue.reverse fileHdrLen
    let buffer := putHeader conf r.2 (core.crc32Long r.1) ++ r.1
    return if conf.persistSecret.length ≠ 0 then
      (core.hmac conf.persistSecret buffer).map fun mac => buffer ++ mac
    else some buffer

end Serialize

def putNode (conf : ZoneConf) (ean : Node) : List UInt8 := putNodeVia (.plain Id) conf ean

def serializeNodes (conf : ZoneConf) (mem : Addr → Node) (l : List Addr) (p : ℕ) :
    List UInt8 × UInt32 :=
  serializeNodesVia (.plain Id) conf mem l p

def serialize (core : Core) (conf : ZoneConf) (alloc : Bool) (s : Shctx) : Option (List UInt8) :=
  serializeVia (.plain Id) conf core alloc s

theorem putNode_eq (conf : ZoneConf) (ean : Node) :
    putNode conf ean =
      putU16 ean.data.length ++ (putU16 ean.eventCount ++ (putU64 (toUInt64 ean.blockedUntil) ++
        (putU64 (toUInt64 ean.lastSeen) ++ (ean.data ++
          (ean.contents conf).flatMap fun e => putU64 (toUInt64 e))))) := by
  rw [putNode, putNodeVia, readRing_plain]
  rfl

theorem serializeNodes_cons (conf : ZoneConf) (mem : Addr → Node) (q : Addr) (rest : List Addr)
    (p : ℕ) :
    serializeNodes conf mem (q :: rest) p =
      if ptrDiff conf.shmSize p < serializeRecLen (mem q).data.length (mem q).eventCount then ([], 0)
      else
        let bytes := putNode conf (mem q)
        let r := serializeNodes conf mem rest (p + bytes.length)
        (bytes ++ r.1, r.2 + 1) := rfl

theorem serialize_eq (core : Core) (conf : ZoneConf) (alloc : Bool) (s : Shctx) :
    serialize core conf alloc s =
      if !alloc then none
      else
        let r := serializeNodes conf s.mem s.queue.reverse fileHdrLen
        let buffer := putHeader conf r.2 (core.crc32Long r.1) ++ r.1
        if conf.persistSecret.length ≠ 0 then
          (core.hmac conf.persistSecret buffer).map fun mac => buffer ++ mac
        else some buffer := rfl

/-! ## Loading -/

/-- The event loop of `load`: `n` events from `p` on, those inside the window kept. -/
def restoreEventsVia (access : Access Option) (conf : ZoneConf) (now : ℤ) (buf : List UInt8) :
    ℕ → ℕ → Node → Option (Node × ℕ)
  | 0, p, ean => some (ean, p)
  | n + 1, p, ean => do
    let v ← getU64 buf p
    let storedWhen := toInt64 v
    let ean ← if storedWhen > now - conf.interval ∧ storedWhen ≤ now then
        (access.write conf ean ean.eventCount storedWhen).map fun ean =>
          { ean with eventCount := ean.eventCount + 1 }
      else some ean
    restoreEventsVia access conf now buf n (p + 8) ean

/-- What `load` stores to a node before its events. -/
def restoreHeader (conf : ZoneConf) (now recBlocked recSeen : ℤ) (ean : Node) : Node :=
  let maxDeadline := conf.addSaturate now conf.block
  { ean with
    blockedUntil :=
      if recBlocked > now then (if recBlocked < maxDeadline then recBlocked else maxDeadline) else 0
    lastSeen := if recSeen > 0 ∧ recSeen ≤ now then recSeen else now
    eventHead := 0
    eventCount := 0 }

/-- The node a record is restored to: the one its key has, or a new one. -/
def restoreTarget (core : Core) (conf : ZoneConf) (now : ℤ) (slab : Slab) (key : Key) (s : Shctx) :
    Shctx × Option Addr :=
  match lookup s (core.crc32Short key) key with
  | some ean => (s, some ean)
  | none => createNode core conf (core.crc32Short key) key now slab s

/-- How the loop of `load` ends. -/
inductive LoadEnd
  | finished
  | truncatedHeader
  | truncatedBody
  | noNode
  deriving DecidableEq, Repr

/-- The variables of the loop of `load`. `restored` is not part of the program: it
collects the nodes written, newest first. -/
structure Walk where
  zone : Shctx
  p : ℕ
  loaded : ℕ
  dropped : ℕ
  restored : List Addr

/-- The restore loop with the number of records still to come. `slabs n` are the
allocator's answers while `n` records wait behind the current one. -/
def restoreVia (access : Access Option) (core : Core) (conf : ZoneConf) (now : ℤ) (buf : List UInt8)
    (slabs : ℕ → Slab) : ℕ → Walk → Option (Walk × LoadEnd)
  | 0, w => some (w, .finished)
  | n + 1, w =>
    if ptrDiff buf.length w.p < fileRecLen then
      some ({ w with dropped := n + 1 }, .truncatedHeader)
    else do
      let recKeyLen ← getU16 buf w.p
      let recEventCount ← getU16 buf (w.p + 2)
      let recBlocked := toInt64 (← getU64 buf (w.p + 4))
      let recSeen := toInt64 (← getU64 buf (w.p + 12))
      let p := w.p + fileRecLen
      if recKeyLen ≠ digestLen ∨ recEventCount > conf.threshold
          ∨ ptrDiff buf.length p < recKeyLen + recEventCount * 8 then
        return ({ w with p := p, dropped := w.dropped + (n + 1) }, .truncatedBody)
      else
        let key := (buf.drop p).take recKeyLen
        let p := p + recKeyLen
        if recBlocked ≤ now ∧ recEventCount = 0 then
          restoreVia access core conf now buf slabs n { w with p := p }
        else
          match restoreTarget core conf now (slabs n) key w.zone with
          | (zone, none) =>
            return ({ w with zone := zone, p := p, dropped := w.dropped + (n + 1) }, .noNode)
          | (zone, some a) =>
            let (ean, p) ← restoreEventsVia access conf now buf recEventCount p
              (restoreHeader conf now recBlocked recSeen (zone.mem a))
            restoreVia access core conf now buf slabs n
              { w with
                zone := setNode zone a ean
                p := p
                loaded := w.loaded + 1
                restored := a :: w.restored }

/-- What opening and reading the persistence file comes to. -/
inductive Disk
  | openFailed
  | infoFailed
  | content (bytes : List UInt8) (alloc read : Bool)

/-- The checks of `load` that reject a file. -/
inductive Reject
  | openFailed
  | infoFailed
  | size
  | read
  | hmac
  | incompatible
  | crc
  | malformed
  deriving DecidableEq, Repr

/-- What a call of `load` comes to. A file that fails its checksum is deleted. -/
inductive Loaded
  | rejected (why : Reject)
  | noBuffer
  | accepted (w : Walk) (e : LoadEnd)

namespace Loaded

def rc : Loaded → Rc
  | noBuffer => .error
  | _ => .ok

/-- Whether the persistence file was deleted. -/
def deleted : Loaded → Bool
  | rejected .crc => true
  | _ => false

/-- The zone after the call. -/
def zone (s : Shctx) : Loaded → Shctx
  | accepted w _ => w.zone
  | _ => s

/-- The nodes the call wrote and left in the zone. -/
def restoredNodes : Loaded → List Node
  | accepted w _ => (w.restored.filter (· ∈ w.zone.queue)).map w.zone.mem
  | _ => []

end Loaded

/-- `load` on the bytes of a file: `none` would be a read outside the buffer. -/
def loadBytesVia (access : Access Option) (core : Core) (conf : ZoneConf) (now : ℤ) (slabs : ℕ → Slab)
    (buffer : List UInt8) (s : Shctx) : Option Loaded :=
  let payloadSize := buffer.length - conf.macLen
  let verified := conf.macLen = 0 ∨
    core.hmac conf.persistSecret (buffer.take payloadSize) = some (buffer.drop payloadSize)
  if ¬ verified then some (.rejected .hmac)
  else do
    let version ← getU32 buffer 8
    let threshold ← getU32 buffer 12
    if buffer.take 8 ≠ fileMagic ∨ version ≠ fileVersion ∨ threshold ≠ conf.threshold then
      return .rejected .incompatible
    else
      let records ← getU32 buffer 16
      let crc ← getU32 buffer 20
      let payload := (buffer.take payloadSize).drop fileHdrLen
      if crc ≠ (core.crc32Long payload).toNat then return .rejected .crc
      else
        let rc ← validateSnapshot payload (UInt32.ofNat records) conf.threshold
        if rc ≠ .ok then return .rejected .malformed
        else
          let (w, e) ← restoreVia access core conf now payload slabs (UInt32.ofNat records).toNat
            ⟨s, 0, 0, 0, []⟩
          return .accepted w e

def loadVia (access : Access Option) (core : Core) (conf : ZoneConf) (now : ℤ) (slabs : ℕ → Slab)
    (disk : Disk) (s : Shctx) : Option Loaded :=
  match disk with
  | .openFailed => some (.rejected .openFailed)
  | .infoFailed => some (.rejected .infoFailed)
  | .content bytes alloc read =>
    if bytes.length < fileHdrLen + conf.macLen ∨ bytes.length > conf.shmSize + conf.macLen then
      some (.rejected .size)
    else if !alloc then some .noBuffer
    else if !read then some (.rejected .read)
    else loadBytesVia access core conf now slabs bytes s

def restoreEvents (conf : ZoneConf) (now : ℤ) (buf : List UInt8) (n p : ℕ) (ean : Node) :
    Option (Node × ℕ) :=
  restoreEventsVia (.plain Option) conf now buf n p ean

def restore (core : Core) (conf : ZoneConf) (now : ℤ) (buf : List UInt8) (slabs : ℕ → Slab) (n : ℕ)
    (w : Walk) : Option (Walk × LoadEnd) :=
  restoreVia (.plain Option) core conf now buf slabs n w

def loadBytes (core : Core) (conf : ZoneConf) (now : ℤ) (slabs : ℕ → Slab) (buffer : List UInt8)
    (s : Shctx) : Option Loaded :=
  loadBytesVia (.plain Option) core conf now slabs buffer s

def load (core : Core) (conf : ZoneConf) (now : ℤ) (slabs : ℕ → Slab) (disk : Disk) (s : Shctx) :
    Option Loaded :=
  loadVia (.plain Option) core conf now slabs disk s

theorem restoreEventsVia_plain (conf : ZoneConf) (now : ℤ) (buf : List UInt8) :
    restoreEventsVia (.plain Option) conf now buf = restoreEvents conf now buf := rfl

theorem restoreVia_plain (core : Core) (conf : ZoneConf) (now : ℤ) (buf : List UInt8)
    (slabs : ℕ → Slab) :
    restoreVia (.plain Option) core conf now buf slabs = restore core conf now buf slabs := rfl

theorem loadBytesVia_plain (core : Core) (conf : ZoneConf) (now : ℤ) (slabs : ℕ → Slab) :
    loadBytesVia (.plain Option) core conf now slabs = loadBytes core conf now slabs := rfl

/-- One event of a record. -/
theorem restoreEvents_succ (conf : ZoneConf) (now : ℤ) (buf : List UInt8) (n p : ℕ) (ean : Node) :
    restoreEvents conf now buf (n + 1) p ean = (getU64 buf p).bind fun v =>
      restoreEvents conf now buf n (p + 8)
        (if toInt64 v > now - conf.interval ∧ toInt64 v ≤ now then
          { ean with
            events := ean.events.set ean.eventCount (toInt64 v)
            eventCount := ean.eventCount + 1 }
        else ean) := by
  rw [restoreEvents, restoreEventsVia]
  refine Option.bind_congr fun v _ => ?_
  dsimp only
  split_ifs <;> rfl

end ErrorAbuse
