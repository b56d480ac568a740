import ErrorAbuse.Zone.Create

/-!
# Recording events and checking bans

Each call below runs under the zone mutex, so a run of the zone is a sequence of
calls, whatever workers they come from. `record` counts one tracked response,
`isBlocked` is the check before a request is served, and `peek` computes what
`record` would do without changing anything.

The calls that go through the slots of a ring are written once for any `Access` to them
(`recordVia`, `isBlockedVia`, `peekVia`); the calls of the model are these with plain
accesses.
-/

namespace ErrorAbuse

open Lib

/-! ## The slots of the event array -/

/-- How a call gets at the slots of an event array; `m` says what becomes of it if there is no such
slot. -/
structure Access (m : Type → Type) where
  /-- `events[i]` -/
  read (conf : ZoneConf) (ean : Node) (i : ℕ) : m ℤ
  /-- `events[i] = x` -/
  write (conf : ZoneConf) (ean : Node) (i : ℕ) (x : ℤ) : m Node

/-- A list answers an index outside it with a default and ignores a store there. -/
def Access.plain (m : Type → Type) [Monad m] : Access m where
  read _ ean i := pure (ean.events.getD i 0)
  write _ ean i x := pure { ean with events := ean.events.set i x }

section Accesses

variable {m : Type → Type} [Monad m] (access : Access m) (conf : ZoneConf)

/-- The events of the ring in order, each read from its slot. -/
def readRing (ean : Node) : m (List ℤ) :=
  (List.range ean.eventCount).mapM fun i =>
    access.read conf ean ((ean.eventHead + i) % conf.threshold)

/-- The loop of `pruneEvents` with the count and the head it works on. -/
def pruneLoop (ean : Node) (cutoff : ℤ) : ℕ → ℕ → m (ℕ × ℕ)
  | 0, head => pure (head, 0)
  | count + 1, head => do
    let e ← access.read conf ean head
    if e ≤ cutoff then pruneLoop ean cutoff count ((head + 1) % conf.threshold)
    else return (head, count + 1)

/-- Drop the events at or before the cutoff from the head of the ring. -/
def pruneEventsVia (ean : Node) (now : ℤ) : m Node := do
  let r ← pruneLoop access conf ean (now - conf.interval) ean.eventCount ean.eventHead
  return { ean with eventHead := r.1, eventCount := r.2 }

end Accesses

def pruneEvents (conf : ZoneConf) (ean : Node) (now : ℤ) : Node :=
  pruneEventsVia (.plain Id) conf ean now

/-! ## The calls -/

/-- The shared prologue of `record` and `isBlocked`: bounded expiry, then lookup
and, on a hit, a refresh of recency and queue position. -/
def findTouchLocked (core : Core) (conf : ZoneConf) (hash : UInt32) (key : Key) (now : ℤ)
    (s : Shctx) : Shctx × Option Addr :=
  let s := expire core conf now 2 s
  match lookup s hash key with
  | none => (s, none)
  | some ean => (touch (setNode s ean { s.mem ean with lastSeen := now }) ean, some ean)

/-- What a call reports: its return code, and the count and deadline it stores to
its out-parameters, if it stores any. -/
structure Verdict where
  rc : Rc
  out : Option (ℕ × ℤ)
  deriving DecidableEq, Repr

section Calls

variable {m : Type → Type} [Monad m] (access : Access m)

/-- The part of `record` that works on the node found or created. -/
def recordNodeVia (conf : ZoneConf) (ean : Node) (now : ℤ) : m (Node × Verdict) :=
  if ean.blockedUntil > now then
    pure (ean, ⟨.busy, some (conf.threshold, ean.blockedUntil)⟩)
  else do
    let ean := if ean.blockedUntil ≠ 0 then
        { ean with blockedUntil := 0, eventHead := 0, eventCount := 0 }
      else ean
    let ean ← pruneEventsVia access conf ean now
    let index := (ean.eventHead + ean.eventCount) % conf.threshold
    let ean ← access.write conf ean index now
    let ean := { ean with eventCount := ean.eventCount + 1 }
    let ean := if ean.eventCount ≥ conf.threshold then
        { ean with blockedUntil := conf.addSaturate now conf.block, eventHead := 0, eventCount := 0 }
      else ean
    let count := if ean.blockedUntil > now then conf.threshold else ean.eventCount
    return (ean, ⟨if ean.blockedUntil > now then .busy else .ok, some (count, ean.blockedUntil)⟩)

/-- Finish `record` on the node at `ean`. -/
def recordAtVia (conf : ZoneConf) (ean : Addr) (now : ℤ) (s : Shctx) : m (Shctx × Verdict) := do
  let r ← recordNodeVia access conf (s.mem ean) now
  return (setNode s ean r.1, r.2)

def recordVia (core : Core) (conf : ZoneConf) (key : Key) (now : ℤ) (slab : Slab) (s : Shctx) :
    m (Shctx × Verdict) :=
  let hash := core.crc32Short key
  match findTouchLocked core conf hash key now s with
  | (s, some ean) => recordAtVia access conf ean now s
  | (s, none) =>
    match createNode core conf hash key now slab s with
    | (s, none) => pure (s, ⟨.error, none⟩)
    | (s, some ean) => recordAtVia access conf ean now s

/-- The part of `isBlocked` that works on the node found. -/
def isBlockedNodeVia (conf : ZoneConf) (ean : Node) (now : ℤ) : m (Node × Verdict) :=
  if ean.blockedUntil > now then
    pure (ean, ⟨.ok, some (conf.threshold, ean.blockedUntil)⟩)
  else do
    let ean ← if ean.blockedUntil ≠ 0 then
        pure { ean with blockedUntil := 0, eventHead := 0, eventCount := 0 }
      else pruneEventsVia access conf ean now
    return (ean, ⟨.declined, some (ean.eventCount, 0)⟩)

def isBlockedVia (core : Core) (conf : ZoneConf) (key : Key) (now : ℤ) (s : Shctx) :
    m (Shctx × Verdict) :=
  match findTouchLocked core conf (core.crc32Short key) key now s with
  | (s, none) => pure (s, ⟨.declined, some (0, 0)⟩)
  | (s, some ean) => do
    let r ← isBlockedNodeVia access conf (s.mem ean) now
    return (setNode s ean r.1, r.2)

end Calls

/-- What `peek` reports about the next tracked response. -/
structure Preview where
  count : ℕ
  blockedUntil : ℤ
  wouldBlock : Bool
  deriving DecidableEq, Repr

/-- `peek` reads the zone under its mutex and returns it as it is. -/
def peekVia {m : Type → Type} [Monad m] (access : Access m) (core : Core) (conf : ZoneConf) (key : Key)
    (now : ℤ) (s : Shctx) : m Preview :=
  match lookup s (core.crc32Short key) key with
  | none => pure
    { count := if conf.threshold ≤ 1 then conf.threshold else 1
      blockedUntil := if conf.threshold ≤ 1 then conf.addSaturate now conf.block else 0
      wouldBlock := conf.threshold ≤ 1 }
  | some a =>
    let ean := s.mem a
    if ean.blockedUntil > now then pure
      { count := conf.threshold, blockedUntil := ean.blockedUntil, wouldBlock := true }
    else do
      let cutoff := now - conf.interval
      let events ← readRing access conf ean
      let count := (events.filter fun e => e > cutoff).length + 1
      return {
        count := count
        blockedUntil := if count ≥ conf.threshold then conf.addSaturate now conf.block else 0
        wouldBlock := count ≥ conf.threshold }

def recordNode (conf : ZoneConf) (ean : Node) (now : ℤ) : Node × Verdict :=
  recordNodeVia (.plain Id) conf ean now

def recordAt (conf : ZoneConf) (ean : Addr) (now : ℤ) (s : Shctx) : Shctx × Verdict :=
  recordAtVia (.plain Id) conf ean now s

def record (core : Core) (conf : ZoneConf) (key : Key) (now : ℤ) (slab : Slab) (s : Shctx) :
    Shctx × Verdict :=
  recordVia (.plain Id) core conf key now slab s

def isBlockedNode (conf : ZoneConf) (ean : Node) (now : ℤ) : Node × Verdict :=
  isBlockedNodeVia (.plain Id) conf ean now

def isBlocked (core : Core) (conf : ZoneConf) (key : Key) (now : ℤ) (s : Shctx) :
    Shctx × Verdict :=
  isBlockedVia (.plain Id) core conf key now s

def peek (core : Core) (conf : ZoneConf) (key : Key) (now : ℤ) (s : Shctx) : Preview :=
  peekVia (.plain Id) core conf key now s

/-! ## Without checks -/

theorem readRing_plain (m : Type → Type) [Monad m] [LawfulMonad m] (conf : ZoneConf) (ean : Node) :
    readRing (.plain m) conf ean = pure (ean.contents conf) := by
  have hread : ∀ l : List ℕ,
      (l.mapM fun i => (Access.plain m).read conf ean ((ean.eventHead + i) % conf.threshold)) =
        pure (l.map fun i => ean.events.getD ((ean.eventHead + i) % conf.threshold) 0) := by
    intro l
    induction l with
    | nil => rw [List.mapM_nil, List.map_nil]
    | cons i l ih =>
        rw [List.mapM_cons, ih]
        simp only [Access.plain, pure_bind, List.map_cons]
  exact hread _

theorem pruneLoop_plain (conf : ZoneConf) (ean : Node) (cutoff : ℤ) (count head : ℕ) :
    pruneLoop (.plain Id) conf ean cutoff count head =
      Ring.dropFront (fun e => decide (e ≤ cutoff)) 0 conf.threshold ean.events count head := by
  induction count generalizing head with
  | zero => rfl
  | succ count ih =>
      simp only [Ring.dropFront, decide_eq_true_eq]
      rw [← ih]
      rfl

theorem pruneEvents_eq (conf : ZoneConf) (ean : Node) (now : ℤ) :
    pruneEvents conf ean now =
      let r := Ring.dropFront (fun e => decide (e ≤ now - conf.interval)) 0 conf.threshold ean.events
        ean.eventCount ean.eventHead
      { ean with eventHead := r.1, eventCount := r.2 } := by
  rw [← pruneLoop_plain]
  rfl

theorem recordNode_eq (conf : ZoneConf) (ean : Node) (now : ℤ) :
    recordNode conf ean now =
      if ean.blockedUntil > now then (ean, ⟨.busy, some (conf.threshold, ean.blockedUntil)⟩)
      else
        let ean := if ean.blockedUntil ≠ 0 then
            { ean with blockedUntil := 0, eventHead := 0, eventCount := 0 }
          else ean
        let ean := pruneEvents conf ean now
        let index := (ean.eventHead + ean.eventCount) % conf.threshold
        let ean := { ean with events := ean.events.set index now, eventCount := ean.eventCount + 1 }
        let ean := if ean.eventCount ≥ conf.threshold then
            { ean with
              blockedUntil := conf.addSaturate now conf.block, eventHead := 0, eventCount := 0 }
          else ean
        let count := if ean.blockedUntil > now then conf.threshold else ean.eventCount
        (ean, ⟨if ean.blockedUntil > now then .busy else .ok, some (count, ean.blockedUntil)⟩) := rfl

theorem recordAt_eq (conf : ZoneConf) (a : Addr) (now : ℤ) (s : Shctx) :
    recordAt conf a now s =
      (setNode s a (recordNode conf (s.mem a) now).1, (recordNode conf (s.mem a) now).2) := rfl

theorem record_eq (core : Core) (conf : ZoneConf) (key : Key) (now : ℤ) (slab : Slab) (s : Shctx) :
    record core conf key now slab s =
      match findTouchLocked core conf (core.crc32Short key) key now s with
      | (s, some ean) => recordAt conf ean now s
      | (s, none) =>
        match createNode core conf (core.crc32Short key) key now slab s with
        | (s, none) => (s, ⟨.error, none⟩)
        | (s, some ean) => recordAt conf ean now s := rfl

theorem isBlockedNode_eq (conf : ZoneConf) (ean : Node) (now : ℤ) :
    isBlockedNode conf ean now =
      if ean.blockedUntil > now then (ean, ⟨.ok, some (conf.threshold, ean.blockedUntil)⟩)
      else
        let ean := if ean.blockedUntil ≠ 0 then
            { ean with blockedUntil := 0, eventHead := 0, eventCount := 0 }
          else pruneEvents conf ean now
        (ean, ⟨.declined, some (ean.eventCount, 0)⟩) := by
  rw [isBlockedNode, isBlockedNodeVia]
  split_ifs <;> rfl

theorem isBlocked_eq (core : Core) (conf : ZoneConf) (key : Key) (now : ℤ) (s : Shctx) :
    isBlocked core conf key now s =
      match findTouchLocked core conf (core.crc32Short key) key now s with
      | (s, none) => (s, ⟨.declined, some (0, 0)⟩)
      | (s, some ean) =>
        (setNode s ean (isBlockedNode conf (s.mem ean) now).1,
          (isBlockedNode conf (s.mem ean) now).2) := rfl

theorem peek_eq (core : Core) (conf : ZoneConf) (key : Key) (now : ℤ) (s : Shctx) :
    peek core conf key now s =
      match lookup s (core.crc32Short key) key with
      | none =>
        { count := if conf.threshold ≤ 1 then conf.threshold else 1
          blockedUntil := if conf.threshold ≤ 1 then conf.addSaturate now conf.block else 0
          wouldBlock := conf.threshold ≤ 1 }
      | some a =>
        let ean := s.mem a
        if ean.blockedUntil > now then
          { count := conf.threshold, blockedUntil := ean.blockedUntil, wouldBlock := true }
        else
          let count := ((ean.contents conf).filter fun e => e > now - conf.interval).length + 1
          { count := count
            blockedUntil := if count ≥ conf.threshold then conf.addSaturate now conf.block else 0
            wouldBlock := count ≥ conf.threshold } := by
  simp only [peek, peekVia, readRing_plain]
  rfl

/-! ## Runs of calls -/

/-- A deciding call on a zone. -/
inductive Call
  | record (key : Digest) (now : ℤ) (slab : Slab)
  | isBlocked (key : Digest) (now : ℤ)

namespace Call

/-- The identity a call is about. -/
def key : Call → Digest
  | record key _ _ => key
  | isBlocked key _ => key

/-- The clock reading a call runs with. -/
def now : Call → ℤ
  | record _ now _ => now
  | isBlocked _ now => now

/-- Execute a call. -/
def execVia {m : Type → Type} [Monad m] (access : Access m) (core : Core) (conf : ZoneConf) (s : Shctx) :
    Call → m (Shctx × Verdict)
  | record key now slab => recordVia access core conf key now slab s
  | isBlocked key now => isBlockedVia access core conf key now s

def exec (core : Core) (conf : ZoneConf) (s : Shctx) : Call → Shctx × Verdict
  | record key now slab => ErrorAbuse.record core conf key now slab s
  | isBlocked key now => ErrorAbuse.isBlocked core conf key now s

end Call

/-- The state after a call. -/
def callStep (core : Core) (conf : ZoneConf) (s : Shctx) (c : Call) : Shctx :=
  (c.exec core conf s).1

end ErrorAbuse
