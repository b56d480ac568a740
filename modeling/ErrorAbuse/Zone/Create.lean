import ErrorAbuse.Zone.Memory

/-!
# Making room and creating nodes

`createNode` asks the slab allocator for a block. If there is none it expires up
to 64 inactive nodes from the queue's tail and asks again, and then force-evicts
unblocked nodes one at a time for as long as that frees something.

The allocator is nginx core's. Which block it hands out, and when it has none, is
an input: `slab i` is its answer to the `i`-th request of a call. An answer that
does not name a block inside the segment, clear of the pool header and of every
live block, is not one the allocator gives and counts as a failure.
-/

namespace ErrorAbuse

open Lib

/-- The allocator's answers to the successive requests of one call. -/
abbrev Slab := ℕ → Option Addr

def ZoneConf.nodeSize (conf : ZoneConf) (keyLen : ℕ) : ℕ :=
  conf.plat.offsetofData + keyLen + conf.plat.time.bytes - 1
    + conf.threshold * conf.plat.time.bytes

/-- A block the allocator may hand out: inside the segment, behind the pool
header, overlapping no live block. -/
def FreeBlock (conf : ZoneConf) (s : Shctx) (size : ℕ) (a : Addr) : Prop :=
  conf.plat.slabHeader ≤ a ∧ a + size ≤ conf.shmSize ∧
    ∀ b ∈ s.blocks, a ≠ b.addr ∧ (a + size ≤ b.addr ∨ b.addr + b.size ≤ a)

instance (conf : ZoneConf) (s : Shctx) (size : ℕ) (a : Addr) :
    Decidable (FreeBlock conf s size a) := by unfold FreeBlock; infer_instance

/-- A request for a block that the allocator turns down. -/
def refuse (s : Shctx) : Shctx := { s with refused := s.refused + 1 }

def slabAllocLocked (conf : ZoneConf) (size : ℕ) (answer : Option Addr) (s : Shctx) :
    Shctx × Option Addr :=
  match answer with
  | none => (refuse s, none)
  | some a =>
    if FreeBlock conf s size a then ({ s with blocks := ⟨a, size⟩ :: s.blocks }, some a)
    else (refuse s, none)

/-- Delete inactive nodes from the queue's tail, at most `limit` of them, stopping
at the first one that is blocked or recent. -/
def expire (core : Core) (conf : ZoneConf) (now : ℤ) : ℕ → Shctx → Shctx
  | 0, s => s
  | limit + 1, s =>
    match s.queue.getLast? with
    | none => s
    | some q =>
      if (s.mem q).blockedUntil > now
          ∨ conf.addSaturate (s.mem q).lastSeen conf.inactive > now then s
      else expire core conf now limit (delete core s q)

/-- `ngx_queue_prev`; `none` is the queue's sentinel. -/
def queuePrev : List Addr → Addr → Option Addr
  | a :: b :: l, q => if b = q then some a else queuePrev (b :: l) q
  | _, _ => none

def evictScanLimit : ℕ := 64

/-- The scan of `evictOneUnblocked` from `q` towards the head. -/
def evictScan (core : Core) (now : ℤ) (stop : Option Addr) :
    ℕ → Option Addr → Shctx → Shctx × Bool
  | 0, _, s => (s, false)
  | _ + 1, none, s => (s, false)
  | limit + 1, some q, s =>
    let next := queuePrev s.queue q
    if (s.mem q).blockedUntil ≤ now then
      ({ delete core s q with evicted := (s.mem q).data :: s.evicted }, true)
    else
      let s := touch s q
      if some q = stop then (s, false) else evictScan core now stop limit next s

/-- Evict the unblocked node nearest the tail, rotating the blocked nodes passed
on the way to the head; at most 64 nodes are examined. -/
def evictOneUnblocked (core : Core) (now : ℤ) (s : Shctx) : Shctx × Bool :=
  evictScan core now s.queue.head? evictScanLimit s.queue.getLast? s

/-- The force-evict loop of `createNode`: evict, then ask again. The fuel bounds
the number of evictions, each of which removes a node. -/
def evictLoop (core : Core) (conf : ZoneConf) (size : ℕ) (now : ℤ) (slab : Slab) :
    ℕ → ℕ → Shctx → Shctx × Option Addr
  | 0, _, s => (s, none)
  | fuel + 1, i, s =>
    match evictOneUnblocked core now s with
    | (s, false) => (s, none)
    | (s, true) =>
      match slabAllocLocked conf size (slab i) s with
      | (s, some ean) => (s, some ean)
      | (s, none) => evictLoop core conf size now slab fuel (i + 1) s

/-- A block for a new node, after as much housekeeping as it takes. -/
def makeRoom (core : Core) (conf : ZoneConf) (size : ℕ) (now : ℤ) (slab : Slab) (s : Shctx) :
    Shctx × Option Addr :=
  match slabAllocLocked conf size (slab 0) s with
  | (s, some ean) => (s, some ean)
  | (s, none) =>
    match slabAllocLocked conf size (slab 1) (expire core conf now 64 s) with
    | (s, some ean) => (s, some ean)
    | (s, none) => evictLoop core conf size now slab (s.queue.length + 1) 2 s

/-- What `createNode` writes to a zeroed block. -/
def freshNode (conf : ZoneConf) (hash : UInt32) (key : Key) (now : ℤ) : Node where
  key := hash
  blockedUntil := 0
  lastSeen := now
  eventHead := 0
  eventCount := 0
  data := key
  events := List.replicate conf.threshold 0

/-- Initialise a fresh block as the node of `key` and link it. -/
def linkNode (core : Core) (conf : ZoneConf) (hash : UInt32) (key : Key) (now : ℤ) (ean : Addr)
    (s : Shctx) : Shctx :=
  let mem := Function.update s.mem ean (freshNode conf hash key now)
  { s with
    mem := mem
    rbtree := rbtreeInsert core mem ean s.rbtree
    queue := ean :: s.queue }

def createNode (core : Core) (conf : ZoneConf) (hash : UInt32) (key : Key) (now : ℤ)
    (slab : Slab) (s : Shctx) : Shctx × Option Addr :=
  if key.length > digestLen then (s, none)
  else
    match makeRoom core conf (conf.nodeSize key.length) now slab s with
    | (s, none) => (s, none)
    | (s, some ean) => (linkNode core conf hash key now ean s, some ean)

end ErrorAbuse
