import ErrorAbuse.Time
import ErrorAbuse.Lib.SearchTree
import ErrorAbuse.Lib.Ring

/-!
# The shared memory of a zone

A zone keeps one node per identity. The nodes lie in slab blocks of the zone's
shared memory segment and are linked twice: into a red-black tree ordered by the
CRC32 of the key and then by the key bytes, and into a queue with the most
recently touched node at its head. `Shctx` carries both links over addresses,
next to the memory they point into and the slab allocator's list of live blocks.

What nginx core and OpenSSL supply is a parameter, `Core`: the checksums, the MAC
and the rebalancing half of the tree operations. The walks over the tree that the
module writes itself, `lookup` and `rbtreeInsertAt`, are written out.
-/

namespace ErrorAbuse

open Lib

/-- The nginx return codes the module uses. -/
inductive Rc
  | ok
  | error
  | again
  | busy
  | done
  | declined
  deriving DecidableEq, Repr

/-- Type widths and layout of one build. -/
structure Platform where
  time : TimeT
  /-- `offsetof(ngx_http_error_abuse_node_t, data)` -/
  offsetofData : ℕ
  /-- bytes at the start of a segment that hold the slab pool's own header -/
  slabHeader : ℕ
  pageSize : ℕ
  /-- width of `ngx_uint_t`, that of a pointer -/
  uintBits : ℕ
  time_signed : time.isSigned = true := by rfl
  offsetofData_ge : 16 ≤ offsetofData := by decide
  slabHeader_ge : 24 ≤ slabHeader := by decide
  pageSize_ge : 4096 ≤ pageSize := by decide

/-- LP64 with a 64-bit `time_t`: 40 bytes of tree node, 16 of queue links, four
eight-byte fields and the two-byte key length precede the key. -/
def Platform.lp64 : Platform where
  time := .int64
  offsetofData := 90
  slabHeader := 200
  pageSize := 4096
  uintBits := 64

/-- 32-bit pointers and a 32-bit `time_t`. -/
def Platform.ilp32 : Platform where
  time := .int32
  offsetofData := 46
  slabHeader := 100
  pageSize := 4096
  uintBits := 32

def digestLen : ℕ := 32
def maxThreshold : ℕ := 1024
def maxSeconds : ℤ := 315360000

/-- The configuration of a zone, with the bounds its directive enforces. -/
structure ZoneConf where
  plat : Platform
  /-- size of the shared memory segment -/
  shmSize : ℕ
  name : List UInt8
  statuses : List UInt8
  interval : ℤ
  block : ℤ
  inactive : ℤ
  threshold : ℕ
  persistSecret : List UInt8
  redis : Bool
  onFullReject : Bool
  shmSize_ge : 8 * plat.pageSize ≤ shmSize := by decide
  shmSize_lt : shmSize < 2 ^ 63 := by decide
  threshold_pos : 0 < threshold := by decide
  threshold_le : threshold ≤ maxThreshold := by decide
  interval_pos : 0 < interval := by decide
  block_pos : 0 < block := by decide
  interval_le_inactive : interval ≤ inactive := by decide
  block_le_inactive : block ≤ inactive := by decide
  inactive_le : inactive ≤ maxSeconds := by decide

theorem ZoneConf.inactive_pos (conf : ZoneConf) : 0 < conf.inactive :=
  lt_of_lt_of_le conf.interval_pos conf.interval_le_inactive

/-- The platform's largest time. -/
abbrev ZoneConf.timeMax (conf : ZoneConf) : ℤ := conf.plat.time.timeMax

theorem ZoneConf.timeMax_lt (conf : ZoneConf) : conf.timeMax < 2 ^ 63 :=
  conf.plat.time.timeMax_lt conf.plat.time_signed

theorem ZoneConf.timeMax_pos (conf : ZoneConf) : 0 < conf.timeMax :=
  conf.plat.time.timeMax_pos conf.plat.time_signed

/-- `now + duration` on the zone's platform, saturating. -/
abbrev ZoneConf.addSaturate (conf : ZoneConf) (now duration : ℤ) : ℤ :=
  timeAddSaturate conf.plat.time now duration

/-- An address inside the segment. -/
abbrev Addr := ℕ

abbrev Key := List UInt8

/-- The identity of a client: a fixed 32-byte digest of the configured key. -/
abbrev Digest := { key : Key // key.length = digestLen }

/-- The digest that repeats one byte, for concrete runs. -/
def Digest.repeated (b : UInt8) : Digest := ⟨List.replicate digestLen b, List.length_replicate⟩

/-- A small zone without persistence secret, for concrete runs: two events within ten
seconds ban for twenty. -/
def ZoneConf.small : ZoneConf where
  plat := .lp64
  shmSize := 65536
  name := [122]
  statuses := []
  interval := 10
  block := 20
  inactive := 30
  threshold := 2
  persistSecret := []
  redis := false
  onFullReject := false

/-- The same zone where times have 32 bits. -/
def ZoneConf.small32 : ZoneConf := { ZoneConf.small with
  plat := .ilp32, shmSize_ge := by decide }

/-- A tracked identity. `key` is the tree key, `data` the identity's bytes, and
`events` the trailing array of `threshold` slots. -/
structure Node where
  key : UInt32
  blockedUntil : ℤ
  lastSeen : ℤ
  eventHead : ℕ
  eventCount : ℕ
  data : Key
  events : List ℤ
  deriving DecidableEq, Repr

instance : Inhabited Node := ⟨⟨0, 0, 0, 0, 0, [], []⟩⟩

/-- The recorded events of a node, oldest first. -/
def Node.contents (conf : ZoneConf) (ean : Node) : List ℤ :=
  Ring.contents 0 conf.threshold ean.events ean.eventHead ean.eventCount

/-- A live slab block. -/
structure Block where
  addr : Addr
  size : ℕ
  deriving DecidableEq, Repr

/-- The shared state of a zone. The queue lists its head first. Two fields are not
part of the program: `evicted` logs the keys that forced eviction removed, newest first,
and `refused` counts the requests the slab allocator turned down. -/
structure Shctx where
  rbtree : Lib.Tree Addr
  queue : List Addr
  mem : Addr → Node
  blocks : List Block
  evicted : List Key
  refused : ℕ

/-- The state `init_zone` leaves in a fresh segment. -/
def Shctx.empty : Shctx := ⟨.nil, [], fun _ => default, [], [], 0⟩

/-- nginx core and OpenSSL as the module relies on them: two checksums, a MAC that
may fail, and tree rebalancing that respects the in-order sequence. -/
structure Core where
  crc32Short : Key → UInt32
  crc32Long : List UInt8 → UInt32
  hmac : List UInt8 → List UInt8 → Option (List UInt8)
  length_hmac : ∀ secret msg mac, hmac secret msg = some mac → mac.length = 32
  rbtreeBalance : Lib.Tree Addr → Lib.Tree Addr
  inorder_rbtreeBalance : ∀ t, (rbtreeBalance t).inorder = t.inorder
  rbtreeDelete : Addr → Lib.Tree Addr → Lib.Tree Addr
  inorder_rbtreeDelete : ∀ a t, a ∈ t.inorder →
    (rbtreeDelete a t).inorder = t.inorder.erase a

/-- The standard CRC-32, bit by bit. -/
def crc32 (bytes : List UInt8) : UInt32 :=
  let shift (crc : UInt32) : UInt32 :=
    if crc &&& 1 = 1 then (crc >>> 1) ^^^ 0xEDB88320 else crc >>> 1
  let byte (crc : UInt32) (b : UInt8) : UInt32 :=
    (List.range 8).foldl (fun crc _ => shift crc) (crc ^^^ b.toUInt32)
  bytes.foldl byte 0xFFFFFFFF ^^^ 0xFFFFFFFF

/-- A core for concrete runs: its tree is never rebalanced and its MAC always fails. -/
def Core.unbalanced : Core where
  crc32Short := crc32
  crc32Long := crc32
  hmac _ _ := none
  length_hmac _ _ _ h := by cases h
  rbtreeBalance t := t
  inorder_rbtreeBalance _ := rfl
  rbtreeDelete a t := t.erase a
  inorder_rbtreeDelete a t _ := Lib.Tree.inorder_erase a t

/-- `ngx_memcmp` on the first `n` bytes. -/
def memcmp : List UInt8 → List UInt8 → ℕ → ℤ
  | x :: xs, y :: ys, n + 1 => if x = y then memcmp xs ys n else (x.toNat : ℤ) - y.toNat
  | _, _, _ => 0

/-- `ngx_memn2cmp`: the common prefix decides, then the length. -/
def memn2cmp (s₁ s₂ : List UInt8) : ℤ :=
  let n := if s₁.length ≤ s₂.length then s₁.length else s₂.length
  let z := if s₁.length ≤ s₂.length then -1 else 1
  let m := memcmp s₁ s₂ n
  if m ≠ 0 ∨ s₁.length = s₂.length then m else z

/-- Walk down from a node of the tree to the one that holds `key`. -/
def lookupFrom (mem : Addr → Node) (hash : UInt32) (key : Key) : Lib.Tree Addr → Option Addr
  | .nil => none
  | .node left node right =>
    if hash < (mem node).key then lookupFrom mem hash key left
    else if hash > (mem node).key then lookupFrom mem hash key right
    else
      let rc := memn2cmp key (mem node).data
      if rc = 0 then some node
      else if rc < 0 then lookupFrom mem hash key left
      else lookupFrom mem hash key right

def lookup (s : Shctx) (hash : UInt32) (key : Key) : Option Addr :=
  lookupFrom s.mem hash key s.rbtree

/-- The insertion callback: walk down to a free place and hang the node there. -/
def rbtreeInsertAt (mem : Addr → Node) (node : Addr) : Lib.Tree Addr → Lib.Tree Addr
  | .nil => .node .nil node .nil
  | .node left temp right =>
    if (mem node).key < (mem temp).key then .node (rbtreeInsertAt mem node left) temp right
    else if (mem node).key > (mem temp).key then .node left temp (rbtreeInsertAt mem node right)
    else if memn2cmp (mem node).data (mem temp).data < 0 then
      .node (rbtreeInsertAt mem node left) temp right
    else .node left temp (rbtreeInsertAt mem node right)

/-- `ngx_rbtree_insert`: the callback, then rebalancing. -/
def rbtreeInsert (core : Core) (mem : Addr → Node) (node : Addr) (t : Lib.Tree Addr) : Lib.Tree Addr :=
  core.rbtreeBalance (rbtreeInsertAt mem node t)

/-- Move a node to the head of the queue. -/
def touch (s : Shctx) (ean : Addr) : Shctx :=
  { s with queue := ean :: s.queue.erase ean }

/-- Unlink a node from queue and tree and free its block. -/
def delete (core : Core) (s : Shctx) (ean : Addr) : Shctx :=
  { s with
    queue := s.queue.erase ean
    rbtree := core.rbtreeDelete ean s.rbtree
    blocks := s.blocks.filter fun b => b.addr ≠ ean }

/-- Store to the fields of a node. -/
def setNode (s : Shctx) (ean : Addr) (n : Node) : Shctx :=
  { s with mem := Function.update s.mem ean n }

end ErrorAbuse
