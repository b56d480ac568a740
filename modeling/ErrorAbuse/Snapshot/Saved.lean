import ErrorAbuse.Lib.Intervals
import Mathlib.Algebra.Order.BigOperators.Group.List
import ErrorAbuse.Snapshot.Restore
import ErrorAbuse.Zone.Standing

/-!
# What a snapshot holds

`serialize` writes a record for each node, oldest first, until the buffer has no room
for the next one. With 64-bit times a record is never larger than the block of its node,
and the blocks are disjoint parts of a segment as large as the buffer, so there is
always room. `load_serialize` follows the bytes through every check of `load` up to the
validator.
-/

namespace ErrorAbuse

open Lib Lib.Limiter

variable {core : Core} {conf : ZoneConf} {s s' : Shctx} {n : Node} {t : ℤ}

/-! ## Blocks -/

/-- The live blocks of a zone are disjoint parts of the segment, each the size of a node. -/
structure Packed (conf : ZoneConf) (s : Shctx) : Prop where
  inside : ∀ b ∈ s.blocks, b.size = conf.nodeSize digestLen ∧ conf.plat.slabHeader ≤ b.addr ∧
    b.addr + b.size ≤ conf.shmSize
  apart : s.blocks.Pairwise (Apart Block.addr Block.size)

theorem packed_empty (conf : ZoneConf) : Packed conf .empty := ⟨by simp [Shctx.empty], .nil⟩

theorem Packed.of_sublist (h : Packed conf s) (hsub : s'.blocks.Sublist s.blocks) :
    Packed conf s' := ⟨fun b hb => h.inside b (hsub.subset hb), h.apart.sublist hsub⟩

theorem callStep_packed (hi : Indexed core s) (h : Packed conf s) (c : Call) :
    Packed conf (callStep core conf s c) := by
  obtain ⟨lost, s₁, hs, -, heff, -⟩ := exec_effect conf hi c
  have h₁ : Packed conf s₁ := h.of_sublist hs.blocks
  rw [callStep]
  generalize c.exec core conf s = r at heff
  cases heff with
  | absent _ _ => exact h₁
  | full _ _ => exact h₁
  | wrote n s' _ _ _ _ hblocks _ =>
      rcases hblocks with he | ⟨a, ⟨hlo, hhi, hfree⟩, he⟩
      · exact h₁.of_sublist (he ▸ List.Sublist.refl _)
      · refine ⟨?_, ?_⟩
        · intro b hb
          rw [he] at hb
          rcases List.mem_cons.mp hb with rfl | hb
          · exact ⟨rfl, hlo, hhi⟩
          · exact h₁.inside b hb
        · rw [he]
          exact List.pairwise_cons.mpr ⟨fun b hb => (hfree b hb).2, h₁.apart⟩

/-- The nodes of a zone fit into the segment behind the pool header. -/
theorem Packed.nodes_le (h : Packed conf s) (hi : Indexed core s) :
    s.queue.length * conf.nodeSize digestLen ≤ conf.shmSize - conf.plat.slabHeader := by
  have hlen : s.blocks.length = s.queue.length := by
    simpa only [List.length_map] using hi.live.length_eq
  have hsum : (s.blocks.map Block.size).sum = s.blocks.length * conf.nodeSize digestLen := by
    refine (List.sum_eq_card_nsmul _ (conf.nodeSize digestLen) ?_).trans (by simp)
    intro m hm
    obtain ⟨b, hb, rfl⟩ := List.mem_map.mp hm
    exact (h.inside b hb).1
  rw [← hlen, ← hsum]
  exact sum_size_le (fun b hb => (h.inside b hb).2) h.apart

/-! ## Records -/

@[simp] theorem length_putNode (conf : ZoneConf) (n : Node) :
    (putNode conf n).length = serializeRecLen n.data.length n.eventCount := by
  have hev : ((n.contents conf).flatMap fun e => putU64 (toUInt64 e)).length = n.eventCount * 8 := by
    rw [List.length_flatMap, List.map_congr_left fun e _ => by rw [putU64_eq, length_encodeLE]]
    simp
  rw [putNode_eq]
  simp only [List.length_append, hev]
  simp only [putU16_eq, putU64_eq, length_encodeLE, serializeRecLen, fileRecLen]
  omega

/-- The bytes of the first `k` nodes of a list. -/
def putNodes (conf : ZoneConf) (mem : Addr → Node) (l : List Addr) : List UInt8 :=
  (l.map fun a => putNode conf (mem a)).flatten

/-- The segment is larger than the header of a file. -/
theorem ZoneConf.fileHdrLen_le (conf : ZoneConf) : fileHdrLen ≤ conf.shmSize := by
  have hshm := conf.shmSize_ge
  have hpage := conf.plat.pageSize_ge
  rw [fileHdrLen]
  omega

/-- The loop of `serialize` writes the nodes of a prefix, which is the whole list if that
fits, and never runs over the capacity. -/
theorem serializeNodes_spec (conf : ZoneConf) (mem : Addr → Node) (l : List Addr) {p : ℕ}
    (hp : p ≤ conf.shmSize) :
    ∃ k ≤ l.length,
      serializeNodes conf mem l p = (putNodes conf mem (l.take k), UInt32.ofNat k) ∧
      p + (putNodes conf mem (l.take k)).length ≤ conf.shmSize ∧
      (p + (putNodes conf mem l).length ≤ conf.shmSize → k = l.length) := by
  induction l generalizing p with
  | nil => exact ⟨0, le_rfl, rfl, hp, fun _ => rfl⟩
  | cons q l ih =>
      have hcons : ∀ l', putNodes conf mem (q :: l') = putNode conf (mem q) ++ putNodes conf mem l' :=
        fun _ => rfl
      rw [serializeNodes_cons, ptrDiff_eq hp, ← length_putNode conf]
      split_ifs with hroom
      · refine ⟨0, Nat.zero_le _, rfl, hp, fun hfit => ?_⟩
        rw [hcons, List.length_append] at hfit
        omega
      · obtain ⟨k, hk, hrun, hle, hall⟩ := ih (p := p + (putNode conf (mem q)).length) (by omega)
        refine ⟨k + 1, Nat.succ_le_succ hk, ?_, ?_, fun hfit => ?_⟩
        · simp only [hrun, List.take_succ_cons, hcons, Prod.mk.injEq, true_and]
          exact (UInt32.ofNat_add k 1).symm
        · rw [List.take_succ_cons, hcons, List.length_append]
          omega
        · rw [hcons, List.length_append] at hfit
          rw [hall (by omega), List.length_cons]

/-- With eight-byte times every node of a well-formed zone has room in the snapshot. -/
theorem length_putNodes_le (hs : ZoneOk core conf t s) (hp : Packed conf s)
    (hbytes : conf.plat.time.bytes = 8) :
    fileHdrLen + (putNodes conf s.mem s.queue.reverse).length ≤ conf.shmSize := by
  have hrec : ∀ m ∈ (s.queue.reverse.map fun a => putNode conf (s.mem a)).map List.length,
      m ≤ conf.nodeSize digestLen := by
    intro m hm
    obtain ⟨bytes, hbytes', rfl⟩ := List.mem_map.mp hm
    obtain ⟨a, ha, rfl⟩ := List.mem_map.mp hbytes'
    have hn : NodeOk conf t (s.mem a) :=
      hs.nodes (hs.indexed.nodeOf_mem (List.mem_reverse.mp ha) rfl)
    have hcount := hn.count_lt
    have hoff := conf.plat.offsetofData_ge
    rw [length_putNode, hn.length_data, serializeRecLen, ZoneConf.nodeSize, hbytes, fileRecLen]
    omega
  have hlen : (putNodes conf s.mem s.queue.reverse).length ≤
      s.queue.length * conf.nodeSize digestLen := by
    rw [putNodes, List.length_flatten]
    simpa using List.sum_le_card_nsmul _ _ hrec
  have hroom := hp.nodes_le hs.indexed
  have hhdr := conf.plat.slabHeader_ge
  have hshm := conf.shmSize_ge
  have hpage := conf.plat.pageSize_ge
  rw [fileHdrLen]
  omega

/-! ## The file is accepted -/

@[simp] theorem length_putHeader (conf : ZoneConf) (records crc : UInt32) :
    (putHeader conf records crc).length = fileHdrLen := by
  simp [putHeader, fileMagic, fileHdrLen]

/-- The fields of the header, read back. -/
theorem getU32_putHeader (conf : ZoneConf) (records crc : UInt32) (rest : List UInt8) :
    (putHeader conf records crc ++ rest).take 8 = fileMagic ∧
    getU32 (putHeader conf records crc ++ rest) 8 = some fileVersion ∧
    getU32 (putHeader conf records crc ++ rest) 12 = some conf.threshold ∧
    getU32 (putHeader conf records crc ++ rest) 16 = some records.toNat ∧
    getU32 (putHeader conf records crc ++ rest) 20 = some crc.toNat := by
  have hmagic : fileMagic.length = 8 := rfl
  have hth : conf.threshold % 256 ^ 4 = conf.threshold :=
    Nat.mod_eq_of_lt (by have := conf.threshold_le; rw [maxThreshold] at this; omega)
  have hrec : records.toNat % 256 ^ 4 = records.toNat := Nat.mod_eq_of_lt records.toNat_lt
  have hcrc : crc.toNat % 256 ^ 4 = crc.toNat := Nat.mod_eq_of_lt crc.toNat_lt
  have h4 : ∀ v, (encodeLE 4 v).length = 4 := length_encodeLE 4
  simp only [putHeader, List.append_assoc, getU32_eq, putU32_eq]
  refine ⟨List.take_left' hmagic, ?_, ?_, ?_, ?_⟩
  · rw [readLE_skip hmagic _ 0 4, readLE_zero_encodeLE]
    rfl
  · rw [readLE_skip hmagic _ 4 4, readLE_skip (h4 _) _ 0 4, readLE_zero_encodeLE, hth]
  · rw [readLE_skip hmagic _ 8 4, readLE_skip (h4 _) _ 4 4, readLE_skip (h4 _) _ 0 4,
      readLE_zero_encodeLE, hrec]
  · rw [readLE_skip hmagic _ 12 4, readLE_skip (h4 _) _ 8 4, readLE_skip (h4 _) _ 4 4,
      readLE_skip (h4 _) _ 0 4, readLE_zero_encodeLE, hcrc]

/-- What `load` does past its checks of the file as a whole. -/
def loadPayload (core : Core) (conf : ZoneConf) (now : ℤ) (slabs : ℕ → Slab)
    (payload : List UInt8) (records : UInt32) (s : Shctx) : Option Loaded := do
  let rc ← validateSnapshot payload records conf.threshold
  if rc ≠ .ok then return .rejected .malformed
  else
    let (w, e) ← restore core conf now payload slabs records.toNat ⟨s, 0, 0, 0, []⟩
    return .accepted w e

/-- A payload of some bytes and a count that has wrapped to zero is malformed. -/
theorem loadPayload_zero (core : Core) (conf : ZoneConf) (now : ℤ) (slabs : ℕ → Slab)
    {payload : List UInt8} (h : payload ≠ []) (s : Shctx) :
    loadPayload core conf now slabs payload 0 s = some (.rejected .malformed) := by
  obtain ⟨rc, hrc, hiff⟩ : ∃ rc, validateSnapshot payload 0 conf.threshold = some rc ∧
      (rc = .ok ↔ IsPayload conf.threshold (0 : UInt32).toNat (payload.drop 0)) :=
    validateFrom_eq (Nat.zero_le _)
  have hne : rc ≠ .ok := by
    rw [Ne, hiff]
    simpa using h
  simp only [loadPayload, hrc, Option.bind_eq_bind, Option.bind_some, if_pos hne]
  rfl

/-- A file with a matching header, checksum and MAC gets as far as its payload. -/
theorem loadBytes_file (core : Core) (now : ℤ) (slabs : ℕ → Slab) {records : UInt32}
    {payload mac : List UInt8} (hlen : mac.length = conf.macLen)
    (hmac : conf.macLen = 0 ∨ core.hmac conf.persistSecret
      (putHeader conf records (core.crc32Long payload) ++ payload) = some mac) (s : Shctx) :
    loadBytes core conf now slabs
        (putHeader conf records (core.crc32Long payload) ++ payload ++ mac) s =
      loadPayload core conf now slabs payload records s := by
  generalize hbuf : putHeader conf records (core.crc32Long payload) ++ payload = buf at hmac
  have hsize : (buf ++ mac).length - conf.macLen = buf.length := by
    rw [List.length_append, hlen, Nat.add_sub_cancel]
  have hassoc : buf ++ mac = putHeader conf records (core.crc32Long payload) ++ (payload ++ mac) := by
    rw [← hbuf, List.append_assoc]
  obtain ⟨hmagic, hver, hth, hrec, hcrc⟩ :=
    getU32_putHeader conf records (core.crc32Long payload) (payload ++ mac)
  rw [← hassoc] at hmagic hver hth hrec hcrc
  have hpayload : buf.drop fileHdrLen = payload := by
    rw [← hbuf, List.drop_left' (length_putHeader ..)]
  simp only [loadBytes, loadBytesVia, restoreVia_plain, hsize, List.take_left, List.drop_left, hver, hth, hrec, hcrc, hmagic,
    hpayload, Option.bind_eq_bind, Option.bind_some]
  rw [if_neg (not_not.mpr hmac), if_neg (by simp), if_neg (by simp), UInt32.ofNat_toNat]
  rfl

/-- A file `serialize` writes: a header, the records of the first nodes from the tail, and
the MAC of both if there is a secret. -/
theorem serialize_file {alloc : Bool} {file : List UInt8}
    (hser : serialize core conf alloc s = some file) :
    ∃ k ≤ s.queue.reverse.length, ∃ mac, mac.length = conf.macLen ∧
      let payload := putNodes conf s.mem (s.queue.reverse.take k)
      file = putHeader conf (UInt32.ofNat k) (core.crc32Long payload) ++ payload ++ mac ∧
      serializeNodes conf s.mem s.queue.reverse fileHdrLen = (payload, UInt32.ofNat k) ∧
      fileHdrLen + payload.length ≤ conf.shmSize ∧
      (conf.macLen = 0 ∨ core.hmac conf.persistSecret
        (putHeader conf (UInt32.ofNat k) (core.crc32Long payload) ++ payload) = some mac) := by
  obtain ⟨k, hk, hrun, hfit, -⟩ := serializeNodes_spec conf s.mem s.queue.reverse conf.fileHdrLen_le
  refine ⟨k, hk, ?_⟩
  simp only [serialize_eq, hrun] at hser
  split_ifs at hser with halloc hsecret
  · obtain ⟨mac, hm, rfl⟩ := Option.map_eq_some_iff.mp hser
    have hl := core.length_hmac _ _ _ hm
    exact ⟨mac, by rw [hl, ZoneConf.macLen, if_pos hsecret]; rfl, rfl, hrun, hfit, .inr hm⟩
  · have hz : conf.macLen = 0 := if_neg hsecret
    exact ⟨[], hz.symm, by simpa using (Option.some.inj hser).symm, hrun, hfit, .inl hz⟩

/-- **A snapshot is accepted as far as its payload**, whatever zone and time it is loaded
into: size, MAC, magic, version, threshold and checksum all pass. -/
theorem load_serialize {alloc : Bool} {bytes : List UInt8}
    (hser : serialize core conf alloc s = some bytes) (now : ℤ) (slabs : ℕ → Slab) (s' : Shctx) :
    load core conf now slabs (.content bytes true true) s' =
      loadPayload core conf now slabs (serializeNodes conf s.mem s.queue.reverse fileHdrLen).1
        (serializeNodes conf s.mem s.queue.reverse fileHdrLen).2 s' := by
  obtain ⟨k, -, mac, hlen, rfl, hrun, hfit, hmac⟩ := serialize_file hser
  rw [hrun]
  generalize putNodes conf s.mem (s.queue.reverse.take k) = payload at hfit hmac
  have hbytes : (putHeader conf (UInt32.ofNat k) (core.crc32Long payload) ++ payload ++ mac).length =
      fileHdrLen + payload.length + conf.macLen := by simp [hlen, Nat.add_assoc]
  simp only [load, loadVia, loadBytesVia_plain]
  rw [if_neg (by omega)]
  exact loadBytes_file core now slabs hlen hmac s'

/-- A snapshot is never deleted: its checksum is that of its payload. -/
theorem not_deleted_of_serialize {alloc : Bool} {bytes : List UInt8}
    (hser : serialize core conf alloc s = some bytes) {now : ℤ} {slabs : ℕ → Slab} {s' : Shctx}
    {r : Loaded} (hload : load core conf now slabs (.content bytes true true) s' = some r) :
    r.deleted = false := by
  rw [load_serialize hser, loadPayload] at hload
  obtain ⟨rc, -, hload⟩ := Option.bind_eq_some_iff.mp hload
  split_ifs at hload
  · obtain rfl := Option.some.inj hload
    rfl
  · obtain ⟨⟨w, e⟩, -, hload⟩ := Option.bind_eq_some_iff.mp hload
    obtain rfl := Option.some.inj hload
    rfl

/-! ## The records of nodes -/

theorem toInt64_toUInt64 {x : ℤ} (h0 : 0 ≤ x) (h : x < 2 ^ 63) : toInt64 (toUInt64 x) = x := by
  have hmod : x % 2 ^ 64 = x := Int.emod_eq_of_lt h0 (by omega)
  have hnat : ((x.toNat : ℕ) : ℤ) = x := Int.toNat_of_nonneg h0
  rw [toUInt64, hmod, toInt64, if_pos (by omega), hnat]

theorem toUInt64_lt {x : ℤ} (h0 : 0 ≤ x) (h : x < 2 ^ 63) : toUInt64 x < 2 ^ 64 := by
  have hmod : x % 2 ^ 64 = x := Int.emod_eq_of_lt h0 (by omega)
  rw [toUInt64, hmod]
  omega

/-- The record of a node: its bytes, and what they decode to. -/
structure Records (conf : ZoneConf) (r : SnapRecord conf.threshold) (n : Node) : Prop where
  bytes : r.encode = putNode conf n
  key : (r.key : Key) = n.data
  blocked : toInt64 r.blocked.toNat = n.blockedUntil
  seen : toInt64 r.seen.toNat = n.lastSeen
  events : (r.events.map fun v => toInt64 v.toNat) = n.contents conf

/-- Every well-formed node has a record. -/
theorem NodeOk.exists_record (h : NodeOk conf t n) (ht : t ≤ conf.timeMax) :
    ∃ r, Records conf r n := by
  have hmax := conf.timeMax_lt
  have htime : ∀ {x : ℤ}, 0 ≤ x → x ≤ conf.timeMax →
      toInt64 (UInt64.ofNat (toUInt64 x)).toNat = x ∧
        (UInt64.ofNat (toUInt64 x)).toNat = toUInt64 x := by
    intro x h0 hx
    have hlt : (UInt64.ofNat (toUInt64 x)).toNat = toUInt64 x :=
      UInt64.toNat_ofNat_of_lt' (toUInt64_lt h0 (by omega))
    exact ⟨by rw [hlt, toInt64_toUInt64 h0 (by omega)], hlt⟩
  have hban : n.blockedUntil ≤ conf.timeMax := by
    by_cases hz : n.blockedUntil = 0
    · have := conf.timeMax_pos
      omega
    · exact (h.ban_le hz).trans (timeAddSaturate_le_timeMax conf.block_pos)
  have hseen : n.lastSeen ≤ conf.timeMax := h.lastSeen_le.trans ht
  have hev : ∀ x ∈ n.contents conf, 0 ≤ x ∧ x ≤ conf.timeMax := fun x hx =>
    ⟨h.nonneg x hx, (h.le_lastSeen x hx).trans hseen⟩
  have hth : conf.threshold ≤ 1024 := conf.threshold_le
  have hlen : ((n.contents conf).map fun x => UInt64.ofNat (toUInt64 x)).length = n.eventCount := by
    simp
  refine ⟨{ blocked := UInt64.ofNat (toUInt64 n.blockedUntil)
            seen := UInt64.ofNat (toUInt64 n.lastSeen)
            key := ⟨n.data, h.length_data⟩
            events := (n.contents conf).map fun x => UInt64.ofNat (toUInt64 x)
            length_le := hlen ▸ h.count_lt.le
            length_lt := by have := h.count_lt; omega }, ?_, rfl,
          (htime h.ban_nonneg hban).1, (htime h.lastSeen_nonneg hseen).1, ?_⟩
  · have hput : encodeEvents ((n.contents conf).map fun x => UInt64.ofNat (toUInt64 x)) =
        (n.contents conf).flatMap fun x => putU64 (toUInt64 x) := by
      rw [encodeEvents, List.flatMap_map]
      refine List.flatMap_congr fun x hx => ?_
      obtain ⟨h0, hle⟩ := hev x hx
      rw [(htime h0 hle).2]
    simp only [SnapRecord.encode, putNode_eq, hput, hlen, h.length_data,
      (htime h.ban_nonneg hban).2, (htime h.lastSeen_nonneg hseen).2]
  · rw [List.map_map]
    refine (List.map_congr_left fun x hx => ?_).trans (List.map_id _)
    obtain ⟨h0, hle⟩ := hev x hx
    exact (htime h0 hle).1

end ErrorAbuse
