import ErrorAbuse.Snapshot.Saved
import ErrorAbuse.Snapshot.Sanitise
import ErrorAbuse.Zone.Slots

/-!
# Ring safety

`serialize` and `load` with a check at every access to an event array, and all operations
of a zone together. The bounds of the rings hold in every reachable state, whatever the
clocks read and whatever files were loaded on the way, so there no check ever fails. A ring
filled to the last slot, which a file may announce, is within them.
-/

namespace ErrorAbuse

open Lib

variable {core : Core} {conf : ZoneConf} {now : ℤ} {s : Shctx} {n : Node} {buf : List UInt8}

/-! ## Operations with checks -/

def serializeChecked (core : Core) (conf : ZoneConf) (alloc : Bool) (s : Shctx) :
    Option (Option (List UInt8)) :=
  serializeVia .checked conf core alloc s

/-- The state after an operation, if every access it makes is to a slot that exists. -/
def opStepChecked (core : Core) (conf : ZoneConf) (s : Shctx) : Op → Option Shctx
  | .request (.call c) => (c.execVia .checked core conf s).map Prod.fst
  | .request (.peek key now) => (peekVia .checked core conf key now s).map fun _ => s
  | .load now slabs disk => (loadVia .checked core conf now slabs disk s).map (Loaded.zone s)
  | .expire now limit => some (ErrorAbuse.expire core conf now limit s)
  | .evict now => some (evictOneUnblocked core now s).1

/-! ## Restoring stays in bounds -/

theorem nodeInvariant_bounded (core : Core) (conf : ZoneConf) :
    NodeInvariant core conf (Bounded conf) where
  fresh key now := .fresh conf _ key now
  onNode c n h :=
    Bounded.onNode (n := { n with lastSeen := c.now }) ⟨h.head, h.count, h.slots, h.digest⟩ c
  toNode r now n h := by
    obtain ⟨-, hhead, hcount, hslots, -, -⟩ := toNode_spec now r h.slots
    refine ⟨hhead ▸ conf.threshold_pos, ?_, hslots, ?_⟩
    · rw [hcount]
      exact (length_keptEvents_le conf now r.events).trans r.length_le
    · rw [(r.toNode_key_data conf now n).2]
      exact h.digest

/-- Storing one event of a record. -/
theorem Bounded.push (h : Bounded conf n) (hroom : n.eventCount < conf.threshold) (i : ℕ) (x : ℤ) :
    Bounded conf { n with events := n.events.set i x, eventCount := n.eventCount + 1 } :=
  ⟨h.head, hroom, by simpa using h.slots, h.digest⟩

/-- With room for all the events still to come, every store is to a slot that exists. -/
theorem restoreEvents_checked (now : ℤ) (buf : List UInt8) (k p : ℕ) (h : Bounded conf n)
    (hroom : n.eventCount + k ≤ conf.threshold) :
    restoreEventsVia .checked conf now buf k p n = restoreEvents conf now buf k p n := by
  induction k generalizing p n with
  | zero => rfl
  | succ k ih =>
      rw [restoreEventsVia, restoreEvents_succ]
      refine Option.bind_congr fun v _ => ?_
      dsimp only
      split_ifs
      · rw [write_checked h.slots (by omega)]
        exact ih (p + 8) (h.push (by omega) _ _) (by dsimp only; omega)
      · exact ih (p + 8) h (by omega)

/-- The node and the position after the events of a record. -/
theorem restoreEvents_some {k p p' : ℕ} {m : Node} (h : Bounded conf n)
    (hroom : n.eventCount + k ≤ conf.threshold)
    (hrun : restoreEvents conf now buf k p n = some (m, p')) :
    Bounded conf m ∧ m.key = n.key ∧ m.data = n.data ∧ p' = p + 8 * k := by
  induction k generalizing p n with
  | zero =>
      obtain ⟨rfl, rfl⟩ := Prod.mk.inj (Option.some.inj hrun)
      exact ⟨h, rfl, rfl, rfl⟩
  | succ k ih =>
      rw [restoreEvents_succ] at hrun
      cases hv : getU64 buf p with
      | none =>
          rw [hv] at hrun
          cases hrun
      | some v =>
          rw [hv, Option.bind_some] at hrun
          split_ifs at hrun
          · obtain ⟨hm, hk, hd, hp⟩ := ih (h.push (by omega) _ _) (by dsimp only; omega) hrun
            exact ⟨hm, hk, hd, by omega⟩
          · obtain ⟨hm, hk, hd, hp⟩ := ih h (by omega) hrun
            exact ⟨hm, hk, hd, by omega⟩

/-- A zone with a consistent index whose rings are all in bounds. -/
structure Safe (core : Core) (conf : ZoneConf) (s : Shctx) : Prop where
  indexed : Indexed core s
  bounded : EveryNode core (Bounded conf) s

theorem reachable_safe (core : Core) (conf : ZoneConf) (ops : List Op) :
    Safe core conf (run (opStep core conf) .empty ops) :=
  ⟨reachable_indexed core conf ops, reachable_everyNode (nodeInvariant_bounded core conf) ops⟩

theorem Safe.shrinks {lost : List Key} {s' : Shctx} (h : Safe core conf s)
    (hs : Shrinks core conf now lost s s') : Safe core conf s' :=
  ⟨hs.indexed, h.bounded.shrinks h.indexed hs⟩

theorem Safe.node {a : Addr} (h : Safe core conf s) (ha : a ∈ s.queue) : Bounded conf (s.mem a) :=
  h.bounded.of_mem h.indexed ha

/-- Storing a node that is in bounds and has the identity of the node it replaces. -/
theorem Safe.setNode {a : Addr} (h : Safe core conf s) (ha : a ∈ s.queue) (hn : Bounded conf n)
    (hk : n.key = (s.mem a).key) (hd : n.data = (s.mem a).data) :
    Safe core conf (setNode s a n) := by
  refine ⟨h.indexed.setNode hk hd, fun key m hm => ?_⟩
  rw [h.indexed.nodeOf_setNode ha hk hd] at hm
  split_ifs at hm
  · obtain rfl := Option.some.inj hm
    exact hn
  · exact h.bounded key m hm

theorem Safe.linkNode {a : Addr} (h : Safe core conf s) {key : Digest}
    (hf : FreeBlock conf s (conf.nodeSize digestLen) a) (hn : nodeOf core s key = none) (now : ℤ) :
    Safe core conf (linkNode core conf (core.crc32Short key) key now a
      { s with blocks := ⟨a, conf.nodeSize digestLen⟩ :: s.blocks }) := by
  refine ⟨h.indexed.linkNode hf hn now, fun k m hm => ?_⟩
  rw [h.indexed.nodeOf_linkNode hf hn] at hm
  split_ifs at hm
  · obtain rfl := Option.some.inj hm
    exact .fresh conf _ key now
  · exact h.bounded k m hm

/-- The node created for a key, if one could be, is a node of a safe zone. -/
theorem Safe.createNode (h : Safe core conf s) {key : Digest} (now : ℤ) (slab : Slab)
    (hl : lookup s (core.crc32Short key) key = none) :
    let r := createNode core conf (core.crc32Short key) key now slab s
    Safe core conf r.1 ∧ ∀ a, r.2 = some a → a ∈ r.1.queue := by
  obtain ⟨lost, s₁, hs, -, -, hn, hcreate⟩ := createNode_effect conf now slab h.indexed hl
  have h₁ : Safe core conf s₁ := h.shrinks hs
  cases hcreate with
  | failed hcr _ =>
      rw [hcr]
      exact ⟨h₁, by simp⟩
  | linked a hcr hf =>
      rw [hcr]
      refine ⟨h₁.linkNode hf hn now, ?_⟩
      intro b hb
      obtain rfl := Option.some.inj hb
      exact List.mem_cons_self

/-- Likewise for the node a record is restored to. -/
theorem Safe.restoreTarget (h : Safe core conf s) (key : Digest) (now : ℤ) (slab : Slab) :
    let r := restoreTarget core conf now slab key s
    Safe core conf r.1 ∧ ∀ a, r.2 = some a → a ∈ r.1.queue := by
  rw [ErrorAbuse.restoreTarget]
  cases hl : lookup s (core.crc32Short key) key with
  | some a =>
      refine ⟨h, ?_⟩
      intro b hb
      obtain rfl := Option.some.inj hb
      exact (h.indexed.lookup_eq_some_iff.mp hl).1
  | none => exact h.createNode now slab hl

/-! ## No check fails -/

/-- The restore loop on a safe zone: with its checks it does what it does without. -/
theorem restore_checked (core : Core) (now : ℤ) (slabs : ℕ → Slab) (k : ℕ) {w : Walk}
    (h : Safe core conf w.zone) (hp : w.p ≤ buf.length) :
    restoreVia .checked core conf now buf slabs k w = restore core conf now buf slabs k w := by
  induction k generalizing w with
  | zero => rfl
  | succ k ih =>
      rw [restore, restoreVia, restoreVia, restoreVia_plain, restoreEventsVia_plain]
      by_cases hhdr : ptrDiff buf.length w.p < fileRecLen
      · rw [if_pos hhdr, if_pos hhdr]
      · rw [if_neg hhdr, if_neg hhdr]
        rw [ptrDiff_eq hp] at hhdr
        refine Option.bind_congr fun recKeyLen _ => Option.bind_congr fun recEventCount _ =>
          Option.bind_congr fun recBlocked _ => Option.bind_congr fun recSeen _ => ?_
        dsimp only
        rw [ptrDiff_eq (show w.p + fileRecLen ≤ buf.length by omega)]
        split_ifs with hbad hskip
        · rfl
        · exact ih h (by dsimp only; omega)
        · obtain ⟨rfl, hcount, hbody⟩ : recKeyLen = digestLen ∧ recEventCount ≤ conf.threshold ∧
              digestLen + recEventCount * 8 ≤ buf.length - (w.p + fileRecLen) := by omega
          have hkey : ((buf.drop (w.p + fileRecLen)).take digestLen).length = digestLen := by
            rw [List.length_take, List.length_drop]
            omega
          obtain ⟨hsafe, hmem⟩ := h.restoreTarget ⟨_, hkey⟩ now (slabs k)
          generalize restoreTarget core conf now (slabs k) _ w.zone = r at hsafe hmem
          obtain ⟨zone, _ | a⟩ := r
          · rfl
          · have ha : a ∈ zone.queue := hmem a rfl
            have hn : Bounded conf (restoreHeader conf now (toInt64 recBlocked) (toInt64 recSeen)
                (zone.mem a)) :=
              ⟨conf.threshold_pos, Nat.zero_le _, (hsafe.node ha).slots, (hsafe.node ha).digest⟩
            dsimp only
            rw [restoreEvents_checked now buf _ _ hn (by simpa [restoreHeader] using hcount)]
            refine Option.bind_congr fun restored hrun => ?_
            obtain ⟨ean, p⟩ := restored
            obtain ⟨hb, hk, hd, rfl⟩ := restoreEvents_some hn (by simpa [restoreHeader] using hcount) hrun
            exact ih (hsafe.setNode ha hb hk hd) (by dsimp only; omega)

/-- A whole file, accepted or not. -/
theorem load_checked (h : Safe core conf s) (now : ℤ) (slabs : ℕ → Slab) (disk : Disk) :
    loadVia .checked core conf now slabs disk s = load core conf now slabs disk s := by
  cases disk with
  | openFailed => rfl
  | infoFailed => rfl
  | content bytes alloc read =>
      have hrestore : ∀ payload k, restoreVia .checked core conf now payload slabs k ⟨s, 0, 0, 0, []⟩ =
          restore core conf now payload slabs k ⟨s, 0, 0, 0, []⟩ :=
        fun payload k => restore_checked core now slabs k h (Nat.zero_le payload.length)
      simp only [load, loadVia, loadBytesVia, hrestore, restoreVia_plain]

theorem putNode_checked (h : n.events.length = conf.threshold) :
    putNodeVia .checked conf n = some (putNode conf n) := by
  rw [putNodeVia, readRing_checked h, putNode_eq]
  rfl

theorem serializeNodes_checked {mem : Addr → Node} {l : List Addr}
    (h : ∀ a ∈ l, (mem a).events.length = conf.threshold) (p : ℕ) :
    serializeNodesVia .checked conf mem l p = some (serializeNodes conf mem l p) := by
  induction l generalizing p with
  | nil => rfl
  | cons q l ih =>
      rw [serializeNodesVia, serializeNodes_cons, putNode_checked (h q List.mem_cons_self)]
      dsimp only
      split_ifs
      · rfl
      · rw [Option.bind_eq_bind, Option.bind_some, ih fun a ha => h a (List.mem_cons_of_mem q ha)]
        rfl

theorem serializeChecked_eq (h : Safe core conf s) (alloc : Bool) :
    serializeChecked core conf alloc s = some (serialize core conf alloc s) := by
  have hslots : ∀ a ∈ s.queue.reverse, (s.mem a).events.length = conf.threshold :=
    fun a ha => (h.node (List.mem_reverse.mp ha)).slots
  rw [serializeChecked, serializeVia, serialize_eq, serializeNodes_checked hslots]
  split_ifs <;> rfl

theorem recordAt_checked {a : Addr} (h : Bounded conf (s.mem a)) (now : ℤ) :
    recordAtVia .checked conf a now s = some (recordAt conf a now s) := by
  rw [recordAtVia, recordNode_checked h]
  rfl

/-- The prologue of a call leads to a safe zone and, on a hit, to a node of it. -/
theorem Safe.findTouchLocked (h : Safe core conf s) (key : Key) (now : ℤ) :
    (findTouchLocked core conf (core.crc32Short key) key now s =
        (expire core conf now 2 s, none) ∧
      lookup (expire core conf now 2 s) (core.crc32Short key) key = none) ∨
    ∃ s' a, findTouchLocked core conf (core.crc32Short key) key now s = (s', some a) ∧
      Bounded conf (s'.mem a) := by
  have he : Safe core conf (expire core conf now 2 s) :=
    h.shrinks (expire_shrinks conf now h.indexed 2)
  rw [findTouchLocked_eq]
  cases hl : lookup (expire core conf now 2 s) (core.crc32Short key) key with
  | none => exact .inl ⟨rfl, rfl⟩
  | some a =>
      have hn := he.node (he.indexed.lookup_eq_some_iff.mp hl).1
      refine .inr ⟨_, a, rfl, ?_⟩
      simp only [touch, ErrorAbuse.setNode, Function.update_self]
      exact ⟨hn.head, hn.count, hn.slots, hn.digest⟩

/-- A deciding call on a safe zone. -/
theorem exec_checked (h : Safe core conf s) (c : Call) :
    c.execVia .checked core conf s = some (c.exec core conf s) := by
  cases c with
  | record key now slab =>
      rw [Call.execVia, Call.exec, recordVia, record_eq]
      rcases h.findTouchLocked key now with ⟨hfind, hl⟩ | ⟨s', a, hfind, hn⟩
      · have he : Safe core conf (expire core conf now 2 s) :=
          h.shrinks (expire_shrinks conf now h.indexed 2)
        obtain ⟨hsafe, hmem⟩ := he.createNode now slab hl
        simp only [hfind]
        generalize createNode core conf _ _ now slab _ = r at hsafe hmem
        obtain ⟨s', _ | a⟩ := r
        · rfl
        · exact recordAt_checked (hsafe.node (hmem a rfl)) now
      · simp only [hfind]
        exact recordAt_checked hn now
  | isBlocked key now =>
      rw [Call.execVia, Call.exec, isBlockedVia, isBlocked_eq]
      rcases h.findTouchLocked key now with ⟨hfind, hl⟩ | ⟨s', a, hfind, hn⟩
      · simp only [hfind]
        rfl
      · simp only [hfind, isBlockedNode_checked hn]
        rfl

theorem peek_checked (h : Safe core conf s) (key : Key) (now : ℤ) :
    peekVia .checked core conf key now s = some (peek core conf key now s) := by
  rw [peekVia, peek_eq]
  cases hl : lookup s (core.crc32Short key) key with
  | none => rfl
  | some a =>
      have hn := h.node (h.indexed.lookup_eq_some_iff.mp hl).1
      dsimp only
      by_cases hban : (s.mem a).blockedUntil > now
      · rw [if_pos hban, if_pos hban]
        rfl
      · rw [if_neg hban, if_neg hban, readRing_checked hn.slots]
        rfl

/-- Every operation on a safe zone. -/
theorem opStepChecked_eq (h : Safe core conf s) (op : Op) :
    opStepChecked core conf s op = some (opStep core conf s op) := by
  cases op with
  | request r =>
      cases r with
      | call c =>
          rw [opStepChecked, exec_checked h]
          rfl
      | peek key now =>
          rw [opStepChecked, peek_checked h]
          rfl
  | load now slabs disk =>
      obtain ⟨r, hr, -⟩ := load_effect core conf now slabs disk s
      rw [opStepChecked, opStep, load_checked h, hr]
      rfl
  | expire now limit => rfl
  | evict now => rfl

/-! ## What is written -/

/-- The record of a node in bounds is one the validator accepts. -/
theorem Bounded.isRecord (h : Bounded conf n) : IsRecord conf.threshold (putNode conf n) := by
  have hmax : conf.threshold ≤ 1024 := conf.threshold_le
  have hcount := h.count
  have hread : ∀ (k : ℕ) (pre post : List UInt8), k < 2 ^ 16 →
      getU16 (pre ++ (putU16 k ++ post)) pre.length = some k := by
    intro k pre post hk
    rw [getU16_eq, putU16_eq, readLE_encodeLE]
    rw [Nat.mod_eq_of_lt (by omega)]
  refine ⟨?_, n.eventCount, ?_, hcount, ?_⟩
  · rw [putNode_eq, h.digest]
    exact hread digestLen [] _ (by decide)
  · rw [putNode_eq]
    exact hread n.eventCount (putU16 n.data.length) _ (by omega)
  · rw [length_putNode, h.digest, serializeRecLen]
    omega

theorem validateSnapshot_record {threshold : ℕ} {r : List UInt8} (h : IsRecord threshold r) :
    validateSnapshot r 1 threshold = some .ok := by
  obtain ⟨rc, hrc, hiff⟩ : ∃ rc, validateSnapshot r 1 threshold = some rc ∧
      (rc = .ok ↔ IsPayload threshold (1 : UInt32).toNat (r.drop 0)) :=
    validateFrom_eq (Nat.zero_le _)
  rw [hrc, hiff.mpr ⟨[r], rfl, by simp, by simpa using h⟩]

/-- **Ring safety.** In every state a zone can reach, by requests, expiry, forced eviction
and the loading of any files, with whatever clock readings: the ring of every node is
inside its event array; no operation, and no writing of a snapshot, accesses a slot that
is not there; and a snapshot consists of records that the validator of `load` accepts,
the announced number of events included. -/
theorem ring_safe (core : Core) (conf : ZoneConf) (ops : List Op) :
    let s := run (opStep core conf) .empty ops
    (∀ a ∈ s.queue,
      (s.mem a).eventHead < conf.threshold ∧ (s.mem a).eventCount ≤ conf.threshold) ∧
    (∀ op, opStepChecked core conf s op = some (opStep core conf s op)) ∧
    (∀ alloc, serializeChecked core conf alloc s = some (serialize core conf alloc s)) ∧
    ∀ alloc file, serialize core conf alloc s = some file →
      ∃ (recs : List (List UInt8)) (mac : List UInt8),
        file = putHeader conf (UInt32.ofNat recs.length) (core.crc32Long recs.flatten) ++
          recs.flatten ++ mac ∧
        mac.length = conf.macLen ∧
        ∀ r ∈ recs, (∃ count ≤ conf.threshold, getU16 r 2 = some count) ∧
          validateSnapshot r 1 conf.threshold = some .ok := by
  intro s
  have h : Safe core conf s := reachable_safe core conf ops
  refine ⟨fun a ha => ⟨(h.node ha).head, (h.node ha).count⟩, opStepChecked_eq h,
    serializeChecked_eq h, ?_⟩
  intro alloc file hser
  obtain ⟨k, hk, mac, hmac, hfile, -⟩ := serialize_file hser
  refine ⟨(s.queue.reverse.take k).map fun a => putNode conf (s.mem a), mac, ?_, hmac, ?_⟩
  · rw [List.length_map, List.length_take, min_eq_left hk]
    exact hfile
  · intro r hr
    obtain ⟨a, ha, rfl⟩ := List.mem_map.mp hr
    have hrec := (h.node (List.mem_reverse.mp (List.mem_of_mem_take ha))).isRecord
    obtain ⟨count, hcount, hle, -⟩ := hrec.events
    exact ⟨⟨count, hle, hcount⟩, validateSnapshot_record hrec⟩

end ErrorAbuse
