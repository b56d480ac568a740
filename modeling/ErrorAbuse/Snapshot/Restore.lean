import ErrorAbuse.Snapshot.Lockstep
import ErrorAbuse.Zone.Effects

/-!
# What loading can do to a zone

Restoring a record writes the node of its key, after the same housekeeping any other
creation may need. `Restored` says all that one record can do, and `restoreAll_induction`
carries an invariant from records to payloads. `load_effect` connects the two to files:
whatever the bytes, `load` reads inside its buffer, and it either leaves the zone alone
or folds some list of records into it.
-/

namespace ErrorAbuse

open Lib

variable {core : Core} {conf : ZoneConf} {threshold : ℕ} {now : ℤ} {s s' : Shctx} {a : Addr}

/-! ## One record -/

theorem keepEvent_key_data (conf : ZoneConf) (now : ℤ) (ean : Node) (v : UInt64) :
    (keepEvent conf now ean v).key = ean.key ∧ (keepEvent conf now ean v).data = ean.data := by
  unfold keepEvent
  split_ifs <;> exact ⟨rfl, rfl⟩

/-- Restoring a record does not change the identity of its node. -/
theorem SnapRecord.toNode_key_data (r : SnapRecord threshold) (conf : ZoneConf) (now : ℤ)
    (ean : Node) : (r.toNode conf now ean).key = ean.key ∧ (r.toNode conf now ean).data = ean.data := by
  rw [SnapRecord.toNode]
  generalize hn : restoreHeader conf now (toInt64 r.blocked.toNat) (toInt64 r.seen.toNat) ean = n
  have hkd : n.key = ean.key ∧ n.data = ean.data := by subst hn; exact ⟨rfl, rfl⟩
  clear hn
  induction r.events generalizing n with
  | nil => exact hkd
  | cons v events ih =>
      obtain ⟨hk, hd⟩ := keepEvent_key_data conf now n v
      exact ih _ ⟨hk.trans hkd.1, hd.trans hkd.2⟩

/-- Everything restoring the record `r` to the node at `a` can do: housekeeping that
leads to `s₁`, then the node the key has there, or a new one, is overwritten. -/
structure Restored (core : Core) (conf : ZoneConf) (now : ℤ) (r : SnapRecord threshold)
    (s s₁ s' : Shctx) (a : Addr) (n : Node) : Prop where
  room : ∃ lost, Shrinks core conf now lost s s₁
  subject : nodeOf core s₁ r.key = some n ∨
    nodeOf core s₁ r.key = none ∧ n = freshNode conf (core.crc32Short r.key) r.key now
  indexed : Indexed core s'
  refused : s'.refused = s₁.refused
  mem_queue : a ∈ s'.queue
  mem_self : s'.mem a = r.toNode conf now n
  other : ∀ b ∈ s'.queue, b ≠ a → b ∈ s₁.queue ∧ s'.mem b = s₁.mem b
  nodeOf : ∀ k, nodeOf core s' k = if k = r.key then some (r.toNode conf now n) else nodeOf core s₁ k

/-- Overwriting the node of the record's key. -/
private theorem restored_of_target {r : SnapRecord threshold} {s₁ s₂ : Shctx} {n : Node}
    (room : ∃ lost, Shrinks core conf now lost s s₁)
    (subject : nodeOf core s₁ r.key = some n ∨
      nodeOf core s₁ r.key = none ∧ n = freshNode conf (core.crc32Short r.key) r.key now)
    (h₂ : Indexed core s₂) (ha : a ∈ s₂.queue) (hn : s₂.mem a = n) (hd : n.data = r.key)
    (hother : ∀ b ∈ s₂.queue, b ≠ a → b ∈ s₁.queue ∧ s₂.mem b = s₁.mem b)
    (hnode : ∀ k : Key, k ≠ r.key → nodeOf core s₂ k = nodeOf core s₁ k)
    (hrefused : s₂.refused = s₁.refused) :
    Restored core conf now r s s₁ (setNode s₂ a (r.toNode conf now (s₂.mem a))) a n := by
  obtain ⟨hk', hd'⟩ := r.toNode_key_data conf now (s₂.mem a)
  refine ⟨room, subject, h₂.setNode hk' hd', hrefused, ha, ?_, ?_, ?_⟩
  · rw [← hn]; exact Function.update_self ..
  · intro b hb hne
    obtain ⟨hb₁, hm⟩ := hother b hb hne
    exact ⟨hb₁, (Function.update_of_ne hne ..).trans hm⟩
  · intro k
    rw [h₂.nodeOf_setNode ha hk' hd', hd', hn, hd]
    by_cases hk : k = r.key
    · rw [if_pos hk.symm, if_pos hk]
    · rw [if_neg fun e => hk e.symm, if_neg hk, hnode k hk]

/-- Writing a node just linked for the record. -/
private theorem restored_of_linkNode {r : SnapRecord threshold} {s₁ : Shctx}
    (room : ∃ lost, Shrinks core conf now lost s s₁) (hi : Indexed core s₁)
    (hn : nodeOf core s₁ r.key = none) (hf : FreeBlock conf s₁ (conf.nodeSize digestLen) a) :
    let s₂ := linkNode core conf (core.crc32Short r.key) r.key now a
      { s₁ with blocks := ⟨a, conf.nodeSize digestLen⟩ :: s₁.blocks }
    Restored core conf now r s s₁ (setNode s₂ a (r.toNode conf now (s₂.mem a))) a
      (freshNode conf (core.crc32Short r.key) r.key now) := by
  intro s₂
  refine restored_of_target room (.inr ⟨hn, rfl⟩) (hi.linkNode hf hn now) List.mem_cons_self
    (Function.update_self ..) rfl ?_ ?_ rfl
  · intro b hb hne
    exact ⟨(List.mem_cons.mp hb).resolve_left hne, Function.update_of_ne hne ..⟩
  · intro k hk
    rw [hi.nodeOf_linkNode hf hn, if_neg hk]

/-- Finding or creating the node of a record, and writing it. -/
theorem restoreTarget_restored (conf : ZoneConf) (now : ℤ) (slab : Slab) (h : Indexed core s)
    (r : SnapRecord threshold) :
    match restoreTarget core conf now slab r.key s with
    | (s', none) => ∃ lost, Shrinks core conf now lost s s'
    | (s', some a) => ∃ s₁ n,
        Restored core conf now r s s₁ (setNode s' a (r.toNode conf now (s'.mem a))) a n := by
  rw [restoreTarget]
  cases hl : lookup s (core.crc32Short r.key) r.key with
  | some a =>
      obtain ⟨ha, hd⟩ := h.lookup_eq_some_iff.mp hl
      exact ⟨s, s.mem a, restored_of_target ⟨[], .refl h⟩ (.inl (h.nodeOf_mem ha hd)) h ha rfl hd
        (fun b hb _ => ⟨hb, rfl⟩) (fun _ _ => rfl) rfl⟩
  | none =>
      obtain ⟨lost, s₁, hs, -, -, hn, hcreate⟩ := createNode_effect conf now slab h hl
      cases hcreate with
      | failed hcr _ =>
          simp only [hcr]
          exact ⟨lost, hs⟩
      | linked a hcr hf =>
          simp only [hcr]
          exact ⟨s₁, _, restored_of_linkNode ⟨lost, hs⟩ hs.indexed hn hf⟩

/-- Restoring a record for a new key with no request refused: no housekeeping, and the new
node at the head of the queue. -/
theorem restoreTarget_new (conf : ZoneConf) (now : ℤ) (slab : Slab) (h : Indexed core s)
    (r : SnapRecord threshold) (hn : nodeOf core s r.key = none)
    (hnf : (restoreTarget core conf now slab r.key s).1.refused = s.refused) :
    ∃ s' a, restoreTarget core conf now slab r.key s = (s', some a) ∧ s'.queue = a :: s.queue ∧
      Restored core conf now r s s (setNode s' a (r.toNode conf now (s'.mem a))) a
        (freshNode conf (core.crc32Short r.key) r.key now) := by
  have hl : lookup s (core.crc32Short r.key) r.key = none := Option.map_eq_none_iff.mp hn
  have htarget : restoreTarget core conf now slab r.key s =
      createNode core conf (core.crc32Short r.key) r.key now slab s := by rw [restoreTarget, hl]
  obtain ⟨lost, s₁, hs, hquiet, -, hn₁, hcreate⟩ := createNode_effect conf now slab h hl
  rw [htarget] at hnf ⊢
  cases hcreate with
  | failed hcr hlt =>
      rw [hcr] at hnf
      exact absurd hnf hlt.ne'
  | linked a hcr hf =>
      rw [hcr] at hnf ⊢
      obtain ⟨rfl, -⟩ := hquiet.resolve_right fun hlt => absurd hnf hlt.ne'
      exact ⟨_, a, rfl, rfl, restored_of_linkNode ⟨[], .refl h⟩ h hn hf⟩

/-! ## A payload -/

/-- An invariant that housekeeping keeps and that every record's node keeps holds after
the restore loop. -/
theorem restoreAll_induction (I : Shctx → List Addr → Prop)
    (hroom : ∀ {s s' lost restored}, Indexed core s → Shrinks core conf now lost s s' →
      I s restored → I s' restored)
    (hstore : ∀ {s s₁ s' a n restored} {r : SnapRecord threshold}, Indexed core s →
      Restored core conf now r s s₁ s' a n → I s restored → I s' (a :: restored))
    (slabs : ℕ → Slab) (rs : List (SnapRecord threshold)) {restored : List Addr}
    (h : Indexed core s) (hI : I s restored) :
    Indexed core (restoreAll core conf now slabs rs s restored).1 ∧
      I (restoreAll core conf now slabs rs s restored).1
        (restoreAll core conf now slabs rs s restored).2.1 := by
  induction rs generalizing s restored with
  | nil => exact ⟨h, hI⟩
  | cons r rs ih =>
      rw [restoreAll]
      split_ifs
      · exact ih h hI
      · have ht := restoreTarget_restored conf now (slabs rs.length) h r
        generalize restoreTarget core conf now (slabs rs.length) r.key s = found at ht
        obtain ⟨s', _ | a⟩ := found
        · obtain ⟨lost, hs⟩ := ht
          exact ⟨hs.indexed, hroom h hs hI⟩
        · obtain ⟨s₁, n, hr⟩ := ht
          exact ih hr.indexed (hstore h hr hI)

theorem restoreAll_indexed (slabs : ℕ → Slab) (rs : List (SnapRecord threshold))
    {restored : List Addr} (h : Indexed core s) :
    Indexed core (restoreAll core conf now slabs rs s restored).1 :=
  (restoreAll_induction (fun _ _ => True) (fun _ _ _ => trivial) (fun _ _ _ => trivial) slabs rs h
    trivial).1

/-- The count of refusals never falls. -/
theorem restoreAll_refused_le (conf : ZoneConf) (now : ℤ) (slabs : ℕ → Slab)
    (rs : List (SnapRecord threshold)) (restored : List Addr) (h : Indexed core s) :
    s.refused ≤ (restoreAll core conf now slabs rs s restored).1.refused := by
  refine (restoreAll_induction (fun s' _ => s.refused ≤ s'.refused) ?_ ?_ slabs rs h le_rfl).2
  · intro s₁ s' lost restored _ hs hle
    exact hle.trans hs.refused
  · intro s₁ s₂ s' a n restored r _ hr hle
    obtain ⟨lost, hs⟩ := hr.room
    exact hr.refused ▸ hle.trans hs.refused

/-! ## A file -/

/-- A call of `load` that rejected the file, had no buffer, or restored some records. -/
inductive LoadEffect (core : Core) (conf : ZoneConf) (now : ℤ) (slabs : ℕ → Slab) (s : Shctx) :
    Loaded → Prop
  | rejected (why : Reject) : LoadEffect core conf now slabs s (.rejected why)
  | noBuffer : LoadEffect core conf now slabs s .noBuffer
  | accepted (rs : List (SnapRecord conf.threshold)) (w : Walk) (e : LoadEnd) :
      restoreAll core conf now slabs rs s [] = (w.zone, w.restored, decide (e = .finished)) →
      LoadEffect core conf now slabs s (.accepted w e)

/-- A field inside the buffer can be read. -/
private theorem exists_getU32 {l : List UInt8} {p : ℕ} (h : p + 4 ≤ l.length) :
    ∃ v, getU32 l p = some v := ⟨_, (getU32_eq l p).trans (readLE_eq_some h)⟩

theorem loadBytes_effect (core : Core) (now : ℤ) (slabs : ℕ → Slab) {buffer : List UInt8}
    (hlen : fileHdrLen ≤ buffer.length) (s : Shctx) :
    ∃ r, loadBytes core conf now slabs buffer s = some r ∧ LoadEffect core conf now slabs s r := by
  have hhdr : fileHdrLen = 24 := rfl
  obtain ⟨version, hversion⟩ := exists_getU32 (l := buffer) (p := 8) (by omega)
  obtain ⟨threshold, hthreshold⟩ := exists_getU32 (l := buffer) (p := 12) (by omega)
  obtain ⟨records, hrecords⟩ := exists_getU32 (l := buffer) (p := 16) (by omega)
  obtain ⟨crc, hcrc⟩ := exists_getU32 (l := buffer) (p := 20) (by omega)
  simp only [loadBytes, loadBytesVia, restoreVia_plain, hversion, hthreshold, hrecords, hcrc, Option.bind_eq_bind, Option.bind_some,
    Option.pure_def]
  generalize ((buffer.take _).drop fileHdrLen) = payload
  split_ifs
  · exact ⟨_, rfl, .rejected .incompatible⟩
  · exact ⟨_, rfl, .rejected .crc⟩
  · obtain ⟨rc, hrc, hiff⟩ : ∃ rc,
        validateSnapshot payload (UInt32.ofNat records) conf.threshold = some rc ∧
          (rc = .ok ↔ IsPayload conf.threshold (UInt32.ofNat records).toNat (payload.drop 0)) :=
      validateFrom_eq payload.length.zero_le
    rw [hrc, Option.bind_some]
    split_ifs with hok
    · exact ⟨_, rfl, .rejected _⟩
    · obtain ⟨rs, hlen, hl⟩ := isPayload_iff_encode.mp (hiff.mp (not_not.mp hok))
      obtain ⟨w, e, hrun, hall, -⟩ := restore_eq core now slabs (w := ⟨s, 0, 0, 0, []⟩)
        payload.length.zero_le hl
      rw [hlen] at hrun
      rw [hrun]
      exact ⟨_, rfl, .accepted rs w e hall⟩
  · exact ⟨_, rfl, .rejected .hmac⟩

/-- **What `load` can do, whatever the file.** It never reads outside its buffer. -/
theorem load_effect (core : Core) (conf : ZoneConf) (now : ℤ) (slabs : ℕ → Slab) (disk : Disk)
    (s : Shctx) :
    ∃ r, load core conf now slabs disk s = some r ∧ LoadEffect core conf now slabs s r := by
  cases disk with
  | openFailed => exact ⟨_, rfl, .rejected _⟩
  | infoFailed => exact ⟨_, rfl, .rejected _⟩
  | content bytes alloc read =>
      simp only [load, loadVia, loadBytesVia_plain]
      split_ifs
      · exact ⟨_, rfl, .rejected _⟩
      · exact ⟨_, rfl, .noBuffer⟩
      · exact ⟨_, rfl, .rejected _⟩
      · exact loadBytes_effect core now slabs (by omega) s

end ErrorAbuse
