import ErrorAbuse.Snapshot.RoundTrip
import ErrorAbuse.Snapshot.WriteFile

/-!
# Restarts

A host keeps one zone in shared memory and its snapshot on disk. Calls work on the zone; now
and then the zone is serialized, and the bytes are written by the operations of `writeFile`, one
at a time, while the calls go on. At any moment the processes may be gone: the memory is lost, of
the files only what is on stable storage is kept, the last rename may be undone, and a new start
loads what it finds.

What it finds is always one complete snapshot, of the zone as it was when some save was begun, or
no file at all. `DiskOk` is the invariant; it takes nothing for granted but that snapshots are
never deleted. `HostOk` adds that the zone stays well-formed, however often the host is restarted.
-/

namespace ErrorAbuse

open Lib Lib.Limiter

/-! ## Reading a file -/

/-- What a `read` returns: up to so many bytes, `EINTR`, or another error. -/
inductive ReadOutcome
  | read (n : ℕ)
  | interrupted
  | failed
  deriving DecidableEq, Repr

/-- `read_all` on what follows in a file: the return code and the bytes that were read. A `read`
returns no more than it was asked for, nor more than there is; the reads behind the ones that are
listed return as much as that. -/
def readAll : List ReadOutcome → List UInt8 → ℕ → Rc × List UInt8
  | [], file, len => if file.length < len then (.error, []) else (.ok, file.take len)
  | outcome :: outcomes, file, len =>
    if len = 0 then (.ok, [])
    else
      match outcome with
      | .read n =>
        let n := min n (min len file.length)
        if n = 0 then (.error, [])
        else
          let rest := readAll outcomes (file.drop n) (len - n)
          (rest.1, file.take n ++ rest.2)
      | .interrupted => readAll outcomes file len
      | .failed => (.error, [])

/-- What has been read is what the file has, if that is what is reported. -/
theorem readAll_ok {outcomes : List ReadOutcome} {file bytes : List UInt8} {len : ℕ}
    (h : readAll outcomes file len = (.ok, bytes)) : bytes = file.take len := by
  induction outcomes generalizing file bytes len with
  | nil =>
      rw [readAll] at h
      split_ifs at h
      · simp at h
      · simpa using h.symm
  | cons outcome outcomes ih =>
      unfold readAll at h
      by_cases hlen : len = 0
      · rw [if_pos hlen] at h
        obtain rfl : [] = bytes := by simpa using h
        simp [hlen]
      rw [if_neg hlen] at h
      cases outcome with
      | read n =>
          by_cases hzero : min n (min len file.length) = 0
          · simp [hzero] at h
          · simp only [if_neg hzero] at h
            generalize hk : min n (min len file.length) = k at h
            have hsum : k + (len - k) = len := by omega
            obtain ⟨hrest, rfl⟩ := Prod.mk.inj h
            have hread : (readAll outcomes (file.drop k) (len - k)).2 =
                (file.drop k).take (len - k) := ih (Prod.ext hrest rfl)
            rw [hread]
            conv_rhs => rw [← hsum]
            exact (List.take_add ..).symm
      | interrupted => exact ih h
      | failed => simp at h

/-! ## A start -/

/-- What the system makes of one start. -/
structure Start where
  now : ℤ
  slabs : ℕ → Slab
  openOk : Bool
  infoOk : Bool
  alloc : Bool
  reads : List ReadOutcome

/-- What a start makes of the file at its path. If reading fails, only the length of the file has
been looked at. -/
def Start.disk (st : Start) : Option (File UInt8) → Disk
  | none => .openFailed
  | some f =>
    if !st.openOk then .openFailed
    else if !st.infoOk then .infoFailed
    else
      let r := readAll st.reads f.data f.data.length
      .content (if r.1 = .ok then r.2 else f.data) st.alloc (decide (r.1 = .ok))

/-- A start that can read the file. -/
def Start.Reads (st : Start) (f : File UInt8) : Prop :=
  st.openOk = true ∧ st.infoOk = true ∧ st.alloc = true ∧
    (readAll st.reads f.data f.data.length).1 = .ok

instance (st : Start) (f : File UInt8) : Decidable (st.Reads f) := by
  unfold Start.Reads
  infer_instance

/-- A file that can be read is loaded as it is. -/
theorem Start.disk_of_reads {st : Start} {f : File UInt8} (h : st.Reads f) :
    st.disk (some f) = .content f.data true true := by
  obtain ⟨hopen, hinfo, halloc, hread⟩ := h
  have hok : readAll st.reads f.data f.data.length =
      (.ok, (readAll st.reads f.data f.data.length).2) := Prod.ext hread rfl
  have hbytes := readAll_ok hok
  rw [List.take_length] at hbytes
  simp [Start.disk, hopen, hinfo, halloc, hread, hbytes]

/-- A buffer that is not had or not filled. -/
theorem load_unread {bytes : List UInt8} {alloc read : Bool} (h : ¬ (alloc = true ∧ read = true))
    (core : Core) (conf : ZoneConf) (now : ℤ) (slabs : ℕ → Slab) (s : Shctx) :
    ∃ r, load core conf now slabs (.content bytes alloc read) s = some r ∧ r.zone s = s ∧
      r.deleted = false := by
  simp only [load, loadVia]
  split_ifs with hsize halloc hread
  · exact ⟨_, rfl, rfl, rfl⟩
  · exact ⟨_, rfl, rfl, rfl⟩
  · exact ⟨_, rfl, rfl, rfl⟩
  · exact absurd ⟨by simpa using halloc, by simpa using hread⟩ h

/-- A file that is not read in full leaves the zone as it is, and is left alone. -/
theorem Start.load_of_not_reads {st : Start} {f : Option (File UInt8)} (h : ∀ g ∈ f, ¬ st.Reads g)
    (core : Core) (conf : ZoneConf) (s : Shctx) :
    ∃ r, load core conf st.now st.slabs (st.disk f) s = some r ∧ r.zone s = s ∧
      r.deleted = false := by
  cases f with
  | none => exact ⟨_, rfl, rfl, rfl⟩
  | some g =>
      have hnot : ¬ st.Reads g := h g rfl
      simp only [Start.disk]
      split_ifs with hopen hinfo hok
      · exact ⟨_, rfl, rfl, rfl⟩
      · exact ⟨_, rfl, rfl, rfl⟩
      · exact load_unread (fun hread => hnot ⟨by simpa using hopen, by simpa using hinfo,
          hread.1, hok⟩) ..
      · exact load_unread (fun hread => hok (of_decide_eq_true hread.2)) ..

/-! ## A host -/

/-- One zone and the disk its snapshots are on. -/
structure Host where
  zone : Shctx
  disk : Lib.Disk Path UInt8
  /-- what was at the path of the snapshot before the last rename -/
  older : Option (File UInt8)
  /-- what is left to do of the save in progress -/
  task : List (FileOp Path UInt8)

/-- Before the first start. -/
def Host.init (disk : Lib.Disk Path UInt8) (persist : Path) : Host :=
  ⟨.empty, disk, disk persist, []⟩

/-- What happens to a host. -/
inductive Incident
  | call (c : Call)
  | save (now : ℤ) (alloc : Bool) (os : OsRun)
  | write (now : ℤ)
  | restart (lost : Path → List UInt8) (undone : Bool) (st : Start)

def Incident.now : Incident → ℤ
  | call c => c.now
  | save now _ _ | write now => now
  | restart _ _ st => st.now

/-- The files that are there when a host comes up again. Until the directory has been synced, the
last rename may be `undone`. -/
def Host.found (h : Host) (persist : Path) (lost : Path → List UInt8) (undone : Bool) :
    Lib.Disk Path UInt8 :=
  if undone then Function.update (outlast lost h.disk) persist h.older else outlast lost h.disk

/-- One incident. A tick of the timer does nothing while a save is in progress; a save that waits
for a `write` is one whose next operation has not come yet. -/
def hostStep (core : Core) (conf : ZoneConf) (persist : Path) (h : Host) : Incident → Host
  | .call c => { h with zone := callStep core conf h.zone c }
  | .save _ alloc os =>
    if h.task ≠ [] then h
    else
      match serialize core conf alloc h.zone with
      | none => h
      | some buffer => { h with task := ((writeFile os buffer persist h.disk).map Prod.snd).getD [] }
  | .write _ =>
    match h.task with
    | [] => h
    | op :: task =>
      { zone := h.zone
        disk := op.apply h.disk
        older := if op.replaces persist then h.disk persist else h.older
        task := task }
  | .restart lost undone st =>
    let disk := h.found persist lost undone
    match load core conf st.now st.slabs (st.disk (disk persist)) .empty with
    | none => h
    | some r =>
      { zone := r.zone .empty
        disk := if r.deleted then Function.update disk persist none else disk
        older := disk persist
        task := [] }

/-! ## Loading a snapshot -/

section Loading

variable {core : Core} {conf : ZoneConf} {s s' : Shctx} {n : Node} {t now : ℤ} {a : Addr}

/-- A new node gets a block of its own. -/
theorem Packed.grant (h : Packed conf s) (hf : FreeBlock conf s (conf.nodeSize digestLen) a) :
    Packed conf { s with blocks := ⟨a, conf.nodeSize digestLen⟩ :: s.blocks } := by
  obtain ⟨hlo, hhi, hfree⟩ := hf
  refine ⟨fun b hb => ?_, List.pairwise_cons.mpr ⟨fun b hb => (hfree b hb).2, h.apart⟩⟩
  rcases List.mem_cons.mp hb with rfl | hb
  · exact ⟨rfl, hlo, hhi⟩
  · exact h.inside b hb

theorem restoreTarget_packed (now : ℤ) (slab : Slab) (hi : Indexed core s) (h : Packed conf s)
    (key : Digest) : Packed conf (restoreTarget core conf now slab key s).1 := by
  rw [restoreTarget]
  cases hl : lookup s (core.crc32Short key) key with
  | some a => exact h
  | none =>
      obtain ⟨lost, s₁, hs, -, -, -, hcreate⟩ := createNode_effect conf now slab hi hl
      have h₁ : Packed conf s₁ := h.of_sublist hs.blocks
      cases hcreate with
      | failed hcr _ =>
          simp only [hcr]
          exact h₁
      | linked a hcr hf =>
          have hgrant := h₁.grant hf
          simp only [hcr]
          exact ⟨hgrant.inside, hgrant.apart⟩

/-- A record of a well-formed node leaves a well-formed zone. -/
theorem zoneOk_of_restored {r : SnapRecord conf.threshold} {s₁ : Shctx} {m : Node}
    (h : Restored core conf now r s s₁ s' a m) (hr : Records conf r n) (hs : ZoneOk core conf now s)
    (hn : NodeOk conf t n) (ht : t ≤ now) : ZoneOk core conf now s' := by
  obtain ⟨lost, hroom⟩ := h.room
  have hold : ∀ {key k}, nodeOf core s₁ key = some k → NodeOk conf now k := fun hk =>
    hs.nodes (hroom.nodeOf_some hs.indexed hk)
  have hm : m.events.length = conf.threshold ∧ m.data = n.data := by
    rcases h.subject with hm | ⟨-, rfl⟩
    · obtain ⟨b, -, hb, hd⟩ := hroom.indexed.nodeOf_eq_some_iff.mp hm
      exact ⟨(hold hm).length_events, hd.trans hr.key⟩
    · exact ⟨List.length_replicate, hr.key⟩
  refine ⟨h.indexed, fun {key k} hk => ?_⟩
  rw [h.nodeOf] at hk
  split_ifs at hk
  · exact Option.some.inj hk ▸ hr.nodeOk_toNode hn ht hm.1 hm.2
  · exact hold hk

/-- The restore loop over the records of well-formed nodes, whatever the allocator refuses. -/
theorem restoreAll_ok {rs : List (SnapRecord conf.threshold)} {ns : List Node}
    (hrs : List.Forall₂ (Records conf) rs ns) (hok : ∀ n ∈ ns, NodeOk conf t n) (ht : t ≤ now)
    (slabs : ℕ → Slab) (restored : List Addr) (hs : ZoneOk core conf now s) (hp : Packed conf s) :
    ZoneOk core conf now (restoreAll core conf now slabs rs s restored).1 ∧
      Packed conf (restoreAll core conf now slabs rs s restored).1 := by
  induction hrs generalizing s restored with
  | nil => exact ⟨hs, hp⟩
  | @cons r n rs ns hr _ ih =>
      have hn : NodeOk conf t n := hok n List.mem_cons_self
      have hok' : ∀ n ∈ ns, NodeOk conf t n := fun k hk => hok k (List.mem_cons_of_mem n hk)
      rw [restoreAll]
      split_ifs
      · exact ih hok' restored hs hp
      · have htarget := restoreTarget_restored conf now (slabs rs.length) hs.indexed r
        have hpacked := restoreTarget_packed now (slabs rs.length) hs.indexed hp r.key
        generalize restoreTarget core conf now (slabs rs.length) r.key s = found at htarget hpacked ⊢
        obtain ⟨s', _ | a⟩ := found
        · obtain ⟨lost, hroom⟩ := htarget
          exact ⟨⟨hroom.indexed, fun hk => hs.nodes (hroom.nodeOf_some hs.indexed hk)⟩, hpacked⟩
        · obtain ⟨s₁, m, hst⟩ := htarget
          exact ih hok' (a :: restored) (zoneOk_of_restored hst hr hs hn ht)
            ⟨hpacked.inside, hpacked.apart⟩

/-- What a start makes of a snapshot of a well-formed zone: with 64-bit times and fewer than 2³²
nodes to a segment it is accepted; the zone is well-formed again, and cannot be told from the one
that was saved unless an allocation has been refused. -/
theorem load_snapshot (h64 : conf.plat.time.bytes = 8)
    (hfew : conf.shmSize < 2 ^ 32 * conf.nodeSize digestLen) (hs : ZoneOk core conf t s)
    (hp : Packed conf s) {alloc : Bool} {bytes : List UInt8}
    (hser : serialize core conf alloc s = some bytes) (hmax : t ≤ conf.timeMax) (hnow : t ≤ now)
    (slabs : ℕ → Slab) :
    ∃ w e, load core conf now slabs (.content bytes true true) .empty = some (.accepted w e) ∧
      ZoneOk core conf now w.zone ∧ Packed conf w.zone ∧
      (w.zone.refused = 0 → Alike core conf now s w.zone ∧
        (w.zone.queue.map fun a => (w.zone.mem a).data).Sublist
          (s.queue.map fun a => (s.mem a).data)) := by
  have hnone : NoneLeftOut conf s := noneLeftOut hs hp h64
  have hlen : s.queue.reverse.length < 2 ^ 32 := by
    rw [List.length_reverse]
    refine Nat.lt_of_mul_lt_mul_right (lt_of_le_of_lt (hp.nodes_le hs.indexed) ?_)
    exact lt_of_le_of_lt (Nat.sub_le _ _) hfew
  have hnodes : ∀ n ∈ s.queue.reverse.map s.mem, NodeOk conf t n := by
    intro n hn
    obtain ⟨a, ha, rfl⟩ := List.mem_map.mp hn
    exact hs.nodes (hs.indexed.nodeOf_mem (List.mem_reverse.mp ha) rfl)
  obtain ⟨rs, hrs⟩ := exists_records hmax hnodes
  obtain ⟨w, e, hacc, hrest⟩ := loadPayload_records hlen hrs core now slabs .empty
  have hload := load_serialize hser now slabs .empty
  rw [hnone, ← List.length_reverse, hacc] at hload
  have hz : (restoreAll core conf now slabs rs .empty []).1 = w.zone := by rw [hrest]
  obtain ⟨hok, hpacked⟩ := restoreAll_ok hrs hnodes hnow slabs []
    (zoneOk_empty core conf now) (packed_empty conf)
  rw [hz] at hok hpacked
  refine ⟨w, e, hload, hok, hpacked, fun hnf => ?_⟩
  have hrebuilt := rebuilt_of_complete hs hnow hrs slabs (by rw [hz]; exact hnf)
  rw [hz] at hrebuilt
  refine ⟨hrebuilt.alike hs hnow, ?_⟩
  have horder := hrebuilt.order
  rwa [List.map_map, ← List.map_reverse, List.reverse_reverse] at horder

/-- A snapshot of a zone that was well-formed at `t`. -/
def IsSnapshot (core : Core) (conf : ZoneConf) (t : ℤ) (bytes : List UInt8) : Prop :=
  ∃ s alloc, ZoneOk core conf t s ∧ Packed conf s ∧ serialize core conf alloc s = some bytes

/-- A start deletes no snapshot. -/
theorem Start.not_deleted (st : Start) {f : Option (File UInt8)}
    (hf : ∀ g ∈ f, ∃ s alloc, serialize core conf alloc s = some g.data) {r : Loaded}
    (hload : load core conf st.now st.slabs (st.disk f) .empty = some r) : r.deleted = false := by
  by_cases hreads : ∃ g ∈ f, st.Reads g
  · obtain ⟨g, hg, hreads⟩ := hreads
    obtain rfl : f = some g := hg
    obtain ⟨s, alloc, hser⟩ := hf g rfl
    rw [Start.disk_of_reads hreads] at hload
    exact not_deleted_of_serialize hser hload
  · obtain ⟨r', hload', -, hkept⟩ := Start.load_of_not_reads
      (fun g hg hr => hreads ⟨g, hg, hr⟩) core conf .empty
    exact Option.some.inj (hload.symm.trans hload') ▸ hkept

/-- A start that finds a snapshot, or no file. -/
theorem Start.load_ok (h64 : conf.plat.time.bytes = 8)
    (hfew : conf.shmSize < 2 ^ 32 * conf.nodeSize digestLen) (st : Start) {f : Option (File UInt8)}
    (hf : ∀ g ∈ f, IsSnapshot core conf t g.data) (hmax : t ≤ conf.timeMax) (hnow : t ≤ st.now) :
    ∃ r, load core conf st.now st.slabs (st.disk f) .empty = some r ∧
      ZoneOk core conf st.now (r.zone .empty) ∧ Packed conf (r.zone .empty) := by
  by_cases hreads : ∃ g ∈ f, st.Reads g
  · obtain ⟨g, hg, hreads⟩ := hreads
    obtain rfl : f = some g := hg
    obtain ⟨s, alloc, hs, hp, hser⟩ := hf g rfl
    obtain ⟨w, e, hload, hok, hpacked, -⟩ := load_snapshot h64 hfew hs hp hser hmax hnow st.slabs
    rw [Start.disk_of_reads hreads]
    exact ⟨_, hload, hok, hpacked⟩
  · obtain ⟨r, hload, hz, -⟩ := Start.load_of_not_reads
      (fun g hg hr => hreads ⟨g, hg, hr⟩) core conf .empty
    refine ⟨r, hload, ?_, ?_⟩
    · rw [hz]; exact zoneOk_empty core conf st.now
    · rw [hz]; exact packed_empty conf

end Loading

/-! ## The invariant -/

/-- A file that is on stable storage and `Saved`, or none if that will do. -/
def Keeps (Saved : Option (List UInt8) → Prop) (f : Option (File UInt8)) : Prop :=
  (∀ g ∈ f, g.flushed = true) ∧ Saved (f.map File.data)

/-- What a save still has to do never touches the path of the snapshot, or ends with a rename of a
file that will then be a flushed snapshot. -/
inductive TaskOk (persist : Path) (Saved : Option (List UInt8) → Prop) (disk : Lib.Disk Path UInt8) :
    List (FileOp Path UInt8) → Prop
  | aside {ops : List (FileOp Path UInt8)} : (∀ op ∈ ops, ¬ op.Concerns persist) →
      TaskOk persist Saved disk ops
  | replacing {work : List (FileOp Path UInt8)} {tmp : Path} {bytes : List UInt8} :
      (∀ op ∈ work, ¬ op.Concerns persist) → tmp ≠ persist →
      play disk work tmp = some ⟨bytes, true⟩ → Saved (some bytes) →
      TaskOk persist Saved disk (work ++ [.rename tmp persist])

/-- A host at whose path is a flushed snapshot, and was before the last rename. -/
structure DiskOk (persist : Path) (Old Saved : Option (List UInt8) → Prop) (h : Host) : Prop where
  file : Keeps Saved (h.disk persist)
  older : Keeps Old h.older
  task : TaskOk persist Saved h.disk h.task

/-- A host whose zone is well-formed. -/
structure HostOk (core : Core) (conf : ZoneConf) (t : ℤ) (h : Host) : Prop where
  zone : ZoneOk core conf t h.zone
  packed : Packed conf h.zone

section Step

variable {core : Core} {conf : ZoneConf} {persist : Path}
  {Old Saved Old' Saved' : Option (List UInt8) → Prop} {t t' : ℤ} {h : Host}
  {disk : Lib.Disk Path UInt8} {ops : List (FileOp Path UInt8)}

theorem Keeps.imp {f : Option (File UInt8)} (hk : Keeps Saved f) (himp : ∀ b, Saved b → Saved' b) :
    Keeps Saved' f := ⟨hk.1, himp _ hk.2⟩

theorem TaskOk.imp (hops : TaskOk persist Saved disk ops) (himp : ∀ b, Saved b → Saved' b) :
    TaskOk persist Saved' disk ops := by
  cases hops with
  | aside hops => exact .aside hops
  | replacing hwork htmp hplay hbytes => exact .replacing hwork htmp hplay (himp _ hbytes)

theorem DiskOk.imp (hh : DiskOk persist Old Saved h) (hold : ∀ b, Old b → Old' b)
    (hsaved : ∀ b, Saved b → Saved' b) : DiskOk persist Old' Saved' h where
  file := hh.file.imp hsaved
  older := hh.older.imp hold
  task := hh.task.imp hsaved

/-- A save that has begun. -/
theorem taskOk_writeFile {os : OsRun} {buffer : List UInt8} {rc : Rc}
    (hrun : writeFile os buffer persist disk = some (rc, ops)) (hsaved : Saved (some buffer)) :
    TaskOk persist Saved disk ops := by
  cases writeFile_cases hrun with
  | unwritten => exact .aside (by simp)
  | discarded tmp work _ htmp hwork =>
      refine .aside fun op hop hp => htmp ?_
      rcases List.mem_append.mp hop with hop | hop
      · exact (hwork op hop persist hp).symm
      · exact (deleteFile_concerns os tmp op hop persist hp).symm
  | replaced tmp pieces _ htmp hpieces =>
      have hsplit : FileOp.create tmp :: pieces.map (FileOp.append tmp) ++
          [.flush tmp, .close tmp, .rename tmp persist] =
          (.create tmp :: pieces.map (FileOp.append tmp) ++ [.flush tmp, .close tmp]) ++
            [.rename tmp persist] := by simp
      rw [hsplit]
      refine .replacing ?_ htmp ?_ hsaved
      · exact fun op hop hp => htmp (prepare_concerns tmp pieces op hop persist hp).symm
      · rw [play_prepare, hpieces]

/-- The next operation of a save: it is done beside the path, or it is the rename. -/
theorem TaskOk.next {op : FileOp Path UInt8} (hops : TaskOk persist Saved disk (op :: ops)) :
    TaskOk persist Saved (op.apply disk) ops ∧
      (op.apply disk persist = disk persist ∧ op.replaces persist = false ∨
        op.replaces persist = true ∧ Keeps Saved (op.apply disk persist)) := by
  have haside : ¬ op.Concerns persist →
      op.apply disk persist = disk persist ∧ op.replaces persist = false := fun hop =>
    ⟨FileOp.apply_of_not_concerns disk hop,
      Bool.eq_false_iff.mpr fun hr => hop (FileOp.concerns_of_replaces hr)⟩
  generalize hlist : op :: ops = list at hops
  cases hops with
  | aside hnone =>
      subst hlist
      obtain ⟨hop, hrest⟩ := List.forall_mem_cons.mp hnone
      exact ⟨.aside hrest, .inl (haside hop)⟩
  | @replacing work tmp bytes hwork htmp hplay hbytes =>
      cases work with
      | nil =>
          obtain ⟨rfl, rfl⟩ := List.cons.inj hlist
          refine ⟨.aside (by simp), .inr ⟨decide_eq_true rfl, ?_⟩⟩
          rw [play_nil] at hplay
          rw [FileOp.apply, Function.update_self, hplay]
          exact ⟨by simp, hbytes⟩
      | cons op' work =>
          obtain ⟨rfl, rfl⟩ := List.cons.inj hlist
          obtain ⟨hop, hrest⟩ := List.forall_mem_cons.mp hwork
          exact ⟨.replacing hrest htmp hplay hbytes, .inl (haside hop)⟩

/-- What a host finds when it comes up again. -/
theorem DiskOk.found (hh : DiskOk persist Old Saved h) (lost : Path → List UInt8)
    (undone : Bool) (hundone : undone = true → ∀ b, Old b → Saved b) :
    Keeps Saved (h.found persist lost undone persist) := by
  cases undone with
  | false =>
      have hkept : outlast lost h.disk persist = h.disk persist :=
        outlast_of_flushed lost hh.file.1
      rw [Host.found, if_neg (by decide), hkept]
      exact hh.file
  | true =>
      rw [Host.found, if_pos rfl, Function.update_self]
      exact hh.older.imp (hundone rfl)

/-- The zone after a restart. -/
theorem zone_restart {lost : Path → List UInt8} {undone : Bool} {st : Start} {r : Loaded}
    (hload : load core conf st.now st.slabs (st.disk (h.found persist lost undone persist)) .empty =
      some r) : (hostStep core conf persist h (.restart lost undone st)).zone = r.zone .empty := by
  simp only [hostStep, hload]

/-- One incident, for the disk. -/
theorem DiskOk.step (core : Core) (conf : ZoneConf) (hh : DiskOk persist Old Saved h) (i : Incident)
    (hold : ∀ b, Saved b → Old b)
    (hsnap : ∀ b, Saved (some b) → ∃ s alloc, serialize core conf alloc s = some b)
    (hnew : ∀ now alloc os b, i = .save now alloc os → serialize core conf alloc h.zone = some b →
      Saved (some b))
    (hundone : ∀ lost st, i = .restart lost true st → ∀ b, Old b → Saved b) :
    DiskOk persist Old Saved (hostStep core conf persist h i) := by
  cases i with
  | call c => exact ⟨hh.file, hh.older, hh.task⟩
  | save now alloc os =>
      simp only [hostStep]
      split_ifs with hbusy
      · exact hh
      · cases hser : serialize core conf alloc h.zone with
        | none => exact hh
        | some buffer =>
            have htask : TaskOk persist Saved h.disk
                (((writeFile os buffer persist h.disk).map Prod.snd).getD []) := by
              cases hrun : writeFile os buffer persist h.disk with
              | none => exact .aside (by simp)
              | some result => exact taskOk_writeFile hrun (hnew now alloc os buffer rfl hser)
            exact ⟨hh.file, hh.older, htask⟩
  | write now =>
      simp only [hostStep]
      cases htask : h.task with
      | nil => exact hh
      | cons op task =>
          obtain ⟨hrest, hfile⟩ := (htask ▸ hh.task).next
          rcases hfile with ⟨hsame, hnot⟩ | ⟨hrename, hfile⟩
          · exact ⟨hsame ▸ hh.file, by simpa [hnot] using hh.older, hrest⟩
          · exact ⟨hfile, by simpa [hrename] using hh.file.imp hold, hrest⟩
  | restart lost undone st =>
      have hfound := hh.found lost undone fun hu => hundone lost st (hu ▸ rfl)
      have hsnaps : ∀ g ∈ h.found persist lost undone persist,
          ∃ s alloc, serialize core conf alloc s = some g.data := by
        intro g hg
        have hdata := hfound.2
        rw [show h.found persist lost undone persist = some g from hg] at hdata
        exact hsnap _ hdata
      simp only [hostStep]
      cases hload : load core conf st.now st.slabs
          (st.disk (h.found persist lost undone persist)) .empty with
      | none => exact hh
      | some r =>
          simp only [st.not_deleted hsnaps hload]
          exact ⟨hfound, hfound.imp hold, .aside (by simp)⟩

/-- One incident, for the zone: a restart finds a snapshot of a well-formed one. -/
theorem HostOk.step (h64 : conf.plat.time.bytes = 8)
    (hfew : conf.shmSize < 2 ^ 32 * conf.nodeSize digestLen) (hh : HostOk core conf t h)
    (i : Incident) (h0 : 0 ≤ t) (ht : t ≤ i.now) (hmax : i.now ≤ conf.timeMax)
    (hsnap : ∀ lost undone st, i = .restart lost undone st →
      ∀ g ∈ h.found persist lost undone persist, IsSnapshot core conf t g.data) :
    HostOk core conf i.now (hostStep core conf persist h i) := by
  have hlater : ZoneOk core conf i.now h.zone := hh.zone.mono ht
  cases i with
  | call c => exact ⟨exec_zoneOk hh.zone c ht (h0.trans ht), callStep_packed hh.zone.indexed hh.packed c⟩
  | save now alloc os =>
      simp only [hostStep]
      split_ifs
      · exact ⟨hlater, hh.packed⟩
      · cases serialize core conf alloc h.zone <;> exact ⟨hlater, hh.packed⟩
  | write now =>
      simp only [hostStep]
      cases h.task <;> exact ⟨hlater, hh.packed⟩
  | restart lost undone st =>
      obtain ⟨r, hload, hok, hpacked⟩ :=
        Start.load_ok h64 hfew st (hsnap lost undone st rfl) (ht.trans hmax) ht
      simp only [hostStep, hload]
      exact ⟨hok, hpacked⟩

end Step

/-! ## Runs -/

section Runs

variable {core : Core} {conf : ZoneConf} {persist : Path} {disk : Lib.Disk Path UInt8}
  {is : List Incident} {b : List UInt8} {k : ℕ}

/-- A host after some incidents. -/
def host (core : Core) (conf : ZoneConf) (persist : Path) (disk : Lib.Disk Path UInt8)
    (is : List Incident) : Host := run (hostStep core conf persist) (.init disk persist) is

theorem host_concat (core : Core) (conf : ZoneConf) (persist : Path) (disk : Lib.Disk Path UInt8)
    (is : List Incident) (i : Incident) : host core conf persist disk (is ++ [i]) =
      hostStep core conf persist (host core conf persist disk is) i := run_append ..

/-- The bytes are a snapshot of the zone as it was at a save, the `k`-th incident or a later one. -/
def Saves (core : Core) (conf : ZoneConf) (persist : Path) (disk : Lib.Disk Path UInt8) (k : ℕ)
    (is : List Incident) (b : List UInt8) : Prop :=
  ∃ before now alloc os rest, is = before ++ .save now alloc os :: rest ∧ k ≤ before.length + 1 ∧
    serialize core conf alloc (host core conf persist disk before).zone = some b

/-- One more incident may be a save. -/
theorem saves_concat {i : Incident} : Saves core conf persist disk k (is ++ [i]) b ↔
    Saves core conf persist disk k is b ∨ ∃ now alloc os, i = .save now alloc os ∧
      k ≤ is.length + 1 ∧ serialize core conf alloc (host core conf persist disk is).zone = some b := by
  constructor
  · rintro ⟨before, now, alloc, os, rest, his, hk, hser⟩
    rcases List.eq_nil_or_concat rest with rfl | ⟨rest, j, rfl⟩
    · obtain ⟨rfl, hi⟩ := List.append_inj' his rfl
      obtain rfl := (List.cons.inj hi).1
      exact .inr ⟨now, alloc, os, rfl, hk, hser⟩
    · have hcut : is = before ++ .save now alloc os :: rest := by
        have hassoc : before ++ Incident.save now alloc os :: rest.concat j =
            (before ++ .save now alloc os :: rest) ++ [j] := by simp
        rw [hassoc] at his
        exact (List.append_inj' his rfl).1
      exact .inl ⟨before, now, alloc, os, rest, hcut, hk, hser⟩
  · rintro (⟨before, now, alloc, os, rest, rfl, hk, hser⟩ | ⟨now, alloc, os, rfl, hk, hser⟩)
    · exact ⟨before, now, alloc, os, rest ++ [i], by simp, hk, hser⟩
    · exact ⟨is, now, alloc, os, [], rfl, hk, hser⟩

/-- What may be at the path: such a snapshot, or no file if all saves count. -/
def SavedFile (core : Core) (conf : ZoneConf) (persist : Path) (disk : Lib.Disk Path UInt8) (k : ℕ)
    (is : List Incident) : Option (List UInt8) → Prop
  | none => k = 0
  | some b => Saves core conf persist disk k is b

theorem SavedFile.concat {f : Option (List UInt8)} (hf : SavedFile core conf persist disk k is f)
    (i : Incident) : SavedFile core conf persist disk k (is ++ [i]) f := by
  cases f with
  | none => exact hf
  | some b => exact saves_concat.mpr (.inl hf)

theorem SavedFile.any {f : Option (List UInt8)} (hf : SavedFile core conf persist disk k is f) :
    SavedFile core conf persist disk 0 is f := by
  cases f with
  | none => rfl
  | some b =>
      obtain ⟨before, now, alloc, os, rest, his, -, hser⟩ := hf
      exact ⟨before, now, alloc, os, rest, his, Nat.zero_le _, hser⟩

/-- One more incident on the disk. If only the saves from the `k`-th incident on count, the last
rename must not be undone. -/
theorem diskOk_concat {i : Incident}
    (hh : DiskOk persist (SavedFile core conf persist disk 0 is)
      (SavedFile core conf persist disk k is) (host core conf persist disk is))
    (hk : k ≤ is.length + 1) (hundone : k = 0 ∨ ∀ lost st, i ≠ .restart lost true st) :
    DiskOk persist (SavedFile core conf persist disk 0 (is ++ [i]))
      (SavedFile core conf persist disk k (is ++ [i])) (host core conf persist disk (is ++ [i])) := by
  rw [host_concat]
  refine (hh.imp (fun b hb => hb.concat i) fun b hb => hb.concat i).step core conf i
    (fun b hb => hb.any) ?_ ?_ ?_
  · rintro b ⟨before, now, alloc, os, rest, -, -, hser⟩
    exact ⟨_, alloc, hser⟩
  · intro now alloc os b hi hser
    exact saves_concat.mpr (.inr ⟨now, alloc, os, hi, hk, hser⟩)
  · intro lost st hi b hb
    rcases hundone with rfl | hnot
    · exact hb
    · exact absurd hi (hnot lost st)

/-- At the path of every host that can be reached is a snapshot, or no file. -/
theorem disk_ok (core : Core) (conf : ZoneConf) (hdisk : disk persist = none) (is : List Incident) :
    DiskOk persist (SavedFile core conf persist disk 0 is) (SavedFile core conf persist disk 0 is)
      (host core conf persist disk is) := by
  induction is using List.reverseRec with
  | nil =>
      have hnone : Keeps (SavedFile core conf persist disk 0 []) (disk persist) := by
        rw [hdisk]
        exact ⟨by simp, rfl⟩
      refine ⟨hnone, hnone, .aside ?_⟩
      simp [host, Host.init]
  | append_singleton is i ih => exact diskOk_concat ih (Nat.zero_le _) (.inl rfl)

/-- Every host that can be reached is well-formed, and so was the zone of every snapshot. -/
theorem host_ok (core : Core) (h64 : conf.plat.time.bytes = 8)
    (hfew : conf.shmSize < 2 ^ 32 * conf.nodeSize digestLen) (hdisk : disk persist = none)
    (hclock : Clocked Incident.now 0 is) (hmax : ∀ i ∈ is, i.now ≤ conf.timeMax) :
    HostOk core conf (lastTime Incident.now 0 is) (host core conf persist disk is) ∧
    ∀ b, Saves core conf persist disk 0 is b →
      IsSnapshot core conf (lastTime Incident.now 0 is) b := by
  induction is using List.reverseRec with
  | nil =>
      refine ⟨⟨zoneOk_empty core conf 0, packed_empty conf⟩, ?_⟩
      rintro b ⟨before, now, alloc, os, rest, his, -⟩
      simp at his
  | append_singleton is i ih =>
      obtain ⟨hinit, ht, -⟩ := (clocked_append ..).mp hclock
      obtain ⟨hh, hsnap⟩ := ih hinit fun j hj => hmax j (List.mem_append_left _ hj)
      have h0 : 0 ≤ lastTime Incident.now 0 is := hinit.le_lastTime
      rw [lastTime_append, host_concat]
      refine ⟨hh.step h64 hfew i h0 ht (hmax i (by simp)) fun lost undone st _ g hg => ?_, ?_⟩
      · have hfile := ((disk_ok core conf hdisk is).found lost undone fun _ _ h => h).2
        rw [show (host core conf persist disk is).found persist lost undone persist = some g from hg]
          at hfile
        exact hsnap _ hfile
      · intro b hb
        rcases saves_concat.mp hb with hb | ⟨now, alloc, os, -, -, hser⟩
        · obtain ⟨s, alloc, hs, hp, hser⟩ := hsnap b hb
          exact ⟨s, alloc, hs.mono ht, hp, hser⟩
        · exact ⟨_, alloc, hh.zone.mono ht, hh.packed, hser⟩

end Runs

/-! ## Crash consistency -/

/-- **Restarts are crash-consistent.** Whatever calls, saves, single file operations and stops of
the machine come in whatever order: a restart finds no file and starts with an empty zone, or it
finds the snapshot of the zone as it was when some earlier save was begun. If it cannot read that
file, it starts with an empty zone; if it can, and no allocation is refused, no later calls can
tell the new zone from the one that was saved. The new zone is well-formed in any case. -/
theorem restart_consistent (core : Core) (conf : ZoneConf) (persist : Path)
    (disk : Lib.Disk Path UInt8) (is : List Incident) (lost : Path → List UInt8) (undone : Bool)
    (st : Start) :
    let at_ := host core conf persist disk
    let zone := (at_ (is ++ [.restart lost undone st])).zone
    conf.plat.time.bytes = 8 → conf.shmSize < 2 ^ 32 * conf.nodeSize digestLen →
    disk persist = none → Clocked Incident.now 0 (is ++ [.restart lost undone st]) →
    (∀ i ∈ is, i.now ≤ conf.timeMax) → st.now ≤ conf.timeMax →
    ZoneOk core conf st.now zone ∧ Packed conf zone ∧
    ((at_ is).found persist lost undone persist = none → zone = .empty) ∧
    ∀ f, (at_ is).found persist lost undone persist = some f →
      ∃ before now alloc os rest, is = before ++ .save now alloc os :: rest ∧
        serialize core conf alloc (at_ before).zone = some f.data ∧
        (¬ st.Reads f → zone = .empty) ∧
        (st.Reads f → zone.refused = 0 → Alike core conf st.now (at_ before).zone zone ∧
          ReportsAlike core conf st.now (at_ before).zone zone ∧
          (zone.queue.map fun a => (zone.mem a).data).Sublist
            ((at_ before).zone.queue.map fun a => ((at_ before).zone.mem a).data)) := by
  intro at_ zone h64 hfew hdisk hclock hmax hstart
  obtain ⟨hinit, hlast, -⟩ := (clocked_append ..).mp hclock
  have hall := (host_ok core h64 hfew hdisk hclock
    (List.forall_mem_append.mpr ⟨hmax, List.forall_mem_singleton.mpr hstart⟩)).1
  rw [lastTime_append] at hall
  have hstep : ∀ {r}, load core conf st.now st.slabs
      (st.disk ((at_ is).found persist lost undone persist)) .empty = some r →
        zone = r.zone .empty := by
    intro r hr
    rw [← zone_restart hr]
    exact congrArg Host.zone (host_concat ..)
  have hunread : (∀ g ∈ (at_ is).found persist lost undone persist, ¬ st.Reads g) →
      zone = .empty := by
    intro hnot
    obtain ⟨r, hr, hz, -⟩ := Start.load_of_not_reads hnot core conf .empty
    exact (hstep hr).trans hz
  refine ⟨hall.zone, hall.packed, fun hnone => hunread (by simp [hnone]), fun f hf => ?_⟩
  have hfile := ((disk_ok core conf hdisk is).found lost undone fun _ _ h => h).2
  rw [show (host core conf persist disk is).found persist lost undone persist = some f from hf]
    at hfile
  obtain ⟨before, now, alloc, os, rest, his, -, hser⟩ := hfile
  refine ⟨before, now, alloc, os, rest, his, hser, fun hnot => hunread ?_, fun hreads hnf => ?_⟩
  · rw [hf]
    simpa using hnot
  · -- the zone that was saved, at the time of the save
    rw [his] at hinit hmax hlast
    obtain ⟨hbefore, hlater⟩ := (clocked_append ..).mp hinit
    have hold := (host_ok core h64 hfew hdisk hbefore fun i hi => hmax i (List.mem_append_left _ hi)).1
    have hle : lastTime Incident.now 0 before ≤ st.now := by
      rw [lastTime_append] at hlast
      exact hlater.le_lastTime.trans hlast
    obtain ⟨w, e, hload, -, -, halike⟩ := load_snapshot h64 hfew hold.zone hold.packed hser
      (hle.trans hstart) hle st.slabs
    have hz : zone = (Loaded.accepted w e).zone .empty :=
      hstep (by rw [hf, Start.disk_of_reads hreads, hload])
    have hw : (Loaded.accepted w e).zone .empty = w.zone := rfl
    rw [hz, hw] at hnf ⊢
    obtain ⟨halike, horder⟩ := halike hnf
    exact ⟨halike, halike.reportsAlike (hbefore.le_lastTime.trans hle), horder⟩

/-- A system in which nothing fails. -/
def OsRun.steady : OsRun where
  alloc := true
  pid := 7
  random i := UInt64.ofNat i
  createOk _ := true
  writes := [.wrote 4096]
  flushOk := true
  closeOk := true
  renameOk := true
  unlinkOk := true

/-- A client is banned, the zone is saved, and another client misbehaves during the save. -/
def Incident.savedBan : List Incident :=
  [.call (.record (.repeated 7) 1 fun _ => some 4096),
    .call (.record (.repeated 7) 2 fun _ => none), .save 3 true .steady,
    .call (.record (.repeated 8) 4 fun _ => some 8192),
    .write 4, .write 4, .write 4, .write 4, .write 4]

/-- A start at 6 that can read the file. -/
def Start.easy : Start where
  now := 6
  slabs n _ := some (4096 * (n + 1))
  openOk := true
  infoOk := true
  alloc := true
  reads := [.read 10, .interrupted]

/-- After a restart at 6 no calls can tell the zone from the one that was saved with a banned client. -/
theorem restart_consistent_savedBan :
    ∃ f, (host .unbalanced .small (ascii "s") (fun _ => none) Incident.savedBan).found (ascii "s")
        (fun _ => [1]) false (ascii "s") = some f ∧
      ∃ before now alloc os rest, Incident.savedBan = before ++ .save now alloc os :: rest ∧
        serialize .unbalanced .small alloc
          (host .unbalanced .small (ascii "s") (fun _ => none) before).zone = some f.data ∧
        ReportsAlike .unbalanced .small 6 (host .unbalanced .small (ascii "s") (fun _ => none) before).zone
          (host .unbalanced .small (ascii "s") (fun _ => none)
            (Incident.savedBan ++ [.restart (fun _ => [1]) false .easy])).zone := by
  have hread : ((host .unbalanced .small (ascii "s") (fun _ => none) Incident.savedBan).found
      (ascii "s") (fun _ => [1]) false (ascii "s")).map (fun f => decide (Start.easy.Reads f)) =
        some true := by decide +kernel
  obtain ⟨f, hf, hreads⟩ := Option.map_eq_some_iff.mp hread
  obtain ⟨before, now, alloc, os, rest, his, hser, -, hsame⟩ := (restart_consistent .unbalanced .small
    (ascii "s") (fun _ => none) Incident.savedBan (fun _ => [1]) false .easy rfl (by decide) rfl
    (by decide) (by decide +kernel) (by decide +kernel)).2.2.2 f hf
  have halike := hsame (of_decide_eq_true hreads) (by decide +kernel)
  exact ⟨f, hf, before, now, alloc, os, rest, his, hser, halike.2.1⟩

/-! ## Durability -/

/-- Calls, and operations of the save in progress. -/
def Incident.isQuiet : Incident → Bool
  | call _ | write _ => true
  | _ => false

def Incident.isWrite : Incident → Bool
  | write _ => true
  | _ => false

section Durability

variable {persist : Path}

/-- A save is finished by as many steps as it has operations; the calls between them change nothing
on the disk. -/
theorem run_quiet (core : Core) (conf : ZoneConf) {middle : List Incident}
    (hquiet : ∀ i ∈ middle, i.isQuiet = true) (h : Host)
    (hlen : h.task.length ≤ middle.countP Incident.isWrite) :
    (run (hostStep core conf persist) h middle).disk = play h.disk h.task ∧
      (run (hostStep core conf persist) h middle).task = [] := by
  induction middle generalizing h with
  | nil =>
      have htask : h.task = [] := List.length_eq_zero_iff.mp (Nat.le_zero.mp hlen)
      rw [htask]
      exact ⟨rfl, htask⟩
  | cons i middle ih =>
      obtain ⟨hi, hrest⟩ := List.forall_mem_cons.mp hquiet
      rw [run_cons]
      cases i with
      | call c =>
          rw [List.countP_cons_of_neg (by simp [Incident.isWrite])] at hlen
          exact ih hrest _ hlen
      | write now =>
          rw [List.countP_cons_of_pos (by rfl)] at hlen
          cases htask : h.task with
          | nil =>
              have hstep : hostStep core conf persist h (.write now) = h := by
                simp only [hostStep, htask]
              obtain ⟨hdisk, hdone⟩ := ih hrest h (by simp [htask])
              rw [htask] at hdisk
              rw [hstep]
              exact ⟨hdisk, hdone⟩
          | cons op task =>
              have hstep : (hostStep core conf persist h (.write now)).disk = op.apply h.disk ∧
                  (hostStep core conf persist h (.write now)).task = task := by
                simp only [hostStep, htask, and_self]
              rw [htask, List.length_cons] at hlen
              obtain ⟨hdisk, hdone⟩ := ih hrest (hostStep core conf persist h (.write now))
                (by rw [hstep.2]; omega)
              rw [hstep.1, hstep.2] at hdisk
              exact ⟨hdisk, hdone⟩
      | save _ _ _ | restart _ _ _ => simp [Incident.isQuiet] at hi

/-- A save whose operations have all been carried out. -/
theorem play_writeFile {os : OsRun} {buffer : List UInt8} {disk : Lib.Disk Path UInt8}
    {ops : List (FileOp Path UInt8)} (hrun : writeFile os buffer persist disk = some (.ok, ops)) :
    play disk ops persist = some ⟨buffer, true⟩ := by
  cases writeFile_cases hrun with
  | replaced tmp pieces _ htmp hpieces =>
      have hnew := (play_rename (.create tmp :: pieces.map (FileOp.append tmp) ++
        [.flush tmp, .close tmp]) htmp disk).1
      rw [play_prepare, hpieces] at hnew
      simpa using hnew

end Durability

/-- **A finished save is durable.** Once all operations of a successful save have been carried out,
whatever comes after: as long as no stop of the machine undoes a rename, the file is there, and is
the snapshot of the zone at that save or a later one. -/
theorem save_durable (core : Core) (conf : ZoneConf) (persist : Path) (disk : Lib.Disk Path UInt8)
    (before middle rest : List Incident) (now : ℤ) (alloc : Bool) (os : OsRun)
    (buffer : List UInt8) (ops : List (FileOp Path UInt8)) :
    let at_ := host core conf persist disk
    let is := before ++ .save now alloc os :: middle ++ rest
    disk persist = none → (at_ before).task = [] → serialize core conf alloc (at_ before).zone = some buffer →
    writeFile os buffer persist (at_ before).disk = some (.ok, ops) →
    (∀ i ∈ middle, i.isQuiet = true) → ops.length ≤ middle.countP Incident.isWrite →
    (∀ i ∈ rest, ∀ lost st, i ≠ .restart lost true st) →
    ∃ f, (at_ is).disk persist = some f ∧
      ∃ before' now' alloc' os' rest', is = before' ++ .save now' alloc' os' :: rest' ∧
        before.length ≤ before'.length ∧
        serialize core conf alloc' (at_ before').zone = some f.data := by
  intro at_ is hdisk htask hser hrun hquiet hlen hrest
  have hkept : DiskOk persist (SavedFile core conf persist disk 0 is)
      (SavedFile core conf persist disk (before.length + 1) is) (at_ is) := by
    simp only [is]
    induction rest using List.reverseRec with
    | nil =>
        rw [List.append_nil]
        have hh := disk_ok core conf hdisk (before ++ .save now alloc os :: middle)
        have hbegun : at_ (before ++ .save now alloc os :: middle) =
            run (hostStep core conf persist) { at_ before with task := ops } middle := by
          have hsave : hostStep core conf persist (at_ before) (.save now alloc os) =
              { at_ before with task := ops } := by
            simp [hostStep, htask, hser, hrun]
          rw [← hsave]
          exact run_append ..
        obtain ⟨hplay, hdone⟩ := run_quiet core conf hquiet
          { at_ before with task := ops } hlen
        rw [← hbegun] at hplay hdone
        have hfile : Keeps (SavedFile core conf persist disk (before.length + 1)
            (before ++ .save now alloc os :: middle))
            ((at_ (before ++ .save now alloc os :: middle)).disk persist) := by
          rw [hplay, play_writeFile hrun]
          exact ⟨by simp, before, now, alloc, os, middle, rfl, le_rfl, hser⟩
        exact ⟨hfile, hh.older, by rw [hdone]; exact .aside (by simp)⟩
    | append_singleton rest i ih =>
        rw [← List.append_assoc]
        refine diskOk_concat (ih fun j hj => hrest j (by simp [hj])) ?_ (.inr (hrest i (by simp)))
        simp only [List.length_append]
        omega
  have hfile := hkept.file.2
  cases hf : (at_ is).disk persist with
  | none =>
      rw [show (at_ is).disk persist = none from hf] at hfile
      exact absurd hfile (Nat.succ_ne_zero _)
  | some f =>
      rw [hf] at hfile
      obtain ⟨before', now', alloc', os', rest', his, hk, hser'⟩ := hfile
      exact ⟨f, rfl, before', now', alloc', os', rest', his, by omega, hser'⟩

theorem save_durable_savedBan :
    ∃ f, (host .unbalanced .small (ascii "s") (fun _ => none) (Incident.savedBan.take 2 ++
      .save 3 true .steady :: Incident.savedBan.drop 3 ++ [])).disk (ascii "s") = some f := by
  have hsave : ((serialize .unbalanced .small true (host .unbalanced .small (ascii "s")
      (fun _ => none) (Incident.savedBan.take 2)).zone).bind fun buffer =>
        (writeFile .steady buffer (ascii "s") fun _ => none).map fun r => (r.1, r.2.length)) =
      some (.ok, 5) := by decide +kernel
  obtain ⟨buffer, hser, hmap⟩ := Option.bind_eq_some_iff.mp hsave
  obtain ⟨⟨rc, ops⟩, hrun, heq⟩ := Option.map_eq_some_iff.mp hmap
  obtain ⟨rfl, hlen⟩ := Prod.mk.inj heq
  obtain ⟨f, hf, -⟩ := save_durable .unbalanced .small (ascii "s") (fun _ => none)
    (Incident.savedBan.take 2) (Incident.savedBan.drop 3) [] 3 true .steady buffer ops rfl
    (by decide +kernel) hser hrun (by decide +kernel) (by rw [hlen]; decide +kernel) (by simp)
  exact ⟨f, hf⟩

end ErrorAbuse
