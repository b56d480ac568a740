import ErrorAbuse.Snapshot.Sanitise
import ErrorAbuse.Snapshot.Saved

/-!
# Saving and loading

The zone rebuilt from a snapshot differs from the one that was saved: dead records are
gone, stale events are dropped, rings are straightened and deadlines that have passed are
cleared. None of this can be observed. `Rebuilt` is the invariant of the restore loop
over the records of a zone; at its end the two zones are alike.
-/

namespace ErrorAbuse

open Lib Lib.Limiter

variable {core : Core} {conf : ZoneConf} {s : Shctx} {n m : Node} {t now : ℤ}

/-! ## One record -/

namespace Records

variable {r : SnapRecord conf.threshold}

/-- The events kept are the window. -/
theorem keptEvents_eq (hr : Records conf r n) (hn : NodeOk conf t n) (ht : t ≤ now) :
    keptEvents conf now r.events = window (now - conf.interval) (n.contents conf) := by
  rw [keptEvents, hr.events, window]
  refine List.filter_congr fun x hx => ?_
  have hle : x ≤ now := ((hn.le_lastSeen x hx).trans hn.lastSeen_le).trans ht
  simp [hle]

/-- The deadline and recency that are restored. -/
theorem restoreHeader_eq (hr : Records conf r n) (hn : NodeOk conf t n) (ht : t ≤ now) (m : Node) :
    (restoreHeader conf now (toInt64 r.blocked.toNat) (toInt64 r.seen.toNat) m).blockedUntil =
        (if n.blockedUntil > now then n.blockedUntil else 0) ∧
      (restoreHeader conf now (toInt64 r.blocked.toNat) (toInt64 r.seen.toNat) m).lastSeen =
        (if n.lastSeen > 0 then n.lastSeen else now) := by
  have hseen : n.lastSeen ≤ now := hn.lastSeen_le.trans ht
  simp only [restoreHeader, hr.blocked, hr.seen, hseen, and_true]
  by_cases hb : n.blockedUntil > now
  · have hne : n.blockedUntil ≠ 0 := by
      have := hn.lastSeen_nonneg
      omega
    have hle : n.blockedUntil ≤ conf.addSaturate now conf.block :=
      (hn.ban_le hne).trans (timeAddSaturate_mono conf.block_pos hseen)
    rw [if_pos hb, if_pos hb]
    split_ifs <;> omega
  · rw [if_neg hb, if_neg hb]

/-- A record that is passed over belongs to a node that may be forgotten. -/
theorem sameFrom_of_skipped (hr : Records conf r n) (h : r.Skipped now) :
    SameFrom (policy conf) now (n.entry conf) .empty := by
  obtain ⟨hb, hlen⟩ := h
  rw [hr.blocked] at hb
  have htimes : n.contents conf = [] := by
    rw [← hr.events, List.length_eq_zero_iff.mp hlen, List.map_nil]
  refine sameFrom_empty (policy_cutoff_mono conf) (by simp [Node.entry, htimes]) ?_
  intro d hd
  simp only [Node.entry] at hd
  split_ifs at hd
  exact Option.some.inj hd ▸ hb

/-- The restored node packs an entry that cannot be told from the saved one. -/
theorem sameFrom_toNode (hr : Records conf r n) (hn : NodeOk conf t n) (ht : t ≤ now)
    (hm : m.events.length = conf.threshold) :
    SameFrom (policy conf) now ((r.toNode conf now m).entry conf) (n.entry conf) := by
  obtain ⟨hc, -, -, -, hban, -⟩ := toNode_spec now r hm
  rw [(hr.restoreHeader_eq hn ht m).1] at hban
  rw [hr.keptEvents_eq hn ht] at hc
  by_cases hz : n.blockedUntil = 0
  · have hb : ¬ n.blockedUntil > now := by
      have := hn.lastSeen_nonneg.trans (hn.lastSeen_le.trans ht)
      omega
    rw [if_neg hb] at hban
    simp only [Node.entry, hc, hban, hz, if_true]
    exact sameFrom_window (policy_cutoff_mono conf) _ now
  · have htimes : n.contents conf = [] := by
      rw [← List.length_eq_zero_iff, length_contents, hn.ban_empty hz]
    by_cases hb : n.blockedUntil > now
    · rw [if_pos hb] at hban
      simp only [Node.entry, hc, hban, htimes, window_nil, if_neg hz]
      exact .refl now _
    · rw [if_neg hb] at hban
      have hempty : (r.toNode conf now m).entry conf = .empty := by
        simp only [Node.entry, hc, hban, htimes, window_nil, if_true]
        rfl
      rw [hempty]
      refine (sameFrom_empty (policy_cutoff_mono conf) (by simp [Node.entry, htimes]) ?_).symm
      intro d hd
      rw [Node.entry, if_neg hz] at hd
      exact Option.some.inj hd ▸ not_lt.mp hb

/-- The restored node is well-formed. -/
theorem nodeOk_toNode (hr : Records conf r n) (hn : NodeOk conf t n) (ht : t ≤ now)
    (hm : m.events.length = conf.threshold) (hd : m.data = n.data) :
    NodeOk conf now (r.toNode conf now m) := by
  have hseen : n.lastSeen ≤ now := hn.lastSeen_le.trans ht
  have h0 := hn.lastSeen_nonneg
  obtain ⟨hc, hhead, hcount, hlen, hban, hls⟩ := toNode_spec now r hm
  obtain ⟨hban', hls'⟩ := hr.restoreHeader_eq hn ht m
  rw [hban'] at hban
  rw [hls'] at hls
  rw [hr.keptEvents_eq hn ht] at hc hcount
  have hle : n.lastSeen ≤ (r.toNode conf now m).lastSeen := by
    rw [hls]; split_ifs <;> omega
  have hwin : ∀ x ∈ (r.toNode conf now m).contents conf, x ∈ n.contents conf := by
    rw [hc]; exact fun x hx => (mem_window.mp hx).1
  have hcount' : (r.toNode conf now m).eventCount ≤ n.eventCount := by
    rw [hcount, ← length_contents conf n]
    exact length_window_le ..
  exact
    { length_data := by rw [(r.toNode_key_data conf now m).2, hd, hn.length_data]
      length_events := hlen
      head_lt := hhead ▸ conf.threshold_pos
      count_lt := hcount'.trans_lt hn.count_lt
      sorted := hc ▸ hn.sorted.filter _
      le_lastSeen := fun x hx => (hn.le_lastSeen x (hwin x hx)).trans hle
      nonneg := fun x hx => hn.nonneg x (hwin x hx)
      lastSeen_nonneg := h0.trans hle
      lastSeen_le := by rw [hls]; split_ifs <;> omega
      ban_nonneg := by rw [hban]; split_ifs <;> omega
      ban_le := by
        intro hb
        rw [hban] at hb ⊢
        split_ifs at hb ⊢ with hgt
        · exact (hn.ban_le hb).trans (timeAddSaturate_mono conf.block_pos hle)
        · exact absurd rfl hb
      ban_empty := by
        intro hb
        rw [hban] at hb
        split_ifs at hb with hgt
        · exact Nat.le_zero.mp (hcount'.trans (hn.ban_empty hb).le)
        · exact absurd rfl hb }

end Records

/-! ## The restore loop -/

/-- The zone rebuilt so far from the nodes `ns`, oldest first. -/
structure Rebuilt (core : Core) (conf : ZoneConf) (now : ℤ) (ns : List Node) (s : Shctx) : Prop where
  ok : ZoneOk core conf now s
  absent : ∀ key : Key, (∀ n ∈ ns, n.data ≠ key) → nodeOf core s key = none
  present : ∀ n ∈ ns, SameFrom (policy conf) now (entryOf core conf s n.data) (n.entry conf)
  order : (s.queue.map fun a => (s.mem a).data).Sublist (ns.map Node.data).reverse

namespace Rebuilt

variable {ns : List Node} {r : SnapRecord conf.threshold}

theorem empty (core : Core) (conf : ZoneConf) (now : ℤ) : Rebuilt core conf now [] .empty where
  ok := zoneOk_empty core conf now
  absent key _ := by simp [nodeOf, lookup, Shctx.empty, lookupFrom]
  present n hn := by cases hn
  order := List.Sublist.refl _

/-- A record that is passed over. -/
theorem skip (h : Rebuilt core conf now ns s) (hr : Records conf r n) (hskip : r.Skipped now)
    (hnew : ∀ m ∈ ns, m.data ≠ n.data) : Rebuilt core conf now (ns ++ [n]) s where
  ok := h.ok
  absent key hkey := h.absent key fun m hm => hkey m (List.mem_append_left _ hm)
  present m hm := by
    rcases List.mem_append.mp hm with hm | hm
    · exact h.present m hm
    · obtain rfl := List.mem_singleton.mp hm
      rw [entryOf_none (h.absent m.data hnew)]
      exact (hr.sameFrom_of_skipped hskip).symm
  order := by
    rw [List.map_append, List.reverse_append]
    exact h.order.cons _

/-- A record restored to a new node at the head of the queue. -/
theorem store (h : Rebuilt core conf now ns s) (hr : Records conf r n) (hn : NodeOk conf t n)
    (ht : t ≤ now) (hnew : ∀ m ∈ ns, m.data ≠ n.data) {s' : Shctx} {a : Addr}
    (hq : s'.queue = a :: s.queue)
    (hst : Restored core conf now r s s s' a (freshNode conf (core.crc32Short r.key) r.key now)) :
    Rebuilt core conf now (ns ++ [n]) s' := by
  let m := freshNode conf (core.crc32Short r.key) r.key now
  have hm : m.events.length = conf.threshold := List.length_replicate
  have hd : m.data = n.data := hr.key
  have hself : nodeOf core s' n.data = some (r.toNode conf now m) := by
    rw [hst.nodeOf, if_pos hr.key.symm]
  have hother : ∀ key : Key, key ≠ n.data → nodeOf core s' key = nodeOf core s key := by
    intro key hk
    rw [hst.nodeOf, if_neg (hr.key ▸ hk)]
  refine ⟨⟨hst.indexed, ?_⟩, ?_, ?_, ?_⟩
  · intro key k hk
    rw [hst.nodeOf] at hk
    split_ifs at hk
    · exact Option.some.inj hk ▸ hr.nodeOk_toNode hn ht hm hd
    · exact h.ok.nodes hk
  · intro key hkey
    rw [hother key fun e => hkey n (by simp) e.symm]
    exact h.absent key fun k hk => hkey k (List.mem_append_left _ hk)
  · intro k hk
    rcases List.mem_append.mp hk with hk | hk
    · rw [entryOf_congr (hother k.data (hnew k hk))]
      exact h.present k hk
    · obtain rfl := List.mem_singleton.mp hk
      rw [entryOf_some hself]
      exact hr.sameFrom_toNode hn ht hm
  · have hnodup : (a :: s.queue).Nodup := hq ▸ hst.indexed.nodup
    have hdata : (s'.mem a).data = n.data := by
      rw [hst.mem_self, (r.toNode_key_data conf now m).2, hd]
    have htail : (s.queue.map fun b => (s'.mem b).data) = s.queue.map fun b => (s.mem b).data := by
      refine List.map_congr_left fun b hb => ?_
      have hba : b ≠ a := fun e => (List.nodup_cons.mp hnodup).1 (e ▸ hb)
      rw [(hst.other b (hq ▸ List.mem_cons_of_mem a hb) hba).2]
    rw [hq, List.map_cons, hdata, htail, List.map_append, List.reverse_append]
    exact h.order.cons_cons _

end Rebuilt

/-- The restore loop over the records of well-formed nodes with different keys, with no
request refused. -/
theorem restoreAll_rebuilt {rs : List (SnapRecord conf.threshold)} {ns ns' : List Node}
    (hrs : List.Forall₂ (Records conf) rs ns') (hok : ∀ n ∈ ns', NodeOk conf t n) (ht : t ≤ now)
    (hnodup : ((ns ++ ns').map Node.data).Nodup) (slabs : ℕ → Slab) {restored : List Addr}
    (h : Rebuilt core conf now ns s)
    (hnf : (restoreAll core conf now slabs rs s restored).1.refused = s.refused) :
    Rebuilt core conf now (ns ++ ns') (restoreAll core conf now slabs rs s restored).1 := by
  induction hrs generalizing ns s restored with
  | nil =>
      rw [List.append_nil]
      exact h
  | @cons r n rs ns' hr _ ih =>
      have hnew : ∀ m ∈ ns, m.data ≠ n.data := by
        intro m hm he
        rw [List.map_append, List.nodup_append] at hnodup
        exact hnodup.2.2 m.data (List.mem_map_of_mem hm) n.data (by simp) he
      have happ : ns ++ n :: ns' = (ns ++ [n]) ++ ns' := by simp
      have hn : NodeOk conf t n := hok n List.mem_cons_self
      have hok' : ∀ n ∈ ns', NodeOk conf t n := fun k hk => hok k (List.mem_cons_of_mem n hk)
      rw [happ] at hnodup ⊢
      rw [restoreAll] at hnf ⊢
      split_ifs at hnf ⊢ with hskip
      · exact ih hok' hnodup (h.skip hr hskip hnew) hnf
      · have habs : nodeOf core s r.key = none := by
          rw [hr.key]; exact h.absent n.data hnew
        have hrefused :
            (restoreTarget core conf now (slabs rs.length) r.key s).1.refused = s.refused := by
          have htarget := restoreTarget_restored conf now (slabs rs.length) h.ok.indexed r
          generalize restoreTarget core conf now (slabs rs.length) r.key s = found at htarget hnf ⊢
          obtain ⟨s₁, _ | a⟩ := found
          · exact hnf
          · obtain ⟨s₂, k, hst⟩ := htarget
            obtain ⟨lost, hs⟩ := hst.room
            have hle := restoreAll_refused_le conf now slabs rs (a :: restored) hst.indexed
            exact le_antisymm (hle.trans hnf.le) (hs.refused.trans hst.refused.ge)
        obtain ⟨s₁, a, htarget, hq, hst⟩ :=
          restoreTarget_new conf now (slabs rs.length) h.ok.indexed r habs hrefused
        rw [htarget] at hnf hrefused ⊢
        exact ih hok' hnodup (h.store hr hn ht hnew hq hst) (hnf.trans hrefused.symm)

/-! ## The whole snapshot -/

/-- Every well-formed node of a list has its record. -/
theorem exists_records (ht : t ≤ conf.timeMax) {ns : List Node} (h : ∀ n ∈ ns, NodeOk conf t n) :
    ∃ rs : List (SnapRecord conf.threshold), List.Forall₂ (Records conf) rs ns := by
  induction ns with
  | nil => exact ⟨[], .nil⟩
  | cons n ns ih =>
      obtain ⟨r, hr⟩ := (h n List.mem_cons_self).exists_record ht
      obtain ⟨rs, hrs⟩ := ih fun m hm => h m (List.mem_cons_of_mem n hm)
      exact ⟨r :: rs, .cons hr hrs⟩

theorem putNodes_eq_encode {rs : List (SnapRecord conf.threshold)} {mem : Addr → Node}
    {l : List Addr} (h : List.Forall₂ (Records conf) rs (l.map mem)) :
    putNodes conf mem l = (rs.map SnapRecord.encode).flatten := by
  induction l generalizing rs with
  | nil =>
      cases h
      rfl
  | cons a l ih =>
      cases h with
      | cons hr h =>
          rw [List.map_cons, List.flatten_cons, hr.bytes, ← ih h]
          rfl

/-- A payload of the records of nodes passes the validator and is restored record by
record. -/
theorem loadPayload_records {mem : Addr → Node} {l : List Addr} (hlen : l.length < 2 ^ 32)
    {rs : List (SnapRecord conf.threshold)} (h : List.Forall₂ (Records conf) rs (l.map mem))
    (core : Core) (now : ℤ) (slabs : ℕ → Slab) (s : Shctx) :
    ∃ w e, loadPayload core conf now slabs (putNodes conf mem l) (UInt32.ofNat l.length) s =
        some (.accepted w e) ∧
      restoreAll core conf now slabs rs s [] = (w.zone, w.restored, decide (e = .finished)) := by
  have hrecords : (UInt32.ofNat l.length).toNat = rs.length := by
    rw [UInt32.toNat_ofNat_of_lt' hlen, h.length_eq, List.length_map]
  rw [putNodes_eq_encode h]
  obtain ⟨rc, hrc, hiff⟩ : ∃ rc, validateSnapshot ((rs.map SnapRecord.encode).flatten)
      (UInt32.ofNat l.length) conf.threshold = some rc ∧ (rc = .ok ↔ IsPayload conf.threshold
        (UInt32.ofNat l.length).toNat (((rs.map SnapRecord.encode).flatten).drop 0)) :=
    validateFrom_eq (Nat.zero_le _)
  obtain rfl : rc = .ok := hiff.mpr (isPayload_iff_encode.mpr ⟨rs, hrecords.symm, rfl⟩)
  obtain ⟨w, e, hrun, hall, -⟩ := restore_eq core now slabs (w := ⟨s, 0, 0, 0, []⟩)
    (Nat.zero_le _) (List.drop_zero (l := (rs.map SnapRecord.encode).flatten))
  refine ⟨w, e, ?_, hall⟩
  simp only [loadPayload, hrc, hrecords, Option.bind_eq_bind, Option.bind_some, hrun]
  rfl

/-- A zone after a run of calls: well-formed, and packed into the segment. -/
theorem reachable_ok (core : Core) {cs : List Call} (hclock : Clocked Call.now 0 cs)
    (hmax : ∀ c ∈ cs, c.now ≤ conf.timeMax) :
    0 ≤ lastTime Call.now 0 cs ∧ lastTime Call.now 0 cs ≤ conf.timeMax ∧
      ZoneOk core conf (lastTime Call.now 0 cs) (run (callStep core conf) .empty cs) ∧
      Packed conf (run (callStep core conf) .empty cs) := by
  refine run_clocked_invariant
    (fun t s => 0 ≤ t ∧ t ≤ conf.timeMax ∧ ZoneOk core conf t s ∧ Packed conf s)
    (fun c => c.now ≤ conf.timeMax) ?_
    ⟨le_rfl, conf.timeMax_pos.le, zoneOk_empty core conf 0, packed_empty conf⟩ hclock hmax
  intro t s c ⟨h0, _, hs, hp⟩ ht hc
  exact ⟨h0.trans ht, hc, exec_zoneOk hs c ht (h0.trans ht), callStep_packed hs.indexed hp c⟩

/-- A zone whose nodes all found room in the snapshot. -/
def NoneLeftOut (conf : ZoneConf) (s : Shctx) : Prop :=
  serializeNodes conf s.mem s.queue.reverse fileHdrLen =
    (putNodes conf s.mem s.queue.reverse, UInt32.ofNat s.queue.length)

/-- With 64-bit times the segment has room for every node's record. -/
theorem noneLeftOut (hs : ZoneOk core conf t s) (hp : Packed conf s)
    (hbytes : conf.plat.time.bytes = 8) : NoneLeftOut conf s := by
  obtain ⟨k, -, hrun, -, hall⟩ := serializeNodes_spec conf s.mem s.queue.reverse conf.fileHdrLen_le
  have hk := hall (length_putNodes_le hs hp hbytes)
  rw [NoneLeftOut, hrun, hk, List.take_length, List.length_reverse]

/-- What the round trip through a snapshot promises: the file is accepted; with 64-bit times
it holds every node; and if it does, and no allocation is refused while loading, no later
calls can tell the two zones apart, and the nodes that survive keep their order. -/
structure RoundTrip (core : Core) (conf : ZoneConf) (now : ℤ) (s : Shctx) (w : Walk) : Prop where
  complete : conf.plat.time.bytes = 8 → NoneLeftOut conf s
  alike : NoneLeftOut conf s → w.zone.refused = 0 → ReportsAlike core conf now s w.zone
  order : NoneLeftOut conf s → w.zone.refused = 0 →
    (w.zone.queue.map fun a => (w.zone.mem a).data).Sublist (s.queue.map fun a => (s.mem a).data)

/-- The zone rebuilt from a complete snapshot. -/
theorem rebuilt_of_complete (hs : ZoneOk core conf t s) (hnow : t ≤ now)
    {rs : List (SnapRecord conf.threshold)}
    (hrs : List.Forall₂ (Records conf) rs (s.queue.reverse.map s.mem)) (slabs : ℕ → Slab)
    (hnf : (restoreAll core conf now slabs rs .empty []).1.refused = 0) :
    Rebuilt core conf now (s.queue.reverse.map s.mem)
      (restoreAll core conf now slabs rs .empty []).1 := by
  have hok : ∀ n ∈ s.queue.reverse.map s.mem, NodeOk conf t n := by
    intro n hn
    obtain ⟨a, ha, rfl⟩ := List.mem_map.mp hn
    exact hs.nodes (hs.indexed.nodeOf_mem (List.mem_reverse.mp ha) rfl)
  have hnodup : (([] ++ s.queue.reverse.map s.mem).map Node.data).Nodup := by
    rw [List.nil_append, List.map_map]
    refine List.Nodup.map_on ?_ (List.nodup_reverse.mpr hs.indexed.nodup)
    intro a ha b hb hd
    exact hs.indexed.eq_of_data_eq (List.mem_reverse.mp ha) (List.mem_reverse.mp hb) hd
  have h := restoreAll_rebuilt hrs hok hnow hnodup slabs (.empty core conf now) hnf
  rwa [List.nil_append] at h

/-- The rebuilt zone is alike. -/
theorem Rebuilt.alike {s' : Shctx} (h : Rebuilt core conf now (s.queue.reverse.map s.mem) s')
    (hs : ZoneOk core conf t s) (hnow : t ≤ now) : Alike core conf now s s' := by
  refine ⟨hs.mono hnow, h.ok, fun key => ?_⟩
  cases hn : nodeOf core s key with
  | none =>
      have habs : nodeOf core s' key = none := by
        refine h.absent key fun n hn' => ?_
        obtain ⟨a, ha, rfl⟩ := List.mem_map.mp hn'
        exact (hs.indexed.nodeOf_eq_none_iff.mp hn) a (List.mem_reverse.mp ha)
      rw [entryOf_none hn, entryOf_none habs]
  | some n =>
      obtain ⟨a, ha, rfl, rfl⟩ := hs.indexed.nodeOf_eq_some_iff.mp hn
      rw [entryOf_some hn]
      exact (h.present (s.mem a) (List.mem_map_of_mem (List.mem_reverse.mpr ha))).symm

/-- **Snapshot round trip.** A snapshot of a zone that any run of calls can lead to, with
fewer than 2³² nodes, is accepted by an empty zone of the same configuration at any later
time, and keeps what `RoundTrip` says. -/
theorem snapshot_round_trip (core : Core) (conf : ZoneConf) (cs : List Call)
    (hclock : Clocked Call.now 0 cs) (hmax : ∀ c ∈ cs, c.now ≤ conf.timeMax)
    (hfew : (run (callStep core conf) .empty cs).queue.length < 2 ^ 32) (alloc : Bool)
    (bytes : List UInt8)
    (hser : serialize core conf alloc (run (callStep core conf) .empty cs) = some bytes) (now : ℤ)
    (hnow : lastTime Call.now 0 cs ≤ now) (slabs : ℕ → Slab) :
    ∃ w e, load core conf now slabs (.content bytes true true) .empty = some (.accepted w e) ∧
      RoundTrip core conf now (run (callStep core conf) .empty cs) w := by
  obtain ⟨h0, htmax, hok, hpacked⟩ := reachable_ok core hclock hmax
  generalize lastTime Call.now 0 cs = t at h0 htmax hok hnow
  generalize run (callStep core conf) .empty cs = s at hfew hser hok hpacked
  have hnodes : ∀ l : List Addr, l.Sublist s.queue.reverse → ∀ n ∈ l.map s.mem, NodeOk conf t n := by
    intro l hl n hn
    obtain ⟨a, ha, rfl⟩ := List.mem_map.mp hn
    exact hok.nodes (hok.indexed.nodeOf_mem (List.mem_reverse.mp (hl.subset ha)) rfl)
  have hload := load_serialize hser now slabs .empty
  obtain ⟨k, hk, hrun, -, -⟩ := serializeNodes_spec conf s.mem s.queue.reverse conf.fileHdrLen_le
  have hklen : (s.queue.reverse.take k).length = k := by rw [List.length_take, min_eq_left hk]
  rw [List.length_reverse] at hk
  obtain ⟨rs, hrs⟩ := exists_records htmax (hnodes _ (List.take_sublist k _))
  obtain ⟨w, e, hacc, -⟩ :=
    loadPayload_records (by rw [hklen]; omega) hrs core now slabs .empty
  have hloaded : load core conf now slabs (.content bytes true true) .empty =
      some (.accepted w e) := by rw [hload, hrun, ← hacc, hklen]
  have hrebuilt : NoneLeftOut conf s → w.zone.refused = 0 →
      Rebuilt core conf now (s.queue.reverse.map s.mem) w.zone := by
    intro hnone hnf
    rw [NoneLeftOut] at hnone
    obtain ⟨rs, hrs⟩ := exists_records htmax (hnodes _ (List.Sublist.refl _))
    obtain ⟨w', e', hacc', hrest⟩ := loadPayload_records (l := s.queue.reverse)
      (by rwa [List.length_reverse]) hrs core now slabs .empty
    rw [hload, hnone, ← List.length_reverse, hacc'] at hloaded
    obtain ⟨rfl, rfl⟩ : w' = w ∧ e' = e := by simpa using hloaded
    have hz : (restoreAll core conf now slabs rs .empty []).1 = w'.zone := by rw [hrest]
    rw [← hz] at hnf ⊢
    exact rebuilt_of_complete hok hnow hrs slabs hnf
  refine ⟨w, e, hloaded, noneLeftOut hok hpacked, ?_, ?_⟩
  · intro hnone hnf
    exact ((hrebuilt hnone hnf).alike hok hnow).reportsAlike (h0.trans hnow)
  · intro hnone hnf
    have horder := (hrebuilt hnone hnf).order
    rwa [List.map_map, ← List.map_reverse, List.reverse_reverse] at horder

/-! ## Where the round trip ends -/

theorem putNodes_ne_nil {mem : Addr → Node} {l : List Addr} (h : l ≠ []) :
    putNodes conf mem l ≠ [] := by
  cases l with
  | nil => exact absurd rfl h
  | cons a l =>
      intro he
      have hlen := congrArg List.length he
      simp only [putNodes, List.map_cons, List.flatten_cons, List.length_append, length_putNode,
        serializeRecLen, fileRecLen, List.length_nil] at hlen
      omega

/-- A small zone in a segment of 32 TiB. -/
def ZoneConf.vast : ZoneConf := { ZoneConf.small with
  shmSize := 2 ^ 45, shmSize_ge := by decide, shmSize_lt := by decide }

/-- One event at time 1 for each of `n` clients. -/
def crowd (n : ℕ) : List Call :=
  (List.range n).map fun i =>
    .record ⟨encodeLE digestLen i, length_encodeLE ..⟩ 1 fun _ => some (4096 + 256 * i)

theorem now_of_mem_crowd {c : Call} {k : ℕ} (h : c ∈ crowd k) : c.now = 1 := by
  obtain ⟨i, -, rfl⟩ := List.mem_map.mp h
  rfl

theorem encodeLE_ne {i j : ℕ} (hij : i < j) (hj : j < 2 ^ 32) :
    encodeLE digestLen i ≠ encodeLE digestLen j := by
  intro he
  have hmod := congrArg decodeLE he
  rw [decodeLE_encodeLE, decodeLE_encodeLE, digestLen, Nat.mod_eq_of_lt (by omega),
    Nat.mod_eq_of_lt (by omega)] at hmod
  omega

/-- The zone after `k` calls of a crowd. -/
structure Crowded (k : ℕ) (s : Shctx) : Prop where
  indexed : Indexed .unbalanced s
  length : s.queue.length = k
  recent : ∀ a ∈ s.queue, (s.mem a).lastSeen = 1
  keys : ∀ a ∈ s.queue, ∃ i < k, (s.mem a).data = encodeLE digestLen i
  blocks : ∀ b ∈ s.blocks, ∃ i < k, b = ⟨4096 + 256 * i, 145⟩

theorem Crowded.step {k : ℕ} (h : Crowded k s) (hk : k < 2 ^ 32) :
    Crowded (k + 1) (callStep .unbalanced .vast s
      (.record ⟨encodeLE digestLen k, length_encodeLE ..⟩ 1 fun _ => some (4096 + 256 * k))) := by
  let key : Digest := ⟨encodeLE digestLen k, length_encodeLE ..⟩
  let a : Addr := 4096 + 256 * k
  have hsize : ZoneConf.vast.nodeSize digestLen = 145 := rfl
  have hrecent : ∀ b ∈ s.queue,
      (1 : ℤ) < ZoneConf.vast.addSaturate (s.mem b).lastSeen ZoneConf.vast.inactive := by
    intro b hb
    rw [h.recent b hb]
    decide +kernel
  have hl : lookup s (crc32 key) key = none := by
    refine (h.indexed.lookup_eq_none_iff).mpr fun b hb => ?_
    obtain ⟨i, hi, hd⟩ := h.keys b hb
    rw [hd]
    exact encodeLE_ne hi hk
  have hfree : FreeBlock .vast s (ZoneConf.vast.nodeSize digestLen) a := by
    rw [hsize]
    refine ⟨?_, ?_, fun b hb => ?_⟩
    · change 200 ≤ 4096 + 256 * k
      omega
    · change 4096 + 256 * k + 145 ≤ 2 ^ 45
      omega
    · obtain ⟨i, hi, rfl⟩ := h.blocks b hb
      have hlt : 4096 + 256 * i + 145 ≤ 4096 + 256 * k := by omega
      exact ⟨by change 4096 + 256 * k ≠ 4096 + 256 * i; omega, .inr hlt⟩
  have hfresh : a ∉ s.queue := h.indexed.not_mem_of_free hfree
  have hstep : callStep .unbalanced .vast s (.record key 1 fun _ => some a) = _ :=
    congrArg Prod.fst (record_new key _ hrecent hl rfl hfree)
  have hold : ∀ b ∈ s.queue,
      (callStep .unbalanced .vast s (.record key 1 fun _ => some a)).mem b = s.mem b := by
    intro b hb
    have hba : b ≠ a := fun e => hfresh (e ▸ hb)
    rw [hstep]
    simp [recordAt_eq, setNode, linkNode, Function.update_of_ne hba]
  have hself : (callStep .unbalanced .vast s (.record key 1 fun _ => some a)).mem a =
      (recordNode .vast (freshNode .vast (crc32 key) key 1) 1).1 := by
    rw [hstep]
    simp [recordAt_eq, setNode, linkNode, Core.unbalanced]
  have hqueue : (callStep .unbalanced .vast s (.record key 1 fun _ => some a)).queue =
      a :: s.queue := by rw [hstep]; rfl
  refine ⟨callStep_indexed .vast h.indexed _, ?_, ?_, ?_, ?_⟩
  · rw [hqueue, List.length_cons, h.length]
  · rw [hqueue]
    intro b hb
    rcases List.mem_cons.mp hb with rfl | hb
    · rw [hself]
      rfl
    · rw [hold b hb, h.recent b hb]
  · rw [hqueue]
    intro b hb
    rcases List.mem_cons.mp hb with rfl | hb
    · exact ⟨k, k.lt_succ_self, by rw [hself]; rfl⟩
    · obtain ⟨i, hi, hd⟩ := h.keys b hb
      exact ⟨i, hi.trans k.lt_succ_self, by rw [hold b hb, hd]⟩
  · rw [hstep]
    intro b hb
    rcases List.mem_cons.mp hb with rfl | hb
    · exact ⟨k, k.lt_succ_self, rfl⟩
    · obtain ⟨i, hi, hd⟩ := h.blocks b hb
      exact ⟨i, hi.trans k.lt_succ_self, hd⟩

theorem crowded_run {k : ℕ} (hk : k ≤ 2 ^ 32) :
    Crowded k (run (callStep .unbalanced .vast) .empty (crowd k)) := by
  induction k with
  | zero =>
      exact ⟨indexed_empty _, rfl, by simp [crowd, Shctx.empty], by simp [crowd, Shctx.empty],
        by simp [crowd, Shctx.empty]⟩
  | succ k ih =>
      rw [crowd, List.range_succ, List.map_append, run_append]
      exact (ih (by omega)).step (by omega)

theorem clocked_crowd (k : ℕ) : Clocked Call.now 0 (crowd k) := by
  have h : ∀ cs : List Call, (∀ c ∈ cs, c.now = 1) → ∀ t ≤ 1, Clocked Call.now t cs := by
    intro cs
    induction cs with
    | nil => exact fun _ _ _ => trivial
    | cons c cs ih =>
        intro hcs t ht
        have hc : c.now = 1 := hcs c List.mem_cons_self
        exact ⟨hc ▸ ht, ih (fun c hc => hcs c (List.mem_cons_of_mem _ hc)) _ hc.le⟩
  exact h _ (fun _ => now_of_mem_crowd) 0 (by decide)

/-- 2³² nodes are counted as none, and the snapshot is refused. -/
theorem load_crowd {bytes : List UInt8} (hser : serialize .unbalanced .vast true
      (run (callStep .unbalanced .vast) .empty (crowd (2 ^ 32))) = some bytes) :
    load .unbalanced .vast 1 (fun _ _ => none) (.content bytes true true) .empty =
      some (.rejected .malformed) := by
  have hmax : ∀ c ∈ crowd (2 ^ 32), c.now ≤ ZoneConf.vast.timeMax := by
    intro c hc
    rw [now_of_mem_crowd hc]
    decide +kernel
  obtain ⟨-, -, hok, hpacked⟩ := reachable_ok .unbalanced (clocked_crowd (2 ^ 32)) hmax
  have hlen := (crowded_run (k := 2 ^ 32) le_rfl).length
  generalize run (callStep .unbalanced .vast) .empty (crowd (2 ^ 32)) = s at hser hok hpacked hlen
  have hnone : NoneLeftOut .vast s := noneLeftOut hok hpacked rfl
  have hne : s.queue.reverse ≠ [] := by
    rw [Ne, List.reverse_eq_nil_iff, ← List.length_eq_zero_iff, hlen]
    decide
  rw [NoneLeftOut] at hnone
  rw [load_serialize hser, hnone, hlen]
  exact loadPayload_zero _ _ _ _ (putNodes_ne_nil hne) _

/-- Two clients banned until 2⁶³ - 6, and one event of a third just after. -/
def lateCalls : List Call :=
  [.record (.repeated 1) (2 ^ 63 - 26) fun _ => some 4096,
    .record (.repeated 1) (2 ^ 63 - 26) fun _ => none,
    .record (.repeated 2) (2 ^ 63 - 26) fun _ => some 8192,
    .record (.repeated 2) (2 ^ 63 - 26) fun _ => none,
    .record (.repeated 3) (2 ^ 63 - 5) fun _ => some 12288]

/-- The round trip has two ends. The record counter has 32 bits, so that a snapshot of 2³²
nodes is not accepted; and at the largest time every node counts as inactive, so that the
two clients left out of a snapshot no longer keep expiry away from the third. -/
theorem snapshot_round_trip_ends :
    (∃ bytes, serialize .unbalanced .vast true
        (run (callStep .unbalanced .vast) .empty (crowd (2 ^ 32))) = some bytes ∧
      load .unbalanced .vast 1 (fun _ _ => none) (.content bytes true true) .empty =
        some (.rejected .malformed)) ∧
    ∃ bytes r, serialize .unbalanced .small true
        (run (callStep .unbalanced .small) .empty lateCalls) = some bytes ∧
      load .unbalanced .small (2 ^ 63 - 5) (fun _ _ => some 4096) (.content bytes true true)
        .empty = some r ∧ (r.zone .empty).refused = 0 ∧
      verdicts .unbalanced .small (run (callStep .unbalanced .small) .empty lateCalls)
        [.isBlocked (.repeated 3) (2 ^ 63 - 1)] = [⟨.declined, some (1, 0)⟩] ∧
      verdicts .unbalanced .small (r.zone .empty)
        [.isBlocked (.repeated 3) (2 ^ 63 - 1)] = [⟨.declined, some (0, 0)⟩] := by
  refine ⟨⟨_, rfl, load_crowd rfl⟩, ?_⟩
  let s := run (callStep .unbalanced .small) .empty lateCalls
  let saved := serializeNodes .small s.mem s.queue.reverse fileHdrLen
  have hrun : ((loadPayload .unbalanced .small (2 ^ 63 - 5) (fun _ _ => some 4096) saved.1 saved.2
      .empty).map fun r => ((r.zone .empty).refused,
        verdicts .unbalanced .small (r.zone .empty) [.isBlocked (.repeated 3) (2 ^ 63 - 1)])) =
      some (0, [⟨.declined, some (0, 0)⟩]) := by decide +kernel
  obtain ⟨r, hr, hres⟩ := Option.map_eq_some_iff.mp hrun
  obtain ⟨hrefused, hverdicts⟩ := Prod.ext_iff.mp hres
  have hser : serialize .unbalanced .small true s = some _ := rfl
  exact ⟨_, r, hser, (load_serialize hser ..).trans hr, hrefused, by decide +kernel, hverdicts⟩

/-- A client banned until 22 and one with a single event at 5, loaded at 6. -/
theorem snapshot_round_trip_two :
    let s := run (callStep .unbalanced .small) .empty
      [.record (.repeated 7) 1 fun _ => some 4096, .record (.repeated 7) 2 fun _ => none,
        .record (.repeated 8) 5 fun _ => some 8192]
    ∃ bytes, serialize .unbalanced .small true s = some bytes ∧
      ∃ w e, load .unbalanced .small 6 (fun n _ => some (4096 * (n + 1)))
        (.content bytes true true) .empty = some (.accepted w e) ∧
      RoundTrip .unbalanced .small 6 s w :=
  ⟨_, rfl, snapshot_round_trip .unbalanced .small _ (by decide) (by decide +kernel)
    (by decide +kernel) true _ rfl 6 (by decide) _⟩

end ErrorAbuse
