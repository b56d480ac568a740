import ErrorAbuse.Snapshot.Slots

/-!
# Does `peek` foretell `record`?

`peek` counts the events in the window over the whole ring. `record` drops events from the
front of the ring only; before that it may have expired the node, and it empties the ring
when a ban has ended. The counts agree unless an event is stranded behind a newer one,
or one of these steps discards events that are still in the window. `Foreseeable` is the
exact condition. Calls whose clock readings never fall cannot violate it; a snapshot or a
worker with a slower clock can.
-/

namespace ErrorAbuse

open Lib

variable {core : Core} {conf : ZoneConf} {now : ℤ} {s : Shctx} {n : Node} {key : Digest}
  {a q : Addr} {limit : ℕ}

/-! ## Expiry from the tail -/

/-- A node that expiry may delete. -/
def Inactive (conf : ZoneConf) (now : ℤ) (n : Node) : Prop :=
  n.blockedUntil ≤ now ∧ conf.addSaturate n.lastSeen conf.inactive ≤ now

/-- A node among the last `limit` of the queue that is inactive, as are all behind it. -/
def Expiring (conf : ZoneConf) (now : ℤ) (limit : ℕ) (s : Shctx) (a : Addr) : Prop :=
  ∃ newer older, s.queue = newer ++ a :: older ∧ older.length < limit ∧
    ∀ b ∈ a :: older, Inactive conf now (s.mem b)

/-- Which nodes expire once the last one has. -/
theorem expiring_succ (core : Core) {l : List Addr} (hq : s.queue = l ++ [q]) (hl : (s.queue).Nodup)
    (hi : Inactive conf now (s.mem q)) :
    Expiring conf now (limit + 1) s a ↔ a = q ∨ Expiring conf now limit (delete core s q) a := by
  have hdel : (delete core s q).queue = l := by
    have hnot : q ∉ l := by
      rw [hq] at hl
      exact fun hm => (List.nodup_append.mp hl).2.2 q hm q (List.mem_singleton_self q) rfl
    simp [delete, hq, List.erase_append_right _ hnot]
  constructor
  · rintro ⟨newer, older, heq, hlen, hall⟩
    rw [hq] at heq
    rcases List.eq_nil_or_concat older with rfl | ⟨older, b, rfl⟩
    · left
      simpa using (List.append_inj' heq rfl).2.symm
    · right
      have hsplit : l ++ [q] = (newer ++ a :: older) ++ [b] := by simpa using heq
      refine ⟨newer, older, ?_, by simpa using hlen, ?_⟩
      · rw [hdel]
        exact (List.append_inj' hsplit rfl).1
      · intro c hc
        exact hall c (by simp only [List.mem_cons, List.concat_eq_append, List.mem_append] at hc ⊢; tauto)
  · intro h
    rcases h with rfl | ⟨newer, older, heq, hlen, hall⟩
    · exact ⟨l, [], hq, by simp, by simpa using hi⟩
    · rw [hdel] at heq
      refine ⟨newer, older ++ [q], by simp [hq, heq], by simpa using hlen, ?_⟩
      intro c hc
      rcases List.mem_append.mp (show c ∈ (a :: older) ++ [q] from hc) with hc | hc
      · exact hall c hc
      · obtain rfl := List.mem_singleton.mp hc
        exact hi

/-- Expiry deletes exactly the inactive nodes at the tail, up to its limit. -/
theorem mem_expire (h : Indexed core s) (limit : ℕ) :
    a ∈ (expire core conf now limit s).queue ↔ a ∈ s.queue ∧ ¬ Expiring conf now limit s a := by
  induction limit generalizing s with
  | zero =>
      have hnone : ¬ Expiring conf now 0 s a := by
        rintro ⟨newer, older, _, hlen, _⟩
        exact absurd hlen (Nat.not_lt_zero _)
      simp [expire, hnone]
  | succ limit ih =>
      rw [expire]
      cases hlast : s.queue.getLast? with
      | none =>
          rw [List.getLast?_eq_none_iff] at hlast
          simp [hlast]
      | some q =>
          obtain ⟨l, hq⟩ := List.getLast?_eq_some_iff.mp hlast
          have hqm : q ∈ s.queue := List.mem_of_getLast? hlast
          dsimp only
          by_cases hi : Inactive conf now (s.mem q)
          · rw [if_neg (by simpa [Inactive] using hi), ih (h.delete hqm),
              expiring_succ core hq h.nodup hi]
            simp only [delete, List.Nodup.mem_erase_iff h.nodup]
            tauto
          · rw [if_pos (by simpa [Inactive, imp_iff_not_or] using hi)]
            have hnone : ¬ Expiring conf now (limit + 1) s a := by
              rintro ⟨newer, older, heq, _, hall⟩
              refine hi (hall q ?_)
              have hmem := congrArg List.getLast? heq
              rw [hlast, List.getLast?_append_cons] at hmem
              exact List.mem_of_getLast? hmem.symm
            simp [hnone]

/-! ## The two reports -/

/-- What `peek` reports of an unbanned key with `seen` events in the window. -/
def previewOf (conf : ZoneConf) (now : ℤ) (seen : ℕ) : Preview where
  count := seen + 1
  blockedUntil := if seen + 1 ≥ conf.threshold then conf.addSaturate now conf.block else 0
  wouldBlock := seen + 1 ≥ conf.threshold

/-- What `record` reports of an unbanned key when its ring holds `held` events before the
new one. Before the epoch a deadline of zero counts as a ban. -/
def verdictOf (conf : ZoneConf) (now : ℤ) (held : ℕ) : Verdict :=
  if held + 1 ≥ conf.threshold then ⟨.busy, some (conf.threshold, conf.addSaturate now conf.block)⟩
  else if now < 0 then ⟨.busy, some (conf.threshold, 0)⟩
  else ⟨.ok, some (held + 1, 0)⟩

theorem peek_absent (hl : lookup s (core.crc32Short key) key = none) :
    peek core conf key now s = previewOf conf now 0 := by
  have hpos := conf.threshold_pos
  have hcount : (if conf.threshold ≤ 1 then conf.threshold else 1) = 0 + 1 := by
    split_ifs <;> omega
  simp only [peek_eq, hl, hcount]
  rfl

theorem peek_banned (hl : lookup s (core.crc32Short key) key = some a)
    (hb : (s.mem a).blockedUntil > now) :
    peek core conf key now s = ⟨conf.threshold, (s.mem a).blockedUntil, true⟩ := by
  simp only [peek_eq, hl, if_pos hb]

theorem peek_unbanned (hl : lookup s (core.crc32Short key) key = some a)
    (hb : ¬ (s.mem a).blockedUntil > now) :
    peek core conf key now s =
      previewOf conf now (window (now - conf.interval) ((s.mem a).contents conf)).length := by
  simp only [peek_eq, hl, if_neg hb, window]
  rfl

/-- The events `record` finds in the ring of an unbanned node after lifting and pruning. -/
def heldEvents (conf : ZoneConf) (now : ℤ) (n : Node) : ℕ :=
  if n.blockedUntil ≠ 0 then 0
  else ((n.contents conf).dropWhile fun e => decide (e ≤ now - conf.interval)).length

theorem eventCount_pruneEvents (h : Bounded conf n) (now : ℤ) :
    (pruneEvents conf n now).eventCount =
      ((n.contents conf).dropWhile fun e => decide (e ≤ now - conf.interval)).length := by
  rw [pruneEvents_eq, Node.contents, ← Ring.contents_dropFront _ h.head, Ring.length_contents]

theorem recordNode_unbanned (h : Bounded conf n) (hb : ¬ n.blockedUntil > now)
    (hsat : now + conf.block ≤ conf.timeMax) :
    (recordNode conf n now).2 = verdictOf conf now (heldEvents conf now n) := by
  have hban : conf.addSaturate now conf.block > now := by
    rw [ZoneConf.addSaturate, timeAddSaturate_of_le conf.block_pos hsat]
    exact lt_add_of_pos_right now conf.block_pos
  have hheld : (pruneEvents conf (if n.blockedUntil ≠ 0 then
      { n with blockedUntil := 0, eventHead := 0, eventCount := 0 } else n) now).eventCount =
        heldEvents conf now n := by
    rw [heldEvents]
    split_ifs
    · rfl
    · exact eventCount_pruneEvents h now
  have hzero : (pruneEvents conf (if n.blockedUntil ≠ 0 then
      { n with blockedUntil := 0, eventHead := 0, eventCount := 0 } else n) now).blockedUntil = 0 := by
    split_ifs with hlift
    · rfl
    · exact not_not.mp hlift
  rw [recordNode_eq, if_neg hb]
  dsimp only
  generalize pruneEvents conf _ now = m at hheld hzero
  rw [← hheld, verdictOf]
  by_cases hfull : m.eventCount + 1 ≥ conf.threshold
  · simp only [if_pos hfull, if_pos hban]
  · simp only [if_neg hfull, hzero, gt_iff_lt]
    split_ifs <;> rfl

/-- Before the epoch a node that was never banned counts as banned until zero. -/
theorem recordNode_fresh (conf : ZoneConf) (hash : UInt32) (key : Digest)
    (hsat : now + conf.block ≤ conf.timeMax) :
    (recordNode conf (freshNode conf hash key now) now).2 =
      if now < 0 then ⟨.busy, some (conf.threshold, 0)⟩ else verdictOf conf now 0 := by
  split_ifs with hneg
  · exact congrArg Prod.snd (if_pos hneg)
  · exact recordNode_unbanned (.fresh conf hash key now) hneg hsat

/-- What `record` reports: the verdict on the node that expiry left for the key, or on a
new one. -/
theorem record_verdict (h : Indexed core s) (key : Digest) (slab : Slab)
    (hrc : (record core conf key now slab s).2.rc ≠ .error) :
    (record core conf key now slab s).2 =
      (recordNode conf ((nodeOf core (expire core conf now 2 s) key).elim
        (freshNode conf (core.crc32Short key) key now) fun n => { n with lastSeen := now }) now).2 := by
  have he := expire_shrinks conf now h 2
  revert hrc
  cases hl : lookup (expire core conf now 2 s) (core.crc32Short key) key with
  | some a =>
      intro _
      simp only [record_eq, findTouchLocked_eq, hl, nodeOf, Option.map_some, Option.elim_some,
        recordAt_eq, touch, setNode, Function.update_self]
  | none =>
      obtain ⟨lost, s₁, -, -, -, -, hcreate⟩ := createNode_effect conf now slab he.indexed hl
      simp only [record_eq, findTouchLocked_eq, hl, nodeOf, Option.map_none, Option.elim_none]
      cases hcreate with
      | failed hcr _ => simp [hcr]
      | linked a hcr hf =>
          intro _
          simp only [hcr, recordAt_eq, linkNode, Function.update_self]

/-- The node a key still has after the expiry `record` starts with. -/
theorem nodeOf_expire (conf : ZoneConf) (now : ℤ) (limit : ℕ) (h : Indexed core s)
    (hl : lookup s (core.crc32Short key) key = some a) :
    (Expiring conf now limit s a → nodeOf core (expire core conf now limit s) key = none) ∧
    (¬ Expiring conf now limit s a →
      nodeOf core (expire core conf now limit s) key = some (s.mem a)) := by
  obtain ⟨ha, hd⟩ := h.lookup_eq_some_iff.mp hl
  have hs := expire_shrinks conf now h limit
  have hmem : a ∈ (expire core conf now limit s).queue ↔
      a ∈ s.queue ∧ ¬ Expiring conf now limit s a := mem_expire h limit
  constructor
  · intro hgone
    rw [hs.indexed.nodeOf_eq_none_iff]
    intro b hb hbd
    rw [hs.mem] at hbd
    obtain rfl := h.eq_of_data_eq (hs.queue b hb) ha (hbd.trans hd.symm)
    exact (hmem.mp hb).2 hgone
  · intro hstay
    rw [hs.indexed.nodeOf_mem (hmem.mpr ⟨ha, hstay⟩) (by rw [hs.mem]; exact hd), hs.mem]

/-! ## Agreement -/

/-- The preview reports the count, the deadline and the outcome of the verdict. -/
def Foretells (p : Preview) (v : Verdict) : Prop :=
  v.out = some (p.count, p.blockedUntil) ∧ (p.wouldBlock = true ↔ v.rc = .busy)

instance (p : Preview) (v : Verdict) : Decidable (Foretells p v) := by
  unfold Foretells
  infer_instance

/-- What the events of an unbanned node must be for the two counts to agree; `gone` says
that `record` deletes the node before it looks. Before the epoch, where `record` takes an
absent deadline for a ban, agreement is a coincidence. -/
structure CountsAgree (conf : ZoneConf) (now : ℤ) (n : Node) (gone : Prop) : Prop where
  epoch : now < 0 →
    (window (now - conf.interval) (n.contents conf)).length + 1 = conf.threshold ∧
      (now + conf.block = 0 ∨ ¬ gone ∧ conf.threshold = 1)
  emptied : 0 ≤ now → gone ∨ n.blockedUntil ≠ 0 →
    window (now - conf.interval) (n.contents conf) = []
  pruned : 0 ≤ now → ¬ gone → n.blockedUntil = 0 →
    stranded (now - conf.interval) (n.contents conf) = [] ∧
        (window (now - conf.interval) (n.contents conf)).length < conf.threshold ∨
      (stranded (now - conf.interval) (n.contents conf)).length = 1 ∧
        (window (now - conf.interval) (n.contents conf)).length + 1 = conf.threshold

/-- A zone in which `peek` foretells `record` for `key` at `now`. -/
structure Foreseeable (core : Core) (conf : ZoneConf) (key : Key) (now : ℤ) (s : Shctx) :
    Prop where
  absent : lookup s (core.crc32Short key) key = none → now < 0 →
    conf.threshold = 1 ∧ now + conf.block = 0
  tracked : ∀ a, lookup s (core.crc32Short key) key = some a → (s.mem a).blockedUntil ≤ now →
    CountsAgree conf now (s.mem a) (Expiring conf now 2 s a)

/-- A verdict of a ban until zero, which no preview has before the epoch but by chance. -/
theorem foretells_zero (hsat : now + conf.block ≤ conf.timeMax) {seen : ℕ} :
    Foretells (previewOf conf now seen) ⟨.busy, some (conf.threshold, 0)⟩ ↔
      seen + 1 = conf.threshold ∧ now + conf.block = 0 := by
  have hban : conf.addSaturate now conf.block = now + conf.block :=
    timeAddSaturate_of_le conf.block_pos hsat
  simp only [Foretells, previewOf, hban, Option.some.injEq, Prod.mk.injEq, decide_eq_true_eq,
    iff_true]
  constructor
  · intro ⟨⟨hcount, hdead⟩, hge⟩
    rw [if_pos hge] at hdead
    exact ⟨hcount.symm, hdead.symm⟩
  · intro ⟨hcount, hdead⟩
    have hge : seen + 1 ≥ conf.threshold := hcount.ge
    exact ⟨⟨hcount.symm, by rw [if_pos hge, hdead]⟩, hge⟩

/-- The two reports, by the numbers of events they count. -/
theorem foretells_verdictOf (hsat : now + conf.block ≤ conf.timeMax) {seen held : ℕ} :
    Foretells (previewOf conf now seen) (verdictOf conf now held) ↔
      if held + 1 ≥ conf.threshold then seen + 1 = conf.threshold
      else if now < 0 then seen + 1 = conf.threshold ∧ now + conf.block = 0
      else seen = held := by
  rw [verdictOf]
  by_cases hfull : held + 1 ≥ conf.threshold
  · rw [if_pos hfull, if_pos hfull]
    simp only [Foretells, previewOf, Option.some.injEq, Prod.mk.injEq, decide_eq_true_eq, iff_true]
    constructor
    · intro h
      exact h.1.1.symm
    · intro h
      have hge : seen + 1 ≥ conf.threshold := h.ge
      exact ⟨⟨h.symm, (if_pos hge).symm⟩, hge⟩
  · rw [if_neg hfull, if_neg hfull]
    split_ifs
    · exact foretells_zero hsat
    · simp only [Foretells, previewOf, Option.some.injEq, Prod.mk.injEq, decide_eq_true_eq,
        reduceCtorEq, iff_false]
      constructor
      · intro h
        omega
      · intro h
        subst h
        exact ⟨⟨rfl, (if_neg hfull).symm⟩, hfull⟩

/-- The report on a node `record` creates, after the preview counted `seen` events. -/
theorem foretells_fresh (hsat : now + conf.block ≤ conf.timeMax) (hash : UInt32) (key : Digest)
    {seen : ℕ} :
    Foretells (previewOf conf now seen) (recordNode conf (freshNode conf hash key now) now).2 ↔
      (now < 0 → seen + 1 = conf.threshold ∧ now + conf.block = 0) ∧ (0 ≤ now → seen = 0) := by
  rw [recordNode_fresh conf hash key hsat]
  by_cases hneg : now < 0
  · rw [if_pos hneg, foretells_zero hsat]
    simp [hneg]
  · have hpos := conf.threshold_pos
    rw [if_neg hneg, foretells_verdictOf hsat, if_neg hneg]
    simp only [hneg, false_imp_iff, true_and, not_lt.mp hneg, true_imp_iff]
    by_cases hone : 0 + 1 ≥ conf.threshold
    · rw [if_pos hone]
      omega
    · rw [if_neg hone]

/-- The report on a node that stays, whatever its time of last access. -/
theorem foretells_kept (h : Bounded conf n) (hb : n.blockedUntil ≤ now)
    (hsat : now + conf.block ≤ conf.timeMax) (lastSeen : ℤ) :
    Foretells
        (previewOf conf now (window (now - conf.interval) (n.contents conf)).length)
        (recordNode conf { n with lastSeen := lastSeen } now).2 ↔
      CountsAgree conf now n False := by
  have hrecord : (recordNode conf { n with lastSeen := lastSeen } now).2 =
      verdictOf conf now (heldEvents conf now n) :=
    recordNode_unbanned (n := { n with lastSeen := lastSeen })
      ⟨h.head, h.count, h.slots, h.digest⟩ (not_lt.mpr hb) hsat
  have hcount : (n.contents conf).length ≤ conf.threshold := by
    rw [Node.contents, Ring.length_contents]
    exact h.count
  have hdrop : ((n.contents conf).dropWhile fun e => decide (e ≤ now - conf.interval)).length ≤
      (n.contents conf).length := (List.dropWhile_sublist _).length_le
  have hpos := conf.threshold_pos
  rw [length_dropWhile_eq] at hdrop
  rw [hrecord, foretells_verdictOf hsat, heldEvents, length_dropWhile_eq]
  constructor
  · intro hif
    refine ⟨fun hneg => ?_, fun h0 hlift => ?_, fun h0 _ hlift => ?_⟩
    · have hlift : n.blockedUntil ≠ 0 := by omega
      rw [if_pos hlift, if_pos hneg] at hif
      split_ifs at hif
      · exact ⟨hif, .inr ⟨not_false, by omega⟩⟩
      · exact ⟨hif.1, .inl hif.2⟩
    · rw [if_pos (hlift.resolve_left id)] at hif
      split_ifs at hif <;> simp only [← List.length_eq_zero_iff] <;> omega
    · rw [if_neg (not_not.mpr hlift)] at hif
      split_ifs at hif <;> simp only [← List.length_eq_zero_iff] <;> omega
  · rintro ⟨hepoch, hemptied, hpruned⟩
    by_cases hneg : now < 0
    · obtain ⟨hseen, hzero⟩ := hepoch hneg
      have hlift : n.blockedUntil ≠ 0 := by omega
      rw [if_pos hlift, if_pos hneg]
      split_ifs
      · exact hseen
      · exact ⟨hseen, hzero.resolve_right fun h => by omega⟩
    · rw [if_neg hneg]
      by_cases hlift : n.blockedUntil ≠ 0
      · rw [if_pos hlift, hemptied (not_lt.mp hneg) (.inr hlift), List.length_nil]
        split_ifs <;> omega
      · rw [if_neg hlift]
        rcases hpruned (not_lt.mp hneg) id (not_not.mp hlift) with ⟨hnil, hlt⟩ | ⟨hone, hfull⟩
        · rw [hnil, List.length_nil]
          split_ifs <;> omega
        · rw [if_pos (by omega)]
          exact hfull

/-- **Exactly when `peek` foretells `record`** in a safe zone. -/
theorem foretells_iff (h : Safe core conf s) (key : Digest) (slab : Slab)
    (hsat : now + conf.block ≤ conf.timeMax)
    (hrc : (record core conf key now slab s).2.rc ≠ .error) :
    Foretells (peek core conf key now s) (record core conf key now slab s).2 ↔
      Foreseeable core conf key now s := by
  rw [record_verdict h.indexed key slab hrc]
  cases hl : lookup s (core.crc32Short key) key with
  | none =>
      have hgone : nodeOf core (expire core conf now 2 s) key = none := by
        have he := expire_shrinks conf now h.indexed 2
        rw [he.indexed.nodeOf_eq_none_iff]
        intro b hb
        rw [he.mem]
        exact h.indexed.lookup_eq_none_iff.mp hl b (he.queue b hb)
      rw [peek_absent hl, hgone, Option.elim_none, foretells_fresh hsat]
      constructor
      · intro hf
        refine ⟨fun _ hneg => ?_, fun a ha => absurd (hl.symm.trans ha) (by simp)⟩
        obtain ⟨hone, hzero⟩ := hf.1 hneg
        exact ⟨by omega, hzero⟩
      · intro hf
        refine ⟨fun hneg => ?_, fun _ => rfl⟩
        obtain ⟨hone, hzero⟩ := hf.absent hl hneg
        exact ⟨by omega, hzero⟩
  | some a =>
      have ha : a ∈ s.queue := (h.indexed.lookup_eq_some_iff.mp hl).1
      have hn : Bounded conf (s.mem a) := h.node ha
      obtain ⟨hgone, hstay⟩ := nodeOf_expire conf now 2 h.indexed hl
      have htracked : Foreseeable core conf key now s ↔ ((s.mem a).blockedUntil ≤ now →
          CountsAgree conf now (s.mem a) (Expiring conf now 2 s a)) := by
        constructor
        · intro hf
          exact hf.tracked a hl
        · intro hf
          refine ⟨fun hnone => absurd (hl.symm.trans hnone) (by simp), fun b hb => ?_⟩
          obtain rfl := Option.some.inj (hl.symm.trans hb)
          exact hf
      rw [htracked]
      by_cases hb : (s.mem a).blockedUntil ≤ now
      · rw [peek_unbanned hl (not_lt.mpr hb), forall_prop_of_true hb]
        by_cases hexp : Expiring conf now 2 s a
        · rw [hgone hexp, Option.elim_none, foretells_fresh hsat]
          constructor
          · intro ⟨hneg, h0⟩
            refine ⟨fun h => ?_, fun h _ => List.length_eq_zero_iff.mp (h0 h), fun _ h => absurd hexp h⟩
            exact ⟨(hneg h).1, .inl (hneg h).2⟩
          · intro hc
            refine ⟨fun h => ?_, fun h => List.length_eq_zero_iff.mpr (hc.emptied h (.inl hexp))⟩
            obtain ⟨hseen, hzero⟩ := hc.epoch h
            exact ⟨hseen, hzero.resolve_right fun hkept => hkept.1 hexp⟩
        · rw [hstay hexp, Option.elim_some, eq_false hexp]
          exact foretells_kept hn hb hsat now
      · have hexp : ¬ Expiring conf now 2 s a := by
          intro ⟨newer, older, _, _, hall⟩
          exact hb (hall a List.mem_cons_self).1
        rw [peek_banned hl (not_le.mp hb), hstay hexp, Option.elim_some, recordNode_eq,
          if_pos (not_le.mp hb)]
        simp [Foretells, hb]

/-! ## Runs -/

variable {t : ℤ}

/-- The events of a well-formed node that has become inactive are out of the window. -/
theorem NodeOk.window_eq_nil_of_inactive (h : NodeOk conf t n) (hi : Inactive conf now n)
    (hmax : now < conf.timeMax) : window (now - conf.interval) (n.contents conf) = [] := by
  have hsum : conf.addSaturate n.lastSeen conf.inactive =
      min (n.lastSeen + conf.inactive) conf.timeMax := timeAddSaturate_eq_min conf.inactive_pos
  have hage := hi.2
  have hle := conf.interval_le_inactive
  apply window_eq_nil
  intro x hx
  have hseen := h.le_lastSeen x hx
  omega

/-- A zone in order foretells itself from then on. -/
theorem ZoneOk.foreseeable (h : ZoneOk core conf t s) (h0 : 0 ≤ now)
    (hsat : now + conf.block ≤ conf.timeMax) (key : Key) : Foreseeable core conf key now s := by
  have hblock := conf.block_pos
  refine ⟨fun _ hneg => absurd hneg (not_lt.mpr h0), fun a hl _ => ?_⟩
  obtain ⟨ha, hd⟩ := h.indexed.lookup_eq_some_iff.mp hl
  have hn : NodeOk conf t (s.mem a) := h.nodes (h.indexed.nodeOf_mem ha hd)
  refine ⟨fun hneg => absurd hneg (not_lt.mpr h0), fun _ hgone => ?_, fun _ _ _ => .inl ⟨?_, ?_⟩⟩
  · rcases hgone with ⟨newer, older, _, _, hall⟩ | hban
    · exact hn.window_eq_nil_of_inactive (hall a List.mem_cons_self) (by omega)
    · rw [Node.contents, hn.ban_empty hban]
      rfl
  · exact stranded_eq_nil hn.sorted
  · have hcount := hn.count_lt
    have hlen := length_window_le (now - conf.interval) ((s.mem a).contents conf)
    rw [Node.contents, Ring.length_contents] at hlen
    exact hlen.trans_lt hcount

theorem ZoneOk.safe (h : ZoneOk core conf t s) : Safe core conf s :=
  ⟨h.indexed, fun _ _ hn =>
    ⟨(h.nodes hn).head_lt, (h.nodes hn).count_lt.le, (h.nodes hn).length_events,
      (h.nodes hn).length_data⟩⟩

/-- Calls with readings that never fall keep a zone in order. -/
theorem run_zoneOk {cs : List Call} (h : ZoneOk core conf t s) (h0 : 0 ≤ t)
    (hclock : Clocked Call.now t cs) :
    0 ≤ lastTime Call.now t cs ∧
      ZoneOk core conf (lastTime Call.now t cs) (run (callStep core conf) s cs) := by
  refine run_clocked_invariant (fun t s => 0 ≤ t ∧ ZoneOk core conf t s) (fun _ => True) ?_ ⟨h0, h⟩
    hclock fun _ _ => trivial
  intro t s c ⟨h0, hs⟩ ht _
  exact ⟨h0.trans ht, exec_zoneOk hs c ht (h0.trans ht)⟩

/-- **When `peek` predicts `record`.** `peek` changes nothing. In any reachable state it
reports what `record` would, if an allocation `record` needs succeeds, exactly when the
events of the key are as `Foreseeable` says. That is so in every state which calls whose
readings never fall reach from a zone in order, such as the empty one. -/
theorem peek_foretells (core : Core) (conf : ZoneConf) (ops : List Op) (key : Digest) (now : ℤ)
    (hsat : now + conf.block ≤ conf.timeMax) :
    let s := run (opStep core conf) .empty ops
    opStep core conf s (.request (.peek key now)) = s ∧
    (∀ slab, (record core conf key now slab s).2.rc ≠ .error →
      (Foretells (peek core conf key now s) (record core conf key now slab s).2 ↔
        Foreseeable core conf key now s)) ∧
    ∀ t cs, ZoneOk core conf t s → 0 ≤ t → Clocked Call.now t cs → lastTime Call.now t cs ≤ now →
      let s' := run (callStep core conf) s cs
      ∀ slab, (record core conf key now slab s').2.rc ≠ .error →
        Foretells (peek core conf key now s') (record core conf key now slab s').2 := by
  intro s
  refine ⟨rfl, fun slab hrc => foretells_iff (reachable_safe core conf ops) key slab hsat hrc, ?_⟩
  intro t cs hs h0 hclock hlast s' slab hrc
  obtain ⟨hlast0, hs'⟩ := run_zoneOk hs h0 hclock
  exact (foretells_iff hs'.safe key slab hsat hrc).mpr (hs'.foreseeable (hlast0.trans hlast) hsat key)

/-- Two events within ten seconds, and a ban of twenty for the third. -/
def ZoneConf.third : ZoneConf := { ZoneConf.small with
  threshold := 3, threshold_pos := by decide, threshold_le := by decide }

/-- A preview after one event in the empty zone, with a clock that has run on. -/
theorem peek_foretells_once :
    let s := run (opStep .unbalanced .third) .empty
      [.request (.call (.record (.repeated 7) 100 fun _ => some 4096))]
    opStep .unbalanced .third s (.request (.peek (.repeated 7) 101)) = s ∧
    (∀ slab, (record .unbalanced .third (Digest.repeated 7) 101 slab s).2.rc ≠ .error →
      (Foretells (peek .unbalanced .third (Digest.repeated 7) 101 s)
          (record .unbalanced .third (Digest.repeated 7) 101 slab s).2 ↔
        Foreseeable .unbalanced .third (Digest.repeated 7) 101 s)) ∧
    ∀ t cs, ZoneOk .unbalanced .third t s → 0 ≤ t → Clocked Call.now t cs →
      lastTime Call.now t cs ≤ 101 →
      let s' := run (callStep .unbalanced .third) s cs
      ∀ slab, (record .unbalanced .third (Digest.repeated 7) 101 slab s').2.rc ≠ .error →
        Foretells (peek .unbalanced .third (Digest.repeated 7) 101 s')
          (record .unbalanced .third (Digest.repeated 7) 101 slab s').2 :=
  peek_foretells .unbalanced .third _ (.repeated 7) 101 (by decide)

/-- An event at 100 and one by a worker whose clock is five seconds behind. At 106 the
second is out of the window, behind the first: `peek` counts two events with the new one and
announces no ban, `record` counts three and bans. -/
theorem peek_not_foretelling :
    ¬ ∀ (ops : List Op) (key : Digest) (now : ℤ) (slab : Slab),
      now + ZoneConf.third.block ≤ ZoneConf.third.timeMax →
      let s := run (opStep .unbalanced .third) .empty ops
      (record .unbalanced .third key now slab s).2.rc ≠ .error →
      Foretells (peek .unbalanced .third key now s) (record .unbalanced .third key now slab s).2 := by
  intro h
  have hat := h [.request (.call (.record (.repeated 7) 100 fun _ => some 4096)),
    .request (.call (.record (.repeated 7) 95 fun _ => some 4096))] (.repeated 7) 106
    (fun _ => some 4096) (by decide) (by decide +kernel)
  revert hat
  decide +kernel

end ErrorAbuse
