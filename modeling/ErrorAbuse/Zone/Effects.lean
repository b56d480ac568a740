import ErrorAbuse.Zone.Index

/-!
# What a call can do to a zone

Every call is some housekeeping, in which unblocked nodes leave the zone, followed
by at most one node being written. `Shrinks` says what housekeeping may remove and
why, and `exec_effect` says all that a deciding call can do. The invariants of the
following modules are derived from these two, and do not look into the calls again.
-/

namespace ErrorAbuse

open Lib

variable {core : Core} {conf : ZoneConf} {now : ℤ} {s s' s'' : Shctx} {a : Addr}

/-- Housekeeping at `now`: no node changes, and a node that leaves is unblocked and
either inactive or among the force-evicted keys `lost`. -/
structure Shrinks (core : Core) (conf : ZoneConf) (now : ℤ) (lost : List Key)
    (s s' : Shctx) : Prop where
  indexed : Indexed core s'
  evicted : s'.evicted = lost ++ s.evicted
  mem : s'.mem = s.mem
  blocks : s'.blocks.Sublist s.blocks
  queue : ∀ a ∈ s'.queue, a ∈ s.queue
  gone : ∀ a ∈ s.queue, a ∉ s'.queue → (s.mem a).blockedUntil ≤ now ∧
    (conf.addSaturate (s.mem a).lastSeen conf.inactive ≤ now ∨ (s.mem a).data ∈ lost)
  held : ∀ k ∈ lost, ∃ a ∈ s.queue, (s.mem a).data = k
  refused : s.refused ≤ s'.refused

namespace Shrinks

theorem refl (h : Indexed core s) : Shrinks core conf now [] s s :=
  ⟨h, rfl, rfl, List.Sublist.refl _, fun _ ha => ha, fun _ ha hn => absurd ha hn, by simp, le_rfl⟩

theorem trans {l l' : List Key} (h : Shrinks core conf now l s s')
    (h' : Shrinks core conf now l' s' s'') : Shrinks core conf now (l' ++ l) s s'' := by
  refine ⟨h'.indexed, by rw [h'.evicted, h.evicted, List.append_assoc], h'.mem.trans h.mem,
    h'.blocks.trans h.blocks, fun a ha => h.queue a (h'.queue a ha), ?_, ?_,
    h.refused.trans h'.refused⟩
  · intro a ha hn
    by_cases hs : a ∈ s'.queue
    · obtain ⟨hb, hr⟩ := h'.gone a hs hn
      rw [h.mem] at hb hr
      exact ⟨hb, hr.imp_right (List.mem_append_left l)⟩
    · obtain ⟨hb, hr⟩ := h.gone a ha hs
      exact ⟨hb, hr.imp_right (List.mem_append_right l')⟩
  · intro k hk
    rcases List.mem_append.mp hk with hk | hk
    · obtain ⟨a, ha, hd⟩ := h'.held k hk
      exact ⟨a, h.queue a ha, by rw [← h.mem, hd]⟩
    · exact h.held k hk

theorem touch (h : Indexed core s) (ha : a ∈ s.queue) :
    Shrinks core conf now [] s (touch s a) := by
  have hmem : ∀ b, b ∈ (ErrorAbuse.touch s a).queue ↔ b ∈ s.queue := fun b =>
    (List.perm_cons_erase ha).symm.mem_iff
  exact ⟨h.touch ha, rfl, rfl, List.Sublist.refl _, fun b hb => (hmem b).mp hb,
    fun b hb hn => absurd ((hmem b).mpr hb) hn, by simp, le_rfl⟩

/-- Being turned down by the allocator. -/
theorem refuse {lost : List Key} (h : Shrinks core conf now lost s s') :
    Shrinks core conf now lost s (refuse s') :=
  { h with indexed := h.indexed.refuse, refused := h.refused.trans (Nat.le_succ _) }

/-- Deleting an unblocked node, logged or not. -/
theorem delete (h : Indexed core s) (ha : a ∈ s.queue) (hb : (s.mem a).blockedUntil ≤ now)
    {lost : List Key} (hr : conf.addSaturate (s.mem a).lastSeen conf.inactive ≤ now ∨
      (s.mem a).data ∈ lost) (hk : ∀ k ∈ lost, k = (s.mem a).data) :
    Shrinks core conf now lost s { delete core s a with evicted := lost ++ s.evicted } := by
  have hd : Indexed core (ErrorAbuse.delete core s a) := h.delete ha
  refine ⟨⟨hd.nodup, hd.perm, hd.ordered, hd.hashed, hd.live⟩, rfl, rfl, List.filter_sublist,
    fun b hb => List.mem_of_mem_erase hb, ?_, fun k h => ⟨a, ha, (hk k h).symm⟩, le_rfl⟩
  intro b hbq hn
  obtain rfl : b = a := by
    by_contra hba
    exact hn ((List.mem_erase_of_ne hba).mpr hbq)
  exact ⟨hb, hr⟩

/-- A key's node survives, or has left for one of the two reasons. -/
theorem nodeOf {lost : List Key} (h : Shrinks core conf now lost s s') (hs : Indexed core s)
    (key : Key) : nodeOf core s' key = nodeOf core s key ∨
      (nodeOf core s' key = none ∧ ∃ n, nodeOf core s key = some n ∧ n.blockedUntil ≤ now ∧
        (conf.addSaturate n.lastSeen conf.inactive ≤ now ∨ key ∈ lost)) := by
  cases hn : ErrorAbuse.nodeOf core s key with
  | none =>
      left
      rw [h.indexed.nodeOf_eq_none_iff]
      intro a ha
      rw [h.mem]
      exact (hs.nodeOf_eq_none_iff.mp hn) a (h.queue a ha)
  | some n =>
      obtain ⟨a, ha, rfl, rfl⟩ := hs.nodeOf_eq_some_iff.mp hn
      by_cases ha' : a ∈ s'.queue
      · left
        rw [h.indexed.nodeOf_mem ha' (by rw [h.mem]), h.mem]
      · right
        refine ⟨h.indexed.nodeOf_eq_none_iff.mpr ?_, _, rfl, h.gone a ha ha'⟩
        intro b hb hd
        rw [h.mem] at hd
        obtain rfl := hs.eq_of_data_eq (h.queue b hb) ha hd
        exact ha' hb

theorem nodeOf_some {lost : List Key} (h : Shrinks core conf now lost s s')
    (hs : Indexed core s) {key : Key} {n : Node} (hn : ErrorAbuse.nodeOf core s' key = some n) :
    ErrorAbuse.nodeOf core s key = some n := by
  rcases h.nodeOf hs key with he | ⟨he, -⟩
  · rwa [← he]
  · rw [he] at hn; cases hn

end Shrinks

/-! ## Expiry and forced eviction -/

theorem expire_shrinks (conf : ZoneConf) (now : ℤ) (h : Indexed core s) (limit : ℕ) :
    Shrinks core conf now [] s (expire core conf now limit s) := by
  induction limit generalizing s with
  | zero => exact .refl h
  | succ limit ih =>
      rw [expire]
      split
      · exact .refl h
      · rename_i q hq
        have hqm : q ∈ s.queue := List.mem_of_getLast? hq
        split_ifs with hc
        · exact .refl h
        · simp only [not_or, not_lt] at hc
          have hd : Shrinks core conf now [] s (delete core s q) :=
            .delete h hqm hc.1 (.inl hc.2) (by simp)
          exact hd.trans (ih hd.indexed)

theorem queuePrev_mem {l : List Addr} {q p : Addr} (h : queuePrev l q = some p) : p ∈ l := by
  induction l with
  | nil => simp [queuePrev] at h
  | cons x l ih =>
      cases l with
      | nil => simp [queuePrev] at h
      | cons y l =>
          rw [queuePrev] at h
          split_ifs at h with hy
          · cases h; exact List.mem_cons_self
          · exact List.mem_cons_of_mem x (ih h)

/-- The scan removes nothing when it fails and one node when it succeeds. -/
theorem evictScan_shrinks (conf : ZoneConf) (now : ℤ) (stop : Option Addr) (limit : ℕ)
    {q : Option Addr} (h : Indexed core s) (hq : ∀ a, q = some a → a ∈ s.queue) :
    ∃ lost, Shrinks core conf now lost s (evictScan core now stop limit q s).1 ∧
      (evictScan core now stop limit q s).1.queue.length +
        (evictScan core now stop limit q s).2.toNat = s.queue.length := by
  induction limit generalizing q s with
  | zero => exact ⟨[], .refl h, rfl⟩
  | succ limit ih =>
      cases q with
      | none => exact ⟨[], .refl h, rfl⟩
      | some q =>
          have hqm : q ∈ s.queue := hq q rfl
          have hperm : (touch s q).queue.Perm s.queue := (List.perm_cons_erase hqm).symm
          simp only [evictScan]
          split_ifs with hb hs
          · refine ⟨[(s.mem q).data], Shrinks.delete h hqm hb (.inr (by simp)) (by simp), ?_⟩
            have := List.length_pos_of_mem hqm
            simp only [delete, List.length_erase_of_mem hqm, Bool.toNat_true]
            omega
          · exact ⟨[], .touch h hqm, hperm.length_eq⟩
          · have ht : Shrinks core conf now [] s (touch s q) := .touch h hqm
            obtain ⟨lost, hl, hlen⟩ := ih (q := queuePrev s.queue q) ht.indexed
              (fun a ha => hperm.mem_iff.mpr (queuePrev_mem ha))
            refine ⟨lost, ?_, hlen.trans hperm.length_eq⟩
            simpa using ht.trans hl

theorem evictOneUnblocked_shrinks (conf : ZoneConf) (now : ℤ) (h : Indexed core s) :
    ∃ lost, Shrinks core conf now lost s (evictOneUnblocked core now s).1 ∧
      (evictOneUnblocked core now s).1.queue.length +
        (evictOneUnblocked core now s).2.toNat = s.queue.length :=
  evictScan_shrinks conf now _ _ h fun _ ha => List.mem_of_getLast? ha

/-! ## Allocation -/

/-- How the search for a block ends in the state it has led to. -/
inductive Room (conf : ZoneConf) (size : ℕ) (s : Shctx) : Shctx × Option Addr → Prop
  | failed : Room conf size s (s, none)
  | granted (a : Addr) : FreeBlock conf s size a →
      Room conf size s ({ s with blocks := ⟨a, size⟩ :: s.blocks }, some a)

/-- One request: refused, or granted on the spot. -/
theorem slabAllocLocked_cases (conf : ZoneConf) (size : ℕ) (answer : Option Addr) (s : Shctx) :
    slabAllocLocked conf size answer s = (refuse s, none) ∨
      ∃ a, FreeBlock conf s size a ∧
        slabAllocLocked conf size answer s = ({ s with blocks := ⟨a, size⟩ :: s.blocks }, some a) := by
  cases answer with
  | none => exact .inl rfl
  | some a =>
      rw [slabAllocLocked]
      split_ifs with hf
      · exact .inr ⟨a, hf, rfl⟩
      · exact .inl rfl

theorem evictLoop_room (conf : ZoneConf) (size : ℕ) (now : ℤ) (slab : Slab) (fuel i : ℕ)
    (h : Indexed core s) :
    ∃ lost s₁, Shrinks core conf now lost s s₁ ∧
      Room conf size s₁ (evictLoop core conf size now slab fuel i s) := by
  induction fuel generalizing i s with
  | zero => exact ⟨[], s, .refl h, .failed⟩
  | succ fuel ih =>
      obtain ⟨lost, hl, -⟩ := evictOneUnblocked_shrinks conf now h
      rw [evictLoop]
      generalize evictOneUnblocked core now s = e at hl
      obtain ⟨s₁, _ | _⟩ := e
      · exact ⟨lost, s₁, hl, .failed⟩
      · rcases slabAllocLocked_cases conf size (slab i) s₁ with hr | ⟨a, hf, hr⟩
        · obtain ⟨lost', s₂, hl', hr'⟩ := ih (i + 1) hl.indexed.refuse
          simp only [hr]
          exact ⟨lost' ++ lost, s₂, (hl.refuse).trans hl', hr'⟩
        · simp only [hr]
          exact ⟨lost, s₁, hl, .granted a hf⟩

/-- With more fuel than nodes the force-evict loop has run to its end: fuel is not
what stops it. -/
theorem evictLoop_fuel {size : ℕ} (slab : Slab) {fuel : ℕ} (i : ℕ) (h : Indexed core s)
    (hfuel : s.queue.length < fuel) :
    evictLoop core conf size now slab fuel i s =
      evictLoop core conf size now slab (fuel + 1) i s := by
  induction fuel generalizing i s with
  | zero => omega
  | succ fuel ih =>
      obtain ⟨lost, hl, hlen⟩ := evictOneUnblocked_shrinks conf now h
      rw [evictLoop, evictLoop]
      generalize evictOneUnblocked core now s = e at hl hlen
      obtain ⟨s₁, _ | _⟩ := e
      · rfl
      · rcases slabAllocLocked_cases conf size (slab i) s₁ with hr | ⟨a, hf, hr⟩
        · simp only [hr]
          simp only [Bool.toNat_true] at hlen
          exact ih (i + 1) hl.indexed.refuse (by simp only [refuse]; omega)
        · simp only [hr]

/-- Making room: nothing if the first request is granted, else housekeeping and at least
one refusal. -/
theorem makeRoom_room (conf : ZoneConf) (size : ℕ) (now : ℤ) (slab : Slab) (h : Indexed core s) :
    ∃ lost s₁, Shrinks core conf now lost s s₁ ∧
      (s₁ = s ∧ lost = [] ∧ (makeRoom core conf size now slab s).2.isSome = true ∨
        s.refused < s₁.refused) ∧
      Room conf size s₁ (makeRoom core conf size now slab s) := by
  rw [makeRoom]
  rcases slabAllocLocked_cases conf size (slab 0) s with hr | ⟨a, hf, hr⟩
  · simp only [hr]
    have hrefuse : Shrinks core conf now [] s (refuse s) := (Shrinks.refl h).refuse
    have he := expire_shrinks conf now hrefuse.indexed 64
    rcases slabAllocLocked_cases conf size (slab 1) (expire core conf now 64 (refuse s)) with
      hr | ⟨a, hf, hr⟩
    · simp only [hr]
      obtain ⟨lost, s₁, hl, hroom⟩ := evictLoop_room conf size now slab
        ((refuse (expire core conf now 64 (refuse s))).queue.length + 1) 2 he.indexed.refuse
      refine ⟨lost ++ ([] ++ []), s₁, (hrefuse.trans he).refuse.trans hl, .inr ?_, hroom⟩
      exact lt_of_lt_of_le (Nat.lt_succ_self _) (he.refuse.refused.trans hl.refused)
    · simp only [hr]
      exact ⟨[] ++ [], _, hrefuse.trans he, .inr he.refused, .granted a hf⟩
  · simp only [hr]
    exact ⟨[], s, .refl h, .inl ⟨rfl, rfl, rfl⟩, .granted a hf⟩

/-- How `createNode` ends after its housekeeping has led to `s₁`. -/
inductive Created (core : Core) (conf : ZoneConf) (now : ℤ) (slab : Slab) (key : Digest)
    (s s₁ : Shctx) : Prop
  | failed : createNode core conf (core.crc32Short key) key now slab s = (s₁, none) →
      s.refused < s₁.refused → Created core conf now slab key s s₁
  | linked (a : Addr) : createNode core conf (core.crc32Short key) key now slab s =
        (linkNode core conf (core.crc32Short key) key now a
          { s₁ with blocks := ⟨a, conf.nodeSize digestLen⟩ :: s₁.blocks }, some a) →
      FreeBlock conf s₁ (conf.nodeSize digestLen) a → Created core conf now slab key s s₁

/-- A node is created if there is room for one. -/
theorem createNode_eq (core : Core) (conf : ZoneConf) (hash : UInt32) (key : Digest) (now : ℤ)
    (slab : Slab) (s : Shctx) :
    createNode core conf hash key now slab s =
      let room := makeRoom core conf (conf.nodeSize digestLen) now slab s
      (room.2.elim room.1 fun ean => linkNode core conf hash key now ean room.1, room.2) := by
  have hlen : ¬ key.1.length > digestLen := by
    rw [key.2]
    exact lt_irrefl _
  rw [createNode, if_neg hlen, key.2]
  generalize makeRoom core conf (conf.nodeSize digestLen) now slab s = room
  obtain ⟨s₁, _ | ean⟩ := room
  · rfl
  · rfl

/-- Creating a node for a key that has none. Unless the allocator turns a request down,
nothing else happens to the zone. -/
theorem createNode_effect (conf : ZoneConf) (now : ℤ) (slab : Slab) (h : Indexed core s)
    {key : Digest} (hl : lookup s (core.crc32Short key) key = none) :
    ∃ lost s₁, Shrinks core conf now lost s s₁ ∧ (s₁ = s ∧ lost = [] ∨ s.refused < s₁.refused) ∧
      (key : Key) ∉ lost ∧ nodeOf core s₁ key = none ∧ Created core conf now slab key s s₁ := by
  have hcreate := createNode_eq core conf (core.crc32Short key) key now slab s
  obtain ⟨lost, s₁, hs, hquiet, hr⟩ := makeRoom_room conf (conf.nodeSize digestLen) now slab h
  refine ⟨lost, s₁, hs, hquiet.imp_left fun h => ⟨h.1, h.2.1⟩, ?_, ?_, ?_⟩
  · intro hk
    obtain ⟨a, ha, hd⟩ := hs.held key hk
    exact (h.lookup_eq_none_iff.mp hl) a ha hd
  · cases hn : nodeOf core s₁ key with
    | none => rfl
    | some n => simpa [nodeOf, hl] using hs.nodeOf_some h hn
  · generalize makeRoom core conf (conf.nodeSize digestLen) now slab s = r at hr hcreate hquiet
    cases hr with
    | failed => exact .failed hcreate (hquiet.resolve_left fun h => by simp at h)
    | granted a hf => exact .linked a hcreate hf

/-! ## Deciding calls -/

namespace Call

/-- The part of a call that works on the node of its key. -/
def onNode (conf : ZoneConf) : Call → Node → Node × Verdict
  | record _ now _, ean => recordNode conf ean now
  | isBlocked _ now, ean => isBlockedNode conf ean now

def isRecord : Call → Bool
  | record .. => true
  | isBlocked .. => false

/-- The node a call works on: the one found, refreshed, or for `record` a new one. -/
inductive Subject (core : Core) (conf : ZoneConf) (c : Call) (s : Shctx) : Node → Prop
  | found (n : Node) : nodeOf core s c.key = some n → Subject core conf c s
      { n with lastSeen := c.now }
  | created : c.isRecord = true → nodeOf core s c.key = none → Subject core conf c s
      (freshNode conf (core.crc32Short c.key) c.key c.now)

/-- Everything a call can do after its housekeeping, and what it then reports. -/
inductive Effect (core : Core) (conf : ZoneConf) (c : Call) (s : Shctx) : Shctx × Verdict → Prop
  | absent : c.isRecord = false → nodeOf core s c.key = none →
      Effect core conf c s (s, ⟨.declined, some (0, 0)⟩)
  | full : c.isRecord = true → nodeOf core s c.key = none →
      Effect core conf c s (s, ⟨.error, none⟩)
  | wrote (n : Node) (s' : Shctx) : Subject core conf c s n → Indexed core s' →
      s'.evicted = s.evicted → s'.refused = s.refused →
      (s'.blocks = s.blocks ∨ ∃ a, FreeBlock conf s (conf.nodeSize digestLen) a ∧
        s'.blocks = ⟨a, conf.nodeSize digestLen⟩ :: s.blocks) →
      (∀ k, nodeOf core s' k = if k = c.key then some (c.onNode conf n).1 else nodeOf core s k) →
      Effect core conf c s (s', (c.onNode conf n).2)

/-- The allocator turns down no request of the call. -/
def NoFailure (core : Core) (conf : ZoneConf) (s : Shctx) (c : Call) : Prop :=
  (c.exec core conf s).1.refused = s.refused

end Call

/-- No call changes the identity of a node. -/
theorem Call.onNode_key_data (conf : ZoneConf) (c : Call) (n : Node) :
    (c.onNode conf n).1.key = n.key ∧ (c.onNode conf n).1.data = n.data := by
  cases c with
  | record key now slab =>
      simp only [onNode, recordNode_eq]
      split_ifs <;> exact ⟨rfl, rfl⟩
  | isBlocked key now =>
      simp only [onNode, isBlockedNode_eq]
      split_ifs <;> exact ⟨rfl, rfl⟩

/-- The shared prologue: housekeeping, then a refreshed node or none. -/
theorem findTouchLocked_eq (hash : UInt32) (key : Key) (s : Shctx) :
    findTouchLocked core conf hash key now s =
      match lookup (expire core conf now 2 s) hash key with
      | none => (expire core conf now 2 s, none)
      | some ean => (touch (setNode (expire core conf now 2 s) ean
          { (expire core conf now 2 s).mem ean with lastSeen := now }) ean, some ean) := rfl

/-- Writing back the node found: the state after a hit. -/
private theorem hit_effect (conf : ZoneConf) (h : Indexed core s) (c : Call)
    (hl : lookup s (core.crc32Short c.key) c.key = some a) :
    let s' := touch (setNode s a { s.mem a with lastSeen := c.now }) a
    c.Effect core conf s (setNode s' a (c.onNode conf (s'.mem a)).1,
      (c.onNode conf (s'.mem a)).2) := by
  intro s'
  obtain ⟨ha, hd⟩ := h.lookup_eq_some_iff.mp hl
  let n : Node := { s.mem a with lastSeen := c.now }
  have hmem : s'.mem a = n := Function.update_self ..
  obtain ⟨hk', hd'⟩ := c.onNode_key_data conf n
  have hsame : setNode s' a (c.onNode conf n).1 = touch (setNode s a (c.onNode conf n).1) a := by
    simp [s', setNode, touch]
  rw [hmem, hsame]
  refine .wrote n _ (.found _ (h.nodeOf_mem ha hd)) ((h.setNode hk' hd').touch ha) rfl rfl
    (.inl rfl) ?_
  intro k
  rw [nodeOf_touch, h.nodeOf_setNode ha hk' hd']
  have hdk : (c.onNode conf n).1.data = c.key := hd'.trans hd
  by_cases hkey : k = c.key
  · rw [if_pos (hdk.trans hkey.symm), if_pos hkey]
  · rw [if_neg (by rw [hdk]; exact fun e => hkey e.symm), if_neg hkey]

/-- Writing the node just created. -/
private theorem created_effect (h : Indexed core s) (c : Call) (hc : c.isRecord = true)
    (hn : nodeOf core s c.key = none) (hf : FreeBlock conf s (conf.nodeSize digestLen) a) :
    let s' := linkNode core conf (core.crc32Short c.key) c.key c.now a
      { s with blocks := ⟨a, conf.nodeSize digestLen⟩ :: s.blocks }
    c.Effect core conf s (setNode s' a (c.onNode conf (s'.mem a)).1,
      (c.onNode conf (s'.mem a)).2) := by
  intro s'
  have hmem : s'.mem a = freshNode conf (core.crc32Short c.key) c.key c.now :=
    Function.update_self ..
  have hs' : Indexed core s' := h.linkNode hf hn c.now
  obtain ⟨hk', hd'⟩ := c.onNode_key_data conf (s'.mem a)
  refine .wrote (s'.mem a) _ (hmem ▸ .created hc hn) (hs'.setNode hk' hd') rfl rfl
    (.inr ⟨a, hf, rfl⟩) ?_
  intro k
  have hdk : (c.onNode conf (s'.mem a)).1.data = c.key := by rw [hd', hmem]; rfl
  rw [hs'.nodeOf_setNode List.mem_cons_self hk' hd', hdk, h.nodeOf_linkNode hf hn]
  by_cases hkey : k = c.key
  · rw [if_pos hkey.symm, if_pos hkey]
  · rw [if_neg fun e => hkey e.symm, if_neg hkey, if_neg hkey]

/-- The node part of a call always reports a decision. -/
theorem Call.onNode_rc_ne_error (conf : ZoneConf) (c : Call) (n : Node) :
    (c.onNode conf n).2.rc ≠ .error := by
  cases c with
  | record key now slab =>
      simp only [onNode, recordNode_eq]
      split_ifs <;> simp
  | isBlocked key now =>
      simp only [onNode, isBlockedNode_eq]
      split_ifs <;> simp

/-- `record` without a node of the key creates one. -/
theorem record_eq_of_lookup (conf : ZoneConf) {key : Digest} (slab : Slab)
    (hl : lookup (expire core conf now 2 s) (core.crc32Short key) key = none) :
    record core conf key now slab s =
      let created := createNode core conf (core.crc32Short key) key now slab (expire core conf now 2 s)
      created.2.elim (created.1, ⟨.error, none⟩) fun ean => recordAt conf ean now created.1 := by
  simp only [record_eq, findTouchLocked_eq, hl]
  generalize createNode core conf (core.crc32Short key) key now slab (expire core conf now 2 s) =
    created
  obtain ⟨s₁, _ | ean⟩ := created
  · rfl
  · rfl

/-- `record` on a key without a node: more housekeeping, then a new node or an error. -/
private theorem record_miss_effect (conf : ZoneConf) (h : Indexed core s) {key : Digest}
    {slab : Slab} (hl : lookup (expire core conf now 2 s) (core.crc32Short key) key = none) :
    let c : Call := .record key now slab
    ∃ lost s₁, Shrinks core conf now lost s s₁ ∧ (key : Key) ∉ lost ∧
      c.Effect core conf s₁ (c.exec core conf s) ∧
      (c.NoFailure core conf s → lost = [] ∧ (c.exec core conf s).2.rc ≠ .error) := by
  intro c
  have he := expire_shrinks conf now h 2
  obtain ⟨lost, s₁, hs, hquiet, hkey, hn, hcreate⟩ := createNode_effect conf now slab he.indexed hl
  have hexec := record_eq_of_lookup conf slab hl
  have hrefused : s₁.refused = s.refused → lost = [] := fun hr =>
    (hquiet.resolve_right fun hlt => absurd (he.refused.trans_lt hlt) (by omega)).2
  refine ⟨lost ++ [], s₁, he.trans hs, by simpa using hkey, ?_⟩
  rw [Call.NoFailure, show c.exec core conf s = record core conf key now slab s from rfl, hexec]
  cases hcreate with
  | failed hcr hlt =>
      rw [hcr]
      exact ⟨.full rfl hn, fun hr => absurd (he.refused.trans_lt hlt) (hr.symm ▸ lt_irrefl _)⟩
  | linked a hcr hf =>
      rw [hcr]
      exact ⟨created_effect hs.indexed c rfl hn hf, fun hr =>
        ⟨by rw [hrefused hr]; rfl, Call.onNode_rc_ne_error conf c _⟩⟩

/-- **What a call does.** Housekeeping at the call's own time, then one of the three
effects. A call none of whose requests fails evicts nothing and never reports an
error. -/
theorem exec_effect (conf : ZoneConf) (h : Indexed core s) (c : Call) :
    ∃ lost s₁, Shrinks core conf c.now lost s s₁ ∧ (c.key : Key) ∉ lost ∧
      c.Effect core conf s₁ (c.exec core conf s) ∧
      (c.NoFailure core conf s → lost = [] ∧ (c.exec core conf s).2.rc ≠ .error) := by
  have he := expire_shrinks conf c.now h 2
  cases hl : lookup (expire core conf c.now 2 s) (core.crc32Short c.key) c.key with
  | some a =>
      have hhit := hit_effect conf he.indexed c hl
      refine ⟨[], _, he, List.not_mem_nil, ?_⟩
      cases c with
      | record key now slab =>
          simp only [Call.key, Call.now] at hl hhit ⊢
          rw [Call.exec, record_eq, findTouchLocked_eq, hl]
          exact ⟨hhit, fun _ => ⟨trivial, Call.onNode_rc_ne_error conf (.record key now slab) _⟩⟩
      | isBlocked key now =>
          simp only [Call.key, Call.now] at hl hhit ⊢
          rw [Call.exec, isBlocked_eq, findTouchLocked_eq, hl]
          exact ⟨hhit, fun _ => ⟨trivial, Call.onNode_rc_ne_error conf (.isBlocked key now) _⟩⟩
  | none =>
      have hn : nodeOf core (expire core conf c.now 2 s) c.key = none := by simp [nodeOf, hl]
      cases c with
      | isBlocked key now =>
          refine ⟨[], _, he, List.not_mem_nil, ?_⟩
          simp only [Call.key, Call.now] at hl hn ⊢
          rw [Call.exec, isBlocked_eq, findTouchLocked_eq, hl]
          exact ⟨.absent rfl hn, fun _ => ⟨trivial, by simp⟩⟩
      | record key now slab => exact record_miss_effect conf h hl

theorem callStep_indexed (conf : ZoneConf) (h : Indexed core s) (c : Call) :
    Indexed core (callStep core conf s c) := by
  obtain ⟨lost, s₁, hs, -, heff, -⟩ := exec_effect conf h c
  rw [callStep]
  generalize c.exec core conf s = r at heff
  cases heff with
  | absent _ _ => exact hs.indexed
  | full _ _ => exact hs.indexed
  | wrote n s' _ hi _ _ _ _ => exact hi

/-- The count of refusals never falls. -/
theorem exec_refused_le (conf : ZoneConf) (h : Indexed core s) (c : Call) :
    s.refused ≤ (c.exec core conf s).1.refused := by
  obtain ⟨lost, s₁, hs, -, heff, -⟩ := exec_effect conf h c
  generalize c.exec core conf s = r at heff
  cases heff with
  | absent _ _ => exact hs.refused
  | full _ _ => exact hs.refused
  | wrote n s' _ _ _ hr _ _ => exact hr ▸ hs.refused

/-! ## A zone with room -/

/-- Nodes that are all recent are left alone. -/
theorem expire_recent (core : Core) (limit : ℕ)
    (h : ∀ a ∈ s.queue, now < conf.addSaturate (s.mem a).lastSeen conf.inactive) :
    expire core conf now limit s = s := by
  cases limit with
  | zero => rfl
  | succ limit =>
      rw [expire]
      split
      · rfl
      · rename_i q hq
        exact if_pos (.inr (h q (List.mem_of_getLast? hq)))

/-- Recording a new key in a zone of recent nodes, with a block at the first request. -/
theorem record_new (key : Digest) (slab : Slab)
    (h : ∀ a ∈ s.queue, now < conf.addSaturate (s.mem a).lastSeen conf.inactive)
    (hl : lookup s (core.crc32Short key) key = none) (hslab : slab 0 = some a)
    (hfree : FreeBlock conf s (conf.nodeSize digestLen) a) :
    record core conf key now slab s = recordAt conf a now
      (linkNode core conf (core.crc32Short key) key now a
        { s with blocks := ⟨a, conf.nodeSize digestLen⟩ :: s.blocks }) := by
  have hfind : findTouchLocked core conf (core.crc32Short key) key now s = (s, none) := by
    rw [findTouchLocked_eq, expire_recent core 2 h, hl]
  have hroom : makeRoom core conf (conf.nodeSize digestLen) now slab s =
      ({ s with blocks := ⟨a, conf.nodeSize digestLen⟩ :: s.blocks }, some a) := by
    rw [makeRoom, hslab, slabAllocLocked, if_pos hfree]
  simp only [record_eq, hfind, createNode, key.2, hroom, lt_irrefl, if_false]

end ErrorAbuse
