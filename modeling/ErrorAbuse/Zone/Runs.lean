import ErrorAbuse.Lib.Run
import ErrorAbuse.Snapshot.Restore
import ErrorAbuse.Zone.Standing

/-!
# Whole runs of a zone

`Op` lists everything that works on a zone: requests, the loading of a snapshot, and
expiry and forced eviction on their own. The states a run from the empty zone can reach
have a consistent index, and a ban in one of them outlives any requests made before
its deadline, whatever else the zone has to give up for them.
-/

namespace ErrorAbuse

open Lib Lib.Limiter

variable {core : Core} {conf : ZoneConf} {s s' : Shctx}

/-- What a request asks of a zone. -/
inductive Request
  | call (c : Call)
  | peek (key : Digest) (now : ℤ)

/-- The clock reading of a request. -/
def Request.now : Request → ℤ
  | call c => c.now
  | peek _ now => now

def requestStep (core : Core) (conf : ZoneConf) (s : Shctx) : Request → Shctx
  | .call c => callStep core conf s c
  | .peek _ _ => s

/-- Everything that works on a zone. -/
inductive Op
  | request (r : Request)
  | load (now : ℤ) (slabs : ℕ → Slab) (disk : Disk)
  | expire (now : ℤ) (limit : ℕ)
  | evict (now : ℤ)

def opStep (core : Core) (conf : ZoneConf) (s : Shctx) : Op → Shctx
  | .request r => requestStep core conf s r
  | .load now slabs disk => ((load core conf now slabs disk s).map (Loaded.zone s)).getD s
  | .expire now limit => ErrorAbuse.expire core conf now limit s
  | .evict now => (evictOneUnblocked core now s).1

/-! ## The index -/

theorem requestStep_indexed (h : Indexed core s) (r : Request) :
    Indexed core (requestStep core conf s r) := by
  cases r with
  | call c => exact callStep_indexed conf h c
  | peek key now => exact h

theorem load_indexed (h : Indexed core s) (now : ℤ) (slabs : ℕ → Slab) (disk : Disk) :
    Indexed core (((load core conf now slabs disk s).map (Loaded.zone s)).getD s) := by
  obtain ⟨r, hr, heff⟩ := load_effect core conf now slabs disk s
  rw [hr, Option.map_some, Option.getD_some]
  cases heff with
  | rejected why => exact h
  | noBuffer => exact h
  | accepted rs w e hall =>
      have hi : Indexed core (restoreAll core conf now slabs rs s []).1 :=
        restoreAll_indexed slabs rs h
      rwa [hall] at hi

theorem opStep_indexed (h : Indexed core s) (op : Op) : Indexed core (opStep core conf s op) := by
  cases op with
  | request r => exact requestStep_indexed h r
  | load now slabs disk => exact load_indexed h now slabs disk
  | expire now limit => exact (expire_shrinks conf now h limit).indexed
  | evict now =>
      obtain ⟨lost, hs, -⟩ := evictOneUnblocked_shrinks conf now h
      exact hs.indexed

theorem reachable_indexed (core : Core) (conf : ZoneConf) (ops : List Op) :
    Indexed core (run (opStep core conf) .empty ops) :=
  run_invariant (Indexed core) (fun _ => True) (fun _ op h _ => opStep_indexed h op)
    (indexed_empty core) fun _ _ => trivial

/-- **Index consistency.** In every reachable state the tree and the queue hold the same
nodes, each once, no two of them with the same key; the tree is sorted by the checksum of
the key and then by its bytes; and lookup finds the node that holds a key, or none if
there is none. -/
theorem index_consistent (core : Core) (conf : ZoneConf) (ops : List Op) :
    let s := run (opStep core conf) .empty ops
    let crc := fun a => core.crc32Short (s.mem a).data
    s.queue.Nodup ∧ s.rbtree.inorder.Nodup ∧ (∀ a, a ∈ s.rbtree.inorder ↔ a ∈ s.queue) ∧
    (∀ a ∈ s.queue, ∀ b ∈ s.queue, (s.mem a).data = (s.mem b).data → a = b) ∧
    (s.rbtree.inorder.Pairwise fun a b =>
      crc a < crc b ∨ crc a = crc b ∧ memn2cmp (s.mem a).data (s.mem b).data < 0) ∧
    ∀ key : Key,
      (∀ a, lookup s (core.crc32Short key) key = some a ↔ a ∈ s.queue ∧ (s.mem a).data = key) ∧
      (lookup s (core.crc32Short key) key = none ↔ ∀ a ∈ s.queue, (s.mem a).data ≠ key) := by
  intro s crc
  have h : Indexed core s := reachable_indexed core conf ops
  refine ⟨h.nodup, h.perm.nodup_iff.mpr h.nodup, fun a => h.mem_inorder,
    fun a ha b hb => h.eq_of_data_eq ha hb, ?_,
    fun key => ⟨fun a => h.lookup_eq_some_iff, h.lookup_eq_none_iff⟩⟩
  refine h.ordered.imp_of_mem fun {a b} ha hb hab => ?_
  rw [nodeKey, nodeKey, keyCmp_eq_lt_iff, h.hashed a (h.mem_inorder.mp ha),
    h.hashed b (h.mem_inorder.mp hb)] at hab
  exact hab

/-! ## Properties of nodes -/

/-- Every node of the zone has the property. -/
def EveryNode (core : Core) (P : Node → Prop) (s : Shctx) : Prop :=
  ∀ key n, nodeOf core s key = some n → P n

/-- A property that a new node has and that no call and no restored record takes away. -/
structure NodeInvariant (core : Core) (conf : ZoneConf) (P : Node → Prop) : Prop where
  fresh : ∀ (key : Digest) now, P (freshNode conf (core.crc32Short key) key now)
  onNode : ∀ (c : Call) n, P n → P (c.onNode conf { n with lastSeen := c.now }).1
  toNode : ∀ (r : SnapRecord conf.threshold) now n, P n → P (r.toNode conf now n)

variable {P : Node → Prop}

theorem everyNode_empty (core : Core) (P : Node → Prop) : EveryNode core P .empty := by
  intro key n hn
  simp [nodeOf, lookup, Shctx.empty, lookupFrom] at hn

theorem EveryNode.of_mem (hz : EveryNode core P s) (h : Indexed core s) {a : Addr}
    (ha : a ∈ s.queue) : P (s.mem a) :=
  hz _ _ (h.nodeOf_mem ha rfl)

theorem EveryNode.shrinks {lost : List Key} {now : ℤ} (hz : EveryNode core P s)
    (h : Indexed core s) (hs : Shrinks core conf now lost s s') : EveryNode core P s' :=
  fun key n hn => hz key n (hs.nodeOf_some h hn)

theorem callStep_everyNode (hP : NodeInvariant core conf P) (h : Indexed core s)
    (hz : EveryNode core P s) (c : Call) : EveryNode core P (callStep core conf s c) := by
  obtain ⟨lost, s₁, hs, -, heff, -⟩ := exec_effect conf h c
  have hz₁ : EveryNode core P s₁ := hz.shrinks h hs
  rw [callStep]
  generalize c.exec core conf s = r at heff
  cases heff with
  | absent _ _ => exact hz₁
  | full _ _ => exact hz₁
  | wrote m s' hsub _ _ _ _ hnode =>
      intro key n hn
      rw [hnode] at hn
      split_ifs at hn
      · obtain rfl := Option.some.inj hn
        cases hsub with
        | found m hm => exact hP.onNode c m (hz₁ _ m hm)
        | created _ _ => exact hP.onNode c _ (hP.fresh c.key c.now)
      · exact hz₁ key n hn

/-- What restoring a record finds or creates has the property, and so has what it writes. -/
theorem Restored.everyNode {now : ℤ} {r : SnapRecord conf.threshold} {s₁ : Shctx} {a : Addr}
    {n : Node} (hr : Restored core conf now r s s₁ s' a n) (hP : NodeInvariant core conf P)
    (h : Indexed core s) (hz : EveryNode core P s) : P n ∧ EveryNode core P s' := by
  obtain ⟨lost, hs⟩ := hr.room
  have hz₁ : EveryNode core P s₁ := hz.shrinks h hs
  have hn : P n := by
    rcases hr.subject with hn | ⟨-, rfl⟩
    · exact hz₁ _ _ hn
    · exact hP.fresh r.key now
  refine ⟨hn, fun key m hm => ?_⟩
  rw [hr.nodeOf] at hm
  split_ifs at hm
  · obtain rfl := Option.some.inj hm
    exact hP.toNode r now n hn
  · exact hz₁ key m hm

theorem restoreAll_everyNode (hP : NodeInvariant core conf P) (now : ℤ) (slabs : ℕ → Slab)
    (rs : List (SnapRecord conf.threshold)) (h : Indexed core s) (hz : EveryNode core P s) :
    EveryNode core P (restoreAll core conf now slabs rs s []).1 :=
  (restoreAll_induction (fun s _ => EveryNode core P s) (fun h hs hz => hz.shrinks h hs)
    (fun h hr hz => (hr.everyNode hP h hz).2) slabs rs h hz).2

theorem opStep_everyNode (hP : NodeInvariant core conf P) (h : Indexed core s)
    (hz : EveryNode core P s) (op : Op) : EveryNode core P (opStep core conf s op) := by
  cases op with
  | request r =>
      cases r with
      | call c => exact callStep_everyNode hP h hz c
      | peek key now => exact hz
  | load now slabs disk =>
      obtain ⟨r, hr, heff⟩ := load_effect core conf now slabs disk s
      simp only [opStep, hr, Option.map_some, Option.getD_some]
      cases heff with
      | rejected why => exact hz
      | noBuffer => exact hz
      | accepted rs w e hall =>
          have hall' := restoreAll_everyNode hP now slabs rs h hz
          rwa [hall] at hall'
  | expire now limit => exact hz.shrinks h (expire_shrinks conf now h limit)
  | evict now =>
      obtain ⟨lost, hs, -⟩ := evictOneUnblocked_shrinks conf now h
      exact hz.shrinks h hs

/-- A property of nodes that is kept one node at a time holds of every node of every
reachable state. -/
theorem reachable_everyNode (hP : NodeInvariant core conf P) (ops : List Op) :
    EveryNode core P (run (opStep core conf) .empty ops) :=
  (run_invariant (fun s => Indexed core s ∧ EveryNode core P s) (fun _ => True)
    (fun _ op h _ => ⟨opStep_indexed h.1 op, opStep_everyNode hP h.1 h.2 op⟩)
    ⟨indexed_empty core, everyNode_empty core P⟩ fun _ _ => trivial).2

/-! ## Bans -/

/-- A ban in force answers every call and is left as it is. -/
theorem Call.onNode_of_banned (conf : ZoneConf) (c : Call) {n : Node}
    (hb : n.blockedUntil > c.now) :
    c.onNode conf n = (n, c.verdict conf (.banned n.blockedUntil)) := by
  cases c with
  | record key now slab =>
      simp only [Call.now] at hb
      simp only [onNode, recordNode_eq, if_pos hb]
      rfl
  | isBlocked key now =>
      simp only [Call.now] at hb
      simp only [onNode, isBlockedNode_eq, if_pos hb]
      rfl

/-- One call before the deadline of a ban: the ban stays, and if the call is about the
banned key, it reports the ban. -/
theorem exec_of_banned (h : Indexed core s) (c : Call) {key : Key} {n : Node}
    (hn : nodeOf core s key = some n) (hnow : c.now < n.blockedUntil) :
    (∃ n', nodeOf core (callStep core conf s c) key = some n' ∧
      n'.blockedUntil = n.blockedUntil) ∧
    (c.key = key → (c.exec core conf s).2 = c.verdict conf (.banned n.blockedUntil)) := by
  obtain ⟨lost, s₁, hs, -, heff, -⟩ := exec_effect conf h c
  have hn₁ : nodeOf core s₁ key = some n := by
    rcases hs.nodeOf h key with he | ⟨-, m, hm, hb, -⟩
    · rw [he, hn]
    · obtain rfl : n = m := Option.some.inj (hn.symm.trans hm)
      exact absurd hb (not_le.mpr hnow)
  rw [callStep]
  generalize c.exec core conf s = r at heff
  cases heff with
  | absent _ habs =>
      refine ⟨⟨n, hn₁, rfl⟩, fun hk => ?_⟩
      rw [hk, hn₁] at habs
      cases habs
  | full _ habs =>
      refine ⟨⟨n, hn₁, rfl⟩, fun hk => ?_⟩
      rw [hk, hn₁] at habs
      cases habs
  | wrote m s' hsub _ _ _ _ hnode =>
      by_cases hk : key = c.key
      · subst hk
        cases hsub with
        | found m hm =>
            obtain rfl : n = m := Option.some.inj (hn₁.symm.trans hm)
            have hon := c.onNode_of_banned conf (n := { n with lastSeen := c.now }) hnow
            refine ⟨⟨{ n with lastSeen := c.now }, ?_, rfl⟩, fun _ => by rw [hon]⟩
            rw [hnode, if_pos rfl, hon]
        | created _ hm =>
            rw [hn₁] at hm
            cases hm
      · refine ⟨⟨n, ?_, rfl⟩, fun hk' => absurd hk'.symm hk⟩
        rw [hnode, if_neg hk, hn₁]

/-- A zone in which `key` is banned until `d`. -/
def BannedUntil (core : Core) (d : ℤ) (key : Digest) (s : Shctx) : Prop :=
  Indexed core s ∧ ∃ n, nodeOf core s key = some n ∧ n.blockedUntil = d

theorem requestStep_banned {key : Digest} {d : ℤ} (h : BannedUntil core d key s) (r : Request)
    (hnow : r.now < d) : BannedUntil core d key (requestStep core conf s r) := by
  obtain ⟨hi, n, hn, rfl⟩ := h
  cases r with
  | call c => exact ⟨callStep_indexed conf hi c, (exec_of_banned hi c hn hnow).1⟩
  | peek key' now => exact ⟨hi, n, hn, rfl⟩

/-- **An active ban is never lost, shortened or extended.** From any reachable state, after
any requests for any keys with readings below the deadline, in any order and however the
allocator answers, the banned key's node is found with the same deadline, and both calls
for that key report it. -/
theorem ban_persists (core : Core) (conf : ZoneConf) (ops : List Op) (key : Digest) (a : Addr)
    (d : ℤ) (hl : lookup (run (opStep core conf) .empty ops) (core.crc32Short key) key = some a)
    (hd : ((run (opStep core conf) .empty ops).mem a).blockedUntil = d)
    (reqs : List Request) (hnow : ∀ r ∈ reqs, r.now < d) :
    let s := run (requestStep core conf) (run (opStep core conf) .empty ops) reqs
    (∃ b, lookup s (core.crc32Short key) key = some b ∧ (s.mem b).blockedUntil = d) ∧
    (∀ now < d, ∀ slab, (record core conf key now slab s).2 = ⟨.busy, some (conf.threshold, d)⟩) ∧
    ∀ now < d, (isBlocked core conf key now s).2 = ⟨.ok, some (conf.threshold, d)⟩ := by
  intro s
  have hstart : BannedUntil core d key (run (opStep core conf) .empty ops) :=
    ⟨reachable_indexed core conf ops, _, by rw [nodeOf, hl]; rfl, hd⟩
  obtain ⟨hi, n, hn, rfl⟩ : BannedUntil core d key s :=
    run_invariant (BannedUntil core d key) (fun r => r.now < d)
      (fun _ r h hr => requestStep_banned h r hr) hstart hnow
  refine ⟨?_, fun now hlt slab => ?_, fun now hlt => ?_⟩
  · obtain ⟨b, hb, rfl⟩ := Option.map_eq_some_iff.mp hn
    exact ⟨b, hb, rfl⟩
  · exact (exec_of_banned hi (.record key now slab) hn hlt).2 rfl
  · exact (exec_of_banned hi (.isBlocked key now) hn hlt).2 rfl

/-- A ban until 22, and a call for another key that finds no memory. -/
theorem ban_persists_full :
    let s := run (requestStep .unbalanced .small) (run (opStep .unbalanced .small) .empty
        [.request (.call (.record (.repeated 7) 1 fun _ => some 4096)),
          .request (.call (.record (.repeated 7) 2 fun _ => none))])
      [.call (.record (.repeated 8) 21 fun _ => none), .peek (.repeated 7) 5]
    (∃ b, lookup s (crc32 (Digest.repeated 7).1) (Digest.repeated 7) = some b ∧
      (s.mem b).blockedUntil = 22) ∧
    (∀ now < 22, ∀ slab,
      (record .unbalanced .small (Digest.repeated 7) now slab s).2 = ⟨.busy, some (2, 22)⟩) ∧
    ∀ now < 22, (isBlocked .unbalanced .small (Digest.repeated 7) now s).2 = ⟨.ok, some (2, 22)⟩ :=
  ban_persists .unbalanced .small _ (.repeated 7) 4096 22 (by decide +kernel) (by decide +kernel) _
    (by decide)

end ErrorAbuse
