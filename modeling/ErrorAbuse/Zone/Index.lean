import ErrorAbuse.Zone.Record

/-!
# The index of a zone

`Indexed` is the invariant that ties the tree, the queue, the node memory and the
slab's live blocks together: one set of nodes, linked once each way, ordered by
checksum and key bytes. Over it the walk `lookup` is exact, collisions included,
so a zone is a finite map from keys to nodes: `nodeOf`.

The primitive updates of a zone keep the invariant, and each has one lemma here
that says what it does to the map.
-/

namespace ErrorAbuse

open Lib

/-! ## The order of the tree -/

theorem memn2cmp_cons (x y : UInt8) (xs ys : List UInt8) :
    memn2cmp (x :: xs) (y :: ys) =
      if x = y then memn2cmp xs ys else (x.toNat : ℤ) - y.toNat := by
  by_cases hxy : x = y
  · by_cases hle : xs.length ≤ ys.length <;> simp [memn2cmp, memcmp, hxy, hle]
  · have hne : (x.toNat : ℤ) - y.toNat ≠ 0 := by
      intro h
      exact hxy (UInt8.toNat_inj.mp (by omega))
    by_cases hle : xs.length ≤ ys.length <;> simp [memn2cmp, memcmp, hxy, hle, hne]

/-- The sign of `memn2cmp` is the lexicographic order of the bytes. -/
theorem memn2cmp_sign (s₁ s₂ : List UInt8) :
    (memn2cmp s₁ s₂ = 0 ↔ compare s₁ s₂ = .eq) ∧ (memn2cmp s₁ s₂ < 0 ↔ compare s₁ s₂ = .lt) := by
  induction s₁ generalizing s₂ with
  | nil =>
      cases s₂ with
      | nil => simp [memn2cmp, memcmp]
      | cons y ys => simp [memn2cmp, memcmp]
  | cons x xs ih =>
      cases s₂ with
      | nil => simp [memn2cmp, memcmp]
      | cons y ys =>
          rw [memn2cmp_cons, List.compare_cons_cons]
          by_cases hxy : x = y
          · subst hxy
            simpa using ih ys
          · rw [if_neg hxy]
            cases hc : compare x y with
            | lt =>
                have := UInt8.lt_iff_toNat_lt.mp (Std.compare_eq_lt.mp hc)
                simp only [Ordering.then, reduceCtorEq, iff_false, iff_true]
                omega
            | eq => exact absurd (Std.compare_eq_iff_eq.mp hc) hxy
            | gt =>
                have := UInt8.lt_iff_toNat_lt.mp (Std.compare_eq_gt.mp hc)
                simp only [Ordering.then, reduceCtorEq, iff_false]
                omega

/-- The order of the tree: checksum first, key bytes second. -/
def keyCmp : UInt32 × Key → UInt32 × Key → Ordering :=
  compareLex (compareOn Prod.fst) (compareOn Prod.snd)

instance : Std.TransCmp keyCmp := by unfold keyCmp; infer_instance

theorem keyCmp_eq_iff {p q : UInt32 × Key} : keyCmp p q = .eq ↔ p = q := by
  simp [keyCmp, compareLex_eq_eq, compareOn, Prod.ext_iff]

/-- What the tree compares of a node. -/
def nodeKey (mem : Addr → Node) (a : Addr) : UInt32 × Key := ((mem a).key, (mem a).data)

theorem keyCmp_eq (h h' : UInt32) (k k' : Key) :
    keyCmp (h, k) (h', k') =
      if h < h' then .lt else if h > h' then .gt
      else if memn2cmp k k' = 0 then .eq
      else if memn2cmp k k' < 0 then .lt else .gt := by
  obtain ⟨hz, hn⟩ := memn2cmp_sign k k'
  change (compare h h').then (compare k k') = _
  cases hc : compare h h' with
  | lt => simp [Std.compare_eq_lt.mp hc]
  | eq =>
      obtain rfl : h = h' := Std.compare_eq_iff_eq.mp hc
      cases hk' : compare k k' <;> simp_all
  | gt =>
      have hgt : h' < h := Std.compare_eq_gt.mp hc
      simp [hgt, UInt32.lt_asymm hgt]

theorem keyCmp_eq_lt_iff {h h' : UInt32} {k k' : Key} :
    keyCmp (h, k) (h', k') = .lt ↔ h < h' ∨ h = h' ∧ memn2cmp k k' < 0 := by
  rw [keyCmp_eq]
  by_cases hlt : h < h'
  · simp [hlt]
  · by_cases hgt : h' < h
    · have hne : h ≠ h' := by rintro rfl; exact hlt hgt
      simp [hlt, hgt, hne]
    · have he : h = h' := UInt32.le_antisymm (UInt32.not_lt.mp hgt) (UInt32.not_lt.mp hlt)
      subst he
      by_cases hz : memn2cmp k k' = 0
      · simp [hz]
      · by_cases hn : memn2cmp k k' < 0 <;> simp [hz, hn]

/-- The module's lookup is three-way search in the order of the tree. -/
theorem lookupFrom_eq_search (mem : Addr → Node) (hash : UInt32) (key : Key) (t : Lib.Tree Addr) :
    lookupFrom mem hash key t = t.search fun a => keyCmp (hash, key) (nodeKey mem a) := by
  induction t with
  | nil => rfl
  | node l a r ihl ihr =>
      have hc : keyCmp (hash, key) (nodeKey mem a) = _ := keyCmp_eq ..
      simp only [lookupFrom, Lib.Tree.search, hc, ihl, ihr]
      split_ifs <;> rfl

/-- The insertion callback hangs the new leaf in the order of the tree. -/
theorem rbtreeInsertAt_eq_insertLeaf (mem : Addr → Node) (node : Addr) (t : Lib.Tree Addr) :
    rbtreeInsertAt mem node t =
      t.insertLeaf (fun a => keyCmp (nodeKey mem node) (nodeKey mem a)) node := by
  induction t with
  | nil => rfl
  | node l a r ihl ihr =>
      have hc : keyCmp (nodeKey mem node) (nodeKey mem a) = _ := keyCmp_eq ..
      simp only [rbtreeInsertAt, Lib.Tree.insertLeaf, hc, ihl, ihr]
      split_ifs <;> first | omega | rfl

/-! ## The invariant -/

/-- Tree, queue and live blocks hold one set of nodes, and the tree is ordered. -/
structure Indexed (core : Core) (s : Shctx) : Prop where
  nodup : s.queue.Nodup
  perm : s.rbtree.inorder.Perm s.queue
  ordered : Lib.Tree.Ordered keyCmp (nodeKey s.mem) s.rbtree
  hashed : ∀ a ∈ s.queue, (s.mem a).key = core.crc32Short (s.mem a).data
  live : (s.blocks.map Block.addr).Perm s.queue

theorem indexed_empty (core : Core) : Indexed core .empty where
  nodup := List.nodup_nil
  perm := .refl _
  ordered := List.Pairwise.nil
  hashed := by simp [Shctx.empty]
  live := .refl _

/-- The node a zone holds for a key. -/
def nodeOf (core : Core) (s : Shctx) (key : Key) : Option Node :=
  (lookup s (core.crc32Short key) key).map s.mem

variable {core : Core} {s : Shctx} {key : Key} {a : Addr}

namespace Indexed

theorem mem_inorder (h : Indexed core s) : a ∈ s.rbtree.inorder ↔ a ∈ s.queue := h.perm.mem_iff

/-- **Lookup is exact**: it finds the node that holds the key, whatever checksums
collide. -/
theorem lookup_eq_some_iff (h : Indexed core s) :
    lookup s (core.crc32Short key) key = some a ↔ a ∈ s.queue ∧ (s.mem a).data = key := by
  rw [lookup, lookupFrom_eq_search, h.ordered.search_eq_some_iff, h.mem_inorder, keyCmp_eq_iff]
  constructor
  · rintro ⟨ha, he⟩
    exact ⟨ha, (Prod.ext_iff.mp he).2.symm⟩
  · rintro ⟨ha, rfl⟩
    exact ⟨ha, Prod.ext (h.hashed a ha).symm rfl⟩

theorem lookup_eq_none_iff (h : Indexed core s) :
    lookup s (core.crc32Short key) key = none ↔ ∀ a ∈ s.queue, (s.mem a).data ≠ key := by
  constructor
  · intro hn a ha he
    rw [h.lookup_eq_some_iff.mpr ⟨ha, he⟩] at hn
    cases hn
  · intro hn
    cases hl : lookup s (core.crc32Short key) key with
    | none => rfl
    | some a =>
        obtain ⟨ha, he⟩ := h.lookup_eq_some_iff.mp hl
        exact absurd he (hn a ha)

/-- No two nodes hold the same key. -/
theorem eq_of_data_eq (h : Indexed core s) {b : Addr} (ha : a ∈ s.queue) (hb : b ∈ s.queue)
    (hd : (s.mem a).data = (s.mem b).data) : a = b := by
  refine h.ordered.eq_of_key_eq (h.mem_inorder.mpr ha) (h.mem_inorder.mpr hb) ?_
  simp only [nodeKey, Prod.mk.injEq]
  exact ⟨by rw [h.hashed a ha, h.hashed b hb, hd], hd⟩

theorem nodeOf_eq_some_iff (h : Indexed core s) {n : Node} :
    nodeOf core s key = some n ↔ ∃ a ∈ s.queue, s.mem a = n ∧ n.data = key := by
  simp only [nodeOf, Option.map_eq_some_iff, h.lookup_eq_some_iff]
  constructor
  · rintro ⟨a, ⟨ha, hd⟩, rfl⟩
    exact ⟨a, ha, rfl, hd⟩
  · rintro ⟨a, ha, rfl, hd⟩
    exact ⟨a, ⟨ha, hd⟩, rfl⟩

theorem nodeOf_eq_none_iff (h : Indexed core s) :
    nodeOf core s key = none ↔ ∀ a ∈ s.queue, (s.mem a).data ≠ key := by
  simp only [nodeOf, Option.map_eq_none_iff, h.lookup_eq_none_iff]

theorem nodeOf_mem (h : Indexed core s) (ha : a ∈ s.queue) (hd : (s.mem a).data = key) :
    nodeOf core s key = some (s.mem a) := h.nodeOf_eq_some_iff.mpr ⟨a, ha, rfl, hd⟩

/-! ## The primitive updates -/

theorem touch (h : Indexed core s) (ha : a ∈ s.queue) : Indexed core (touch s a) := by
  have hperm : (a :: s.queue.erase a).Perm s.queue := (List.perm_cons_erase ha).symm
  exact
    { nodup := hperm.nodup_iff.mpr h.nodup
      perm := h.perm.trans hperm.symm
      ordered := h.ordered
      hashed := fun b hb => h.hashed b (hperm.mem_iff.mp hb)
      live := h.live.trans hperm.symm }

/-- The addresses of the live blocks after one is freed. -/
private theorem map_addr_filter_ne {l : List Block} (hl : (l.map Block.addr).Nodup) (a : Addr) :
    (l.filter fun b => b.addr ≠ a).map Block.addr = (l.map Block.addr).erase a := by
  rw [hl.erase_eq_filter, List.filter_map]
  congr 1
  apply List.filter_congr
  intro b _
  by_cases hb : b.addr = a <;> simp [hb]

theorem delete (h : Indexed core s) (ha : a ∈ s.queue) : Indexed core (delete core s a) := by
  have hin : (core.rbtreeDelete a s.rbtree).inorder = s.rbtree.inorder.erase a :=
    core.inorder_rbtreeDelete a s.rbtree (h.mem_inorder.mpr ha)
  refine ⟨h.nodup.erase a, ?_, ?_, fun b hb => h.hashed b (List.mem_of_mem_erase hb), ?_⟩
  · simpa only [ErrorAbuse.delete, hin] using h.perm.erase a
  · refine h.ordered.of_sublist ?_
    simpa only [ErrorAbuse.delete, hin] using List.erase_sublist
  · have hnd : (s.blocks.map Block.addr).Nodup := h.live.nodup_iff.mpr h.nodup
    simp only [ErrorAbuse.delete, map_addr_filter_ne hnd]
    exact h.live.erase a

theorem refuse (h : Indexed core s) : Indexed core (refuse s) :=
  ⟨h.nodup, h.perm, h.ordered, h.hashed, h.live⟩

/-- Stores to a node's fields do not concern the index, key and checksum apart. -/
theorem setNode (h : Indexed core s) {n : Node} (hk : n.key = (s.mem a).key)
    (hd : n.data = (s.mem a).data) : Indexed core (setNode s a n) := by
  have hkey : ∀ b, nodeKey (Function.update s.mem a n) b = nodeKey s.mem b := by
    intro b
    by_cases hb : b = a
    · subst hb; simp [nodeKey, hk, hd]
    · simp [nodeKey, hb]
  refine ⟨h.nodup, h.perm, h.ordered.congr fun b _ => hkey b, ?_, h.live⟩
  intro b hb
  have := Prod.ext_iff.mp (hkey b)
  simp only [nodeKey] at this
  simp only [ErrorAbuse.setNode, this.1, this.2]
  exact h.hashed b hb

end Indexed

/-! ## The map after an update -/

@[simp] theorem nodeOf_touch (core : Core) (s : Shctx) (a : Addr) (key : Key) :
    nodeOf core (touch s a) key = nodeOf core s key := rfl

theorem Indexed.nodeOf_setNode (h : Indexed core s) (ha : a ∈ s.queue) {n : Node}
    (hk : n.key = (s.mem a).key) (hd : n.data = (s.mem a).data) (key : Key) :
    nodeOf core (ErrorAbuse.setNode s a n) key =
      if n.data = key then some n else nodeOf core s key := by
  have h' : Indexed core (ErrorAbuse.setNode s a n) := h.setNode hk hd
  by_cases hkey : n.data = key
  · rw [if_pos hkey]
    exact h'.nodeOf_eq_some_iff.mpr ⟨a, ha, by simp [ErrorAbuse.setNode], hkey⟩
  · rw [if_neg hkey]
    have hne : ∀ b ∈ s.queue, (s.mem b).data = key → b ≠ a := by
      rintro b _ hb rfl
      exact hkey (hd.trans hb)
    ext m
    rw [h'.nodeOf_eq_some_iff, h.nodeOf_eq_some_iff]
    constructor
    · rintro ⟨b, hb, rfl, hbk⟩
      by_cases hba : b = a
      · subst hba; simp [ErrorAbuse.setNode, hkey] at hbk
      · exact ⟨b, hb, by simp [ErrorAbuse.setNode, hba], by simpa [ErrorAbuse.setNode, hba] using hbk⟩
    · rintro ⟨b, hb, rfl, hbk⟩
      exact ⟨b, hb, by simp [ErrorAbuse.setNode, hne b hb hbk], hbk⟩

/-- A block the allocator hands out holds no node. -/
theorem Indexed.not_mem_of_free (h : Indexed core s) {conf : ZoneConf} {size : ℕ}
    (hfree : FreeBlock conf s size a) : a ∉ s.queue := by
  intro ha
  obtain ⟨b, hb, rfl⟩ := List.mem_map.mp (h.live.mem_iff.mpr ha)
  exact (hfree.2.2 b hb).1 rfl

/-- Linking a node into a block the allocator handed out keeps the index, provided
the key was new. -/
theorem Indexed.linkNode (h : Indexed core s) {conf : ZoneConf} {size : ℕ}
    (hfree : FreeBlock conf s size a) (hnew : nodeOf core s key = none) (now : ℤ) :
    Indexed core (linkNode core conf (core.crc32Short key) key now a
      { s with blocks := ⟨a, size⟩ :: s.blocks }) := by
  have hfresh : a ∉ s.queue := h.not_mem_of_free hfree
  have hmem : ∀ b ∈ s.queue, ∀ n, Function.update s.mem a n b = s.mem b := by
    intro b hb n
    exact Function.update_of_ne (by rintro rfl; exact hfresh hb) ..
  let n : Node := freshNode conf (core.crc32Short key) key now
  let mem := Function.update s.mem a n
  have hself : mem a = n := Function.update_self ..
  have hkey : nodeKey mem a = (core.crc32Short key, key) := by rw [nodeKey, hself]; rfl
  have hord : Lib.Tree.Ordered keyCmp (nodeKey mem) s.rbtree := by
    refine h.ordered.congr fun b hb => ?_
    simp only [nodeKey, mem, hmem b (h.mem_inorder.mp hb)]
  have hne : ∀ b ∈ s.rbtree.inorder, keyCmp (nodeKey mem a) (nodeKey mem b) ≠ .eq := by
    intro b hb he
    have hbq : b ∈ s.queue := h.mem_inorder.mp hb
    rw [keyCmp_eq_iff, hkey] at he
    have hd : key = (mem b).data := (Prod.ext_iff.mp he).2
    exact (h.nodeOf_eq_none_iff.mp hnew) b hbq (by rw [hd]; exact congrArg Node.data (hmem b hbq n).symm)
  have hins : (rbtreeInsert core mem a s.rbtree).inorder =
      (s.rbtree.insertLeaf (fun b => keyCmp (nodeKey mem a) (nodeKey mem b)) a).inorder := by
    rw [rbtreeInsert, core.inorder_rbtreeBalance, rbtreeInsertAt_eq_insertLeaf]
  refine ⟨List.nodup_cons.mpr ⟨hfresh, h.nodup⟩, ?_, ?_, ?_, ?_⟩
  · change (rbtreeInsert core mem a s.rbtree).inorder.Perm (a :: s.queue)
    rw [hins]
    exact (Lib.Tree.inorder_insertLeaf_perm ..).trans (h.perm.cons a)
  · change Lib.Tree.Ordered keyCmp (nodeKey mem) (rbtreeInsert core mem a s.rbtree)
    unfold Lib.Tree.Ordered
    rw [hins]
    exact hord.insertLeaf hne
  · intro b hb
    change (mem b).key = core.crc32Short (mem b).data
    rcases List.mem_cons.mp hb with rfl | hb
    · rw [hself]; rfl
    · simp only [mem, hmem b hb]
      exact h.hashed b hb
  · exact h.live.cons a

/-- Linking a node adds its key to the map. -/
theorem Indexed.nodeOf_linkNode (h : Indexed core s) {conf : ZoneConf} {size : ℕ}
    (hfree : FreeBlock conf s size a) (hnew : nodeOf core s key = none) (now : ℤ) (k : Key) :
    nodeOf core (ErrorAbuse.linkNode core conf (core.crc32Short key) key now a
        { s with blocks := ⟨a, size⟩ :: s.blocks }) k =
      if k = key then some (freshNode conf (core.crc32Short key) key now) else nodeOf core s k := by
  let s' := ErrorAbuse.linkNode core conf (core.crc32Short key) key now a
    { s with blocks := ⟨a, size⟩ :: s.blocks }
  have hs' : Indexed core s' := h.linkNode hfree hnew now
  have hmem : s'.mem a = freshNode conf (core.crc32Short key) key now := Function.update_self ..
  have hold : ∀ b ∈ s.queue, s'.mem b = s.mem b := by
    intro b hb
    have hba : b ≠ a := by rintro rfl; exact h.not_mem_of_free hfree hb
    exact Function.update_of_ne hba ..
  by_cases hk : k = key
  · rw [if_pos hk, hs'.nodeOf_eq_some_iff]
    exact ⟨a, List.mem_cons_self, hmem, hk.symm⟩
  · rw [if_neg hk]
    ext n
    rw [hs'.nodeOf_eq_some_iff, h.nodeOf_eq_some_iff]
    constructor
    · intro ⟨b, hb, hn, hd⟩
      rcases List.mem_cons.mp hb with rfl | hb
      · rw [hmem] at hn
        exact absurd (hd.symm.trans (congrArg Node.data hn.symm)) hk
      · exact ⟨b, hb, (hold b hb).symm.trans hn, hd⟩
    · intro ⟨b, hb, hn, hd⟩
      exact ⟨b, List.mem_cons_of_mem a hb, (hold b hb).trans hn, hd⟩

end ErrorAbuse
