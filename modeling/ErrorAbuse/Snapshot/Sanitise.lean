import ErrorAbuse.Zone.Runs

/-!
# Loading sanitises

Whatever 64-bit values a file holds, the nodes `load` leaves behind are in range: a ban
ends within one block time, recency is not in the future, and every event is inside the
window. `toNode_contents` is the exact effect on the events, of which the range is one
consequence.

The one exception is a `time_t` narrower than the 64-bit fields of the file, at the last
second it can express: the deadline is clamped to that second and is over at once.
-/

namespace ErrorAbuse

open Lib

variable {core : Core} {conf : ZoneConf} {threshold : ℕ} {now : ℤ} {s : Shctx} {n : Node}

/-! ## The events of a restored node -/

/-- The events of a record that are inside the window. -/
def keptEvents (conf : ZoneConf) (now : ℤ) (events : List UInt64) : List ℤ :=
  (events.map fun v => toInt64 v.toNat).filter fun x => now - conf.interval < x ∧ x ≤ now

theorem mem_keptEvents {events : List UInt64} {x : ℤ} (h : x ∈ keptEvents conf now events) :
    now - conf.interval < x ∧ x ≤ now := by
  simpa using (List.mem_filter.mp h).2

theorem length_keptEvents_le (conf : ZoneConf) (now : ℤ) (events : List UInt64) :
    (keptEvents conf now events).length ≤ events.length := by
  have hmap : (events.map fun v => toInt64 v.toNat).length = events.length := List.length_map ..
  exact hmap ▸ List.length_filter_le ..

/-- Storing events one behind the other from slot zero. -/
theorem foldl_keepEvent (now : ℤ) (events : List UInt64) (hlen : n.events.length = conf.threshold)
    (hhead : n.eventHead = 0) (hroom : n.eventCount + events.length ≤ conf.threshold) :
    let m := events.foldl (keepEvent conf now) n
    m.contents conf = n.contents conf ++ keptEvents conf now events ∧ m.eventHead = 0 ∧
      m.eventCount = n.eventCount + (keptEvents conf now events).length ∧
      m.events.length = conf.threshold ∧ m.blockedUntil = n.blockedUntil ∧
      m.lastSeen = n.lastSeen := by
  induction events generalizing n with
  | nil => exact ⟨by simp [keptEvents], hhead, by simp [keptEvents], hlen, rfl, rfl⟩
  | cons v events ih =>
      have hcons : (v :: events).length = events.length + 1 := rfl
      rw [hcons] at hroom
      by_cases hv : toInt64 v.toNat > now - conf.interval ∧ toInt64 v.toNat ≤ now
      · have hstep : keepEvent conf now n v = { n with
            events := n.events.set n.eventCount (toInt64 v.toNat)
            eventCount := n.eventCount + 1 } := if_pos hv
        have hkept : keptEvents conf now (v :: events) =
            toInt64 v.toNat :: keptEvents conf now events := by simp [keptEvents, hv]
        have hslot : (n.eventHead + n.eventCount) % conf.threshold = n.eventCount := by
          rw [hhead, Nat.zero_add, Nat.mod_eq_of_lt (by omega)]
        have hpush : (keepEvent conf now n v).contents conf =
            n.contents conf ++ [toInt64 v.toNat] := by
          have h : Ring.contents 0 conf.threshold
              (n.events.set ((n.eventHead + n.eventCount) % conf.threshold) (toInt64 v.toNat))
              n.eventHead (n.eventCount + 1) = n.contents conf ++ [toInt64 v.toNat] :=
            Ring.contents_push hlen (by omega) _
          rw [hslot] at h
          rw [hstep]
          exact h
        obtain ⟨hc, hh, hcount, hl, hb, hs⟩ := ih (n := keepEvent conf now n v)
          (by simp [hstep, hlen]) (by rw [hstep]; exact hhead)
          (by simp only [hstep]; omega)
        rw [List.foldl_cons, hkept]
        refine ⟨by rw [hc, hpush, List.append_assoc]; rfl, hh, ?_, hl, ?_, ?_⟩
        · have hpushed : (keepEvent conf now n v).eventCount = n.eventCount + 1 := by rw [hstep]
          rw [hcount, hpushed, List.length_cons]
          omega
        · rw [hb, hstep]
        · rw [hs, hstep]
      · have hstep : keepEvent conf now n v = n := if_neg hv
        have hkept : keptEvents conf now (v :: events) = keptEvents conf now events := by
          simp only [keptEvents, List.map_cons]
          rw [List.filter_cons_of_neg (by simpa using hv)]
        rw [List.foldl_cons, hstep, hkept]
        exact ih hlen hhead (by omega)

/-- Everything `load` stores to the node of a record. -/
theorem toNode_spec (now : ℤ) (r : SnapRecord conf.threshold) (hlen : n.events.length = conf.threshold) :
    let m := r.toNode conf now n
    m.contents conf = keptEvents conf now r.events ∧ m.eventHead = 0 ∧
      m.eventCount = (keptEvents conf now r.events).length ∧
      m.events.length = conf.threshold ∧
      m.blockedUntil =
        (restoreHeader conf now (toInt64 r.blocked.toNat) (toInt64 r.seen.toNat) n).blockedUntil ∧
      m.lastSeen =
        (restoreHeader conf now (toInt64 r.blocked.toNat) (toInt64 r.seen.toNat) n).lastSeen := by
  have h := foldl_keepEvent now r.events
    (n := restoreHeader conf now (toInt64 r.blocked.toNat) (toInt64 r.seen.toNat) n) hlen rfl
    (by simpa [restoreHeader] using r.length_le)
  simpa [SnapRecord.toNode, restoreHeader, Node.contents] using h

/-! ## In range -/

/-- A restored node whose every field is in range at `now`. -/
structure Sanitised (conf : ZoneConf) (now : ℤ) (n : Node) : Prop where
  ban : n.blockedUntil = 0 ∨ now < n.blockedUntil ∧ n.blockedUntil ≤ conf.addSaturate now conf.block
  seen : 0 < now → 0 < n.lastSeen ∧ n.lastSeen ≤ now
  head : n.eventHead = 0
  count : n.eventCount ≤ conf.threshold
  events : ∀ x ∈ n.contents conf, now - conf.interval < x ∧ x ≤ now

instance (conf : ZoneConf) (now : ℤ) (n : Node) : Decidable (Sanitised conf now n) :=
  decidable_of_iff
    ((n.blockedUntil = 0 ∨ now < n.blockedUntil ∧ n.blockedUntil ≤ conf.addSaturate now conf.block) ∧
      (0 < now → 0 < n.lastSeen ∧ n.lastSeen ≤ now) ∧ n.eventHead = 0 ∧
      n.eventCount ≤ conf.threshold ∧ ∀ x ∈ n.contents conf, now - conf.interval < x ∧ x ≤ now)
    ⟨fun ⟨h₁, h₂, h₃, h₄, h₅⟩ => ⟨h₁, h₂, h₃, h₄, h₅⟩, fun h => ⟨h.1, h.2, h.3, h.4, h.5⟩⟩

/-- In range but for a ban that ends at `now`, the last second of a `time_t` too narrow
for the fields of the file. -/
def LapsedAtEnd (conf : ZoneConf) (now : ℤ) (n : Node) : Prop :=
  now = conf.timeMax ∧ conf.timeMax < 2 ^ 63 - 1 ∧ n.blockedUntil = now ∧
    Sanitised conf now { n with blockedUntil := 0 }

theorem toInt64_lt {v : ℕ} (h : v < 2 ^ 64) : toInt64 v ≤ 2 ^ 63 - 1 := by
  rw [toInt64]
  split_ifs <;> omega

/-- The clamp on a restored deadline. -/
theorem restoreHeader_ban (hmax : now ≤ conf.timeMax) {blocked : ℤ}
    (hb : blocked ≤ 2 ^ 63 - 1) (seen : ℤ) (n : Node) :
    let d := (restoreHeader conf now blocked seen n).blockedUntil
    (d = 0 ∨ now < d ∧ d ≤ conf.addSaturate now conf.block) ∨
      now = conf.timeMax ∧ conf.timeMax < 2 ^ 63 - 1 ∧ d = now := by
  intro d
  have hmin : conf.addSaturate now conf.block = min (now + conf.block) conf.timeMax :=
    timeAddSaturate_eq_min conf.block_pos
  have hpos := conf.block_pos
  by_cases hlive : blocked > now
  · have hd : d = if blocked < conf.addSaturate now conf.block then blocked
        else conf.addSaturate now conf.block := if_pos hlive
    rw [hd]
    split_ifs <;> omega
  · exact .inl (.inl (if_neg hlive))

/-- Restoring a record leaves its node in range. -/
theorem toNode_sanitised (hmax : now ≤ conf.timeMax) (r : SnapRecord conf.threshold)
    (hlen : n.events.length = conf.threshold) :
    Sanitised conf now (r.toNode conf now n) ∨ LapsedAtEnd conf now (r.toNode conf now n) := by
  obtain ⟨hc, hhead, hcount, -, hban, hseen⟩ := toNode_spec now r hlen
  have hle : (r.toNode conf now n).eventCount ≤ conf.threshold := by
    rw [hcount]
    exact (length_keptEvents_le conf now r.events).trans r.length_le
  have hevents : ∀ x ∈ (r.toNode conf now n).contents conf, now - conf.interval < x ∧ x ≤ now := by
    rw [hc]
    exact fun x hx => mem_keptEvents hx
  have hlast : 0 < now → 0 < (r.toNode conf now n).lastSeen ∧ (r.toNode conf now n).lastSeen ≤ now := by
    intro hpos
    rw [hseen, restoreHeader]
    by_cases hs : toInt64 r.seen.toNat > 0 ∧ toInt64 r.seen.toNat ≤ now
    · simp only [if_pos hs]; exact hs
    · simp only [if_neg hs]; exact ⟨hpos, le_rfl⟩
  have hclamp := restoreHeader_ban hmax (toInt64_lt r.blocked.toNat_lt) (toInt64 r.seen.toNat) n
  rw [← hban] at hclamp
  rcases hclamp with hb | ⟨he, hnarrow, hb⟩
  · exact .inl ⟨hb, hlast, hhead, hle, hevents⟩
  · exact .inr ⟨he, hnarrow, hb, .inl rfl, hlast, hhead, hle, hevents⟩

/-! ## Every node has its slots -/

/-- The event array of every node has `threshold` slots. -/
def Sized (core : Core) (conf : ZoneConf) (s : Shctx) : Prop :=
  ∀ key n, nodeOf core s key = some n → n.events.length = conf.threshold

/-- No call resizes an event array. -/
theorem Call.length_events_onNode (conf : ZoneConf) (c : Call) (n : Node) :
    (c.onNode conf n).1.events.length = n.events.length := by
  cases c with
  | record key now slab =>
      simp only [onNode, recordNode_eq]
      split_ifs <;> simp [pruneEvents_eq]
  | isBlocked key now =>
      simp only [onNode, isBlockedNode_eq]
      split_ifs <;> simp [pruneEvents_eq]

/-- A node has its slots from its creation on. -/
theorem nodeInvariant_slots (core : Core) (conf : ZoneConf) :
    NodeInvariant core conf fun n => n.events.length = conf.threshold where
  fresh _ _ := List.length_replicate
  onNode c _ h := (c.length_events_onNode conf _).trans h
  toNode r now _ h := (toNode_spec now r h).2.2.2.1

/-- The restore loop leaves the nodes it wrote in range. -/
theorem restoreAll_sanitised (hmax : now ≤ conf.timeMax) (slabs : ℕ → Slab)
    (rs : List (SnapRecord conf.threshold)) (h : Indexed core s) (hz : Sized core conf s) :
    ∀ a ∈ (restoreAll core conf now slabs rs s []).2.1,
      a ∈ (restoreAll core conf now slabs rs s []).1.queue →
        Sanitised conf now ((restoreAll core conf now slabs rs s []).1.mem a) ∨
          LapsedAtEnd conf now ((restoreAll core conf now slabs rs s []).1.mem a) := by
  refine (restoreAll_induction (fun s restored => Sized core conf s ∧
    ∀ a ∈ restored, a ∈ s.queue → Sanitised conf now (s.mem a) ∨ LapsedAtEnd conf now (s.mem a))
    ?_ ?_ slabs rs h ⟨hz, by simp⟩).2.2
  · intro s s' lost restored h hs ⟨hz, hr⟩
    refine ⟨EveryNode.shrinks hz h hs, fun a ha hq => ?_⟩
    rw [hs.mem]
    exact hr a ha (hs.queue a hq)
  · intro s s₁ s' a n restored r h hst ⟨hz, hr⟩
    obtain ⟨hlen, hz'⟩ := hst.everyNode (nodeInvariant_slots core conf) h hz
    refine ⟨hz', fun b hb hq => ?_⟩
    by_cases hba : b = a
    · subst hba
      rw [hst.mem_self]
      exact toNode_sanitised hmax r hlen
    · obtain ⟨hq₁, hm⟩ := hst.other b hq hba
      obtain ⟨lost, hs⟩ := hst.room
      rw [hm, hs.mem]
      exact hr b ((List.mem_cons.mp hb).resolve_left hba) (hs.queue b hq₁)

/-! ## Files -/

/-- What a successful restore loop leaves is in range. -/
theorem load_accepted (slabs : ℕ → Slab) (disk : Disk) (h : Indexed core s)
    (hz : Sized core conf s) {r : Loaded} (hr : load core conf now slabs disk s = some r) :
    Sized core conf (r.zone s) ∧ (now ≤ conf.timeMax →
      ∀ n ∈ r.restoredNodes, Sanitised conf now n ∨ LapsedAtEnd conf now n) := by
  obtain ⟨r', hr', heff⟩ := load_effect core conf now slabs disk s
  obtain rfl : r = r' := Option.some.inj (hr.symm.trans hr')
  cases heff with
  | rejected why => exact ⟨hz, fun _ n hn => by simp [Loaded.restoredNodes] at hn⟩
  | noBuffer => exact ⟨hz, fun _ n hn => by simp [Loaded.restoredNodes] at hn⟩
  | accepted rs w e hall =>
      refine ⟨?_, fun hmax n hn => ?_⟩
      · have hsized := restoreAll_everyNode (nodeInvariant_slots core conf) now slabs rs h hz
        rwa [hall] at hsized
      · have hnodes := restoreAll_sanitised hmax slabs rs h hz
        rw [hall] at hnodes
        obtain ⟨a, ha, rfl⟩ := List.mem_map.mp hn
        obtain ⟨hmem, hq⟩ := List.mem_filter.mp ha
        exact hnodes a hmem (of_decide_eq_true hq)

theorem reachable_sized (core : Core) (conf : ZoneConf) (ops : List Op) :
    Sized core conf (run (opStep core conf) .empty ops) :=
  reachable_everyNode (nodeInvariant_slots core conf) ops

/-- **Loading is all-or-nothing and sanitises.** Whatever the file holds and however the
allocator answers, `load` reads inside its buffer; a file it rejects leaves the zone as it
was and the call succeeds; and every node it restored and left in the zone is in range,
or, if `now` is the last second of a narrow `time_t`, carries a ban that is already over. -/
theorem load_sanitises (core : Core) (conf : ZoneConf) (ops : List Op) (now : ℤ)
    (slabs : ℕ → Slab) (disk : Disk) (hmax : now ≤ conf.timeMax) :
    let s := run (opStep core conf) .empty ops
    ∃ r, load core conf now slabs disk s = some r ∧
      (∀ why, r = .rejected why →
        (r.zone s).rbtree = s.rbtree ∧ (r.zone s).queue = s.queue ∧ r.rc = .ok) ∧
      ∀ n ∈ r.restoredNodes, Sanitised conf now n ∨ LapsedAtEnd conf now n := by
  intro s
  obtain ⟨r, hr, -⟩ := load_effect core conf now slabs disk s
  refine ⟨r, hr, ?_, ?_⟩
  · intro why hwhy
    subst hwhy
    exact ⟨rfl, rfl, rfl⟩
  · exact (load_accepted slabs disk (reachable_indexed core conf ops)
      (reachable_sized core conf ops) hr).2 hmax

/-- A snapshot of one record without events, for a zone with a threshold of two. -/
def banFile (key : Digest) (blocked seen : ℕ) : List UInt8 :=
  let payload := putU16 digestLen ++ (putU16 0 ++ (putU64 blocked ++ (putU64 seen ++ key.1)))
  fileMagic ++ (putU32 fileVersion ++ (putU32 2 ++ (putU32 1 ++
    (putU32 (crc32 payload).toNat ++ payload))))

/-- A forged deadline of 2500 is cut down to one block time from now. -/
theorem load_sanitises_forged :
    let s := run (opStep .unbalanced .small) .empty []
    ∃ r, load .unbalanced .small 100 (fun _ _ => some 4096)
        (.content (banFile (.repeated 7) 2500 (2 ^ 64 - 1)) true true) s = some r ∧
      (∀ why, r = .rejected why →
        (r.zone s).rbtree = s.rbtree ∧ (r.zone s).queue = s.queue ∧ r.rc = .ok) ∧
      ∀ n ∈ r.restoredNodes, Sanitised .small 100 n ∨ LapsedAtEnd .small 100 n :=
  load_sanitises .unbalanced .small [] 100 (fun _ _ => some 4096)
    (.content (banFile (.repeated 7) 2500 (2 ^ 64 - 1)) true true) (by decide)

/-- At the last second of a 32-bit `time_t` a later deadline is restored as that very
second, which is not after `now`. -/
theorem load_not_sanitised_at_end :
    ¬ ∃ r, load .unbalanced .small32 (2 ^ 31 - 1) (fun _ _ => some 4096)
        (.content (banFile (.repeated 7) (2 ^ 31) 1) true true) .empty = some r ∧
      ∀ n ∈ r.restoredNodes, Sanitised .small32 (2 ^ 31 - 1) n := by
  have hnodes : ((load .unbalanced .small32 (2 ^ 31 - 1) (fun _ _ => some 4096)
      (.content (banFile (.repeated 7) (2 ^ 31) 1) true true) .empty).map fun r =>
        decide (∀ n ∈ r.restoredNodes, Sanitised .small32 (2 ^ 31 - 1) n)) = some false := by
    decide +kernel
  intro ⟨r, hr, hall⟩
  rw [hr, Option.map_some, Option.some.injEq, decide_eq_false_iff_not] at hnodes
  exact hnodes hall

end ErrorAbuse
