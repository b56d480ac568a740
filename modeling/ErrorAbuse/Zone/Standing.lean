import ErrorAbuse.Zone.Effects
import ErrorAbuse.Lib.Limiter
import ErrorAbuse.Lib.Run

/-!
# A zone is a limiter for each key

A node is the packed form of a limiter's entry: a ring for the list of times and
zero for no ban. `NodeOk` is what keeps the packing honest, and `ZoneOk` says it of
every node of a zone; `Settled` also allows nodes that only saw calls before the epoch,
which pack the empty entry. `exec_simulates` is the step of the refinement: a deciding
call answers as the limiter does on the entry of its key, and leaves the entries of
all keys, up to what can be observed, as the limiter leaves them.

The policy of a zone bans up to a saturated deadline, so nothing here asks for a
bound on the clock but that it stays short of the largest time.
-/

namespace ErrorAbuse

open Lib Lib.Limiter

variable {core : Core} {conf : ZoneConf} {s s' : Shctx} {n : Node} {now t : ℤ}

/-- The limiter a zone implements. -/
def policy (conf : ZoneConf) : Policy ℤ where
  threshold := conf.threshold
  cutoff now := now - conf.interval
  ban now := conf.addSaturate now conf.block

theorem policy_cutoff_mono (conf : ZoneConf) : Monotone (policy conf).cutoff :=
  fun _ _ h => sub_le_sub_right h conf.interval

/-- The entry a node packs. -/
def Node.entry (conf : ZoneConf) (n : Node) : Entry ℤ where
  times := n.contents conf
  deadline := if n.blockedUntil = 0 then none else some n.blockedUntil

/-- The entry a zone holds for a key. -/
def entryOf (core : Core) (conf : ZoneConf) (s : Shctx) (key : Key) : Entry ℤ :=
  (nodeOf core s key).elim .empty (Node.entry conf)

/-- What a call does to the entry of its key. -/
def Call.apply (P : Policy ℤ) (e : Entry ℤ) : Call → Entry ℤ × Answer ℤ
  | record _ now _ => e.hit P now
  | isBlocked _ now => e.check P now

/-- How a call reports an answer. -/
def Call.verdict (conf : ZoneConf) : Call → Answer ℤ → Verdict
  | record .., .banned d => ⟨.busy, some (conf.threshold, d)⟩
  | record .., .counted n => ⟨.ok, some (n, 0)⟩
  | record .., .lapsed d => ⟨.ok, some (0, d)⟩
  | isBlocked .., .banned d => ⟨.ok, some (conf.threshold, d)⟩
  | isBlocked .., .counted n => ⟨.declined, some (n, 0)⟩
  | isBlocked .., .lapsed _ => ⟨.declined, some (0, 0)⟩

/-! ## The node invariant -/

/-- A well-formed node at time `t`: its ring has room for one more event and is
sorted, nothing in it is newer than `lastSeen`, and a ban leaves no events behind. -/
structure NodeOk (conf : ZoneConf) (t : ℤ) (n : Node) : Prop where
  length_data : n.data.length = digestLen
  length_events : n.events.length = conf.threshold
  head_lt : n.eventHead < conf.threshold
  count_lt : n.eventCount < conf.threshold
  sorted : (n.contents conf).Pairwise (· ≤ ·)
  le_lastSeen : ∀ x ∈ n.contents conf, x ≤ n.lastSeen
  nonneg : ∀ x ∈ n.contents conf, 0 ≤ x
  lastSeen_nonneg : 0 ≤ n.lastSeen
  lastSeen_le : n.lastSeen ≤ t
  ban_nonneg : 0 ≤ n.blockedUntil
  ban_le : n.blockedUntil ≠ 0 → n.blockedUntil ≤ conf.addSaturate n.lastSeen conf.block
  ban_empty : n.blockedUntil ≠ 0 → n.eventCount = 0

namespace NodeOk

theorem mono (h : NodeOk conf t n) (hle : t ≤ now) : NodeOk conf now n :=
  { h with lastSeen_le := h.lastSeen_le.trans hle }

/-- Refreshing recency. -/
theorem seen (h : NodeOk conf t n) (hle : t ≤ now) :
    NodeOk conf now { n with lastSeen := now } := by
  have hls : n.lastSeen ≤ now := h.lastSeen_le.trans hle
  exact
    { h with
      le_lastSeen := fun x hx => (h.le_lastSeen x hx).trans hls
      lastSeen_nonneg := h.lastSeen_nonneg.trans hls
      lastSeen_le := le_rfl
      ban_le := fun hb => (h.ban_le hb).trans (timeAddSaturate_mono conf.block_pos hls) }

theorem fresh (conf : ZoneConf) (hash : UInt32) (key : Digest) (h0 : 0 ≤ now) :
    NodeOk conf now (freshNode conf hash key now) where
  length_data := key.2
  length_events := List.length_replicate
  head_lt := conf.threshold_pos
  count_lt := conf.threshold_pos
  sorted := List.Pairwise.nil
  le_lastSeen := by simp [Node.contents, freshNode]
  nonneg := by simp [Node.contents, freshNode]
  lastSeen_nonneg := h0
  lastSeen_le := le_rfl
  ban_nonneg := le_rfl
  ban_le h := absurd rfl h
  ban_empty _ := rfl

/-- Lifting a ban that is over. -/
theorem cleared (h : NodeOk conf t n) :
    NodeOk conf t { n with blockedUntil := 0, eventHead := 0, eventCount := 0 } :=
  { h with
    head_lt := conf.threshold_pos
    count_lt := conf.threshold_pos
    sorted := List.Pairwise.nil
    le_lastSeen := by simp [Node.contents]
    nonneg := by simp [Node.contents]
    ban_nonneg := le_rfl
    ban_le := fun h => absurd rfl h
    ban_empty := fun _ => rfl }

end NodeOk

/-- A node for which only calls before the epoch were made. To them its zero deadline is still
to come: they report a ban and count nothing. -/
structure Dormant (conf : ZoneConf) (n : Node) : Prop where
  length_data : n.data.length = digestLen
  length_events : n.events.length = conf.threshold
  eventHead_eq : n.eventHead = 0
  eventCount_eq : n.eventCount = 0
  blockedUntil_eq : n.blockedUntil = 0

namespace Dormant

theorem fresh (conf : ZoneConf) (hash : UInt32) (key : Digest) (now : ℤ) :
    Dormant conf (freshNode conf hash key now) :=
  ⟨key.2, List.length_replicate, rfl, rfl, rfl⟩

theorem contents_eq (h : Dormant conf n) : n.contents conf = [] := by
  simp [Node.contents, h.eventCount_eq]

theorem entry_eq (h : Dormant conf n) : n.entry conf = .empty := by
  rw [Node.entry, h.contents_eq, if_pos h.blockedUntil_eq]
  rfl

/-- Refreshed after the epoch, it is a node like any other. -/
theorem seen (h : Dormant conf n) (h0 : 0 ≤ now) : NodeOk conf now { n with lastSeen := now } := by
  have hcontents : Node.contents conf { n with lastSeen := now } = [] := h.contents_eq
  exact
    { length_data := h.length_data
      length_events := h.length_events
      head_lt := h.eventHead_eq ▸ conf.threshold_pos
      count_lt := h.eventCount_eq ▸ conf.threshold_pos
      sorted := by simp [hcontents]
      le_lastSeen := by simp [hcontents]
      nonneg := by simp [hcontents]
      lastSeen_nonneg := h0
      lastSeen_le := le_rfl
      ban_nonneg := h.blockedUntil_eq.ge
      ban_le := fun hb => absurd h.blockedUntil_eq hb
      ban_empty := fun hb => absurd h.blockedUntil_eq hb }

end Dormant

/-- Pruning leaves the window. -/
theorem contents_pruneEvents (h : NodeOk conf t n) (now : ℤ) :
    (pruneEvents conf n now).contents conf = window (now - conf.interval) (n.contents conf) := by
  rw [← dropWhile_eq_window h.sorted, pruneEvents_eq]
  exact Ring.contents_dropFront _ h.head_lt

theorem NodeOk.pruneEvents (h : NodeOk conf t n) (now : ℤ) :
    NodeOk conf t (pruneEvents conf n now) := by
  have hc := contents_pruneEvents h now
  have hcount : (ErrorAbuse.pruneEvents conf n now).eventCount ≤ n.eventCount := by
    rw [pruneEvents_eq]
    exact Ring.dropFront_count_le _
  have hhead : (ErrorAbuse.pruneEvents conf n now).eventHead < conf.threshold := by
    rw [pruneEvents_eq]
    exact Ring.dropFront_head_lt _ h.head_lt
  refine
    { h with
      head_lt := hhead
      count_lt := hcount.trans_lt h.count_lt
      sorted := ?_
      le_lastSeen := ?_
      nonneg := ?_
      ban_empty := fun hb => Nat.le_zero.mp (hcount.trans (h.ban_empty hb).le) }
  · rw [hc]; exact h.sorted.filter _
  · rw [hc]; exact fun x hx => h.le_lastSeen x (mem_window.mp hx).1
  · rw [hc]; exact fun x hx => h.nonneg x (mem_window.mp hx).1

/-! ## One call on a node -/

/-- A node whose ban, if it has one, is over, with that ban cleared. -/
def liftNode (n : Node) : Node :=
  if n.blockedUntil ≠ 0 then { n with blockedUntil := 0, eventHead := 0, eventCount := 0 } else n

/-- A node with the event at `now` written behind the others. -/
def pushEvent (conf : ZoneConf) (n : Node) (now : ℤ) : Node :=
  { n with
    events := n.events.set ((n.eventHead + n.eventCount) % conf.threshold) now
    eventCount := n.eventCount + 1 }

/-- A node whose events have been exchanged for a ban. -/
def banNode (conf : ZoneConf) (n : Node) (now : ℤ) : Node :=
  { n with blockedUntil := conf.addSaturate now conf.block, eventHead := 0, eventCount := 0 }

@[simp] theorem length_contents (conf : ZoneConf) (n : Node) :
    (n.contents conf).length = n.eventCount := Ring.length_contents ..

@[simp] theorem blockedUntil_liftNode (n : Node) : (liftNode n).blockedUntil = 0 := by
  unfold liftNode; split_ifs with h
  · rfl
  · exact not_not.mp h

@[simp] theorem lastSeen_liftNode (n : Node) : (liftNode n).lastSeen = n.lastSeen := by
  unfold liftNode; split_ifs <;> rfl

theorem NodeOk.liftNode (h : NodeOk conf t n) : NodeOk conf t (liftNode n) := by
  unfold ErrorAbuse.liftNode; split_ifs
  · exact h.cleared
  · exact h

theorem contents_pushEvent (h : NodeOk conf t n) (now : ℤ) :
    (pushEvent conf n now).contents conf = n.contents conf ++ [now] :=
  Ring.contents_push h.length_events h.count_lt now

/-- The ban of a node is in force exactly if its entry's is. -/
theorem standing_of_gt (h0 : 0 ≤ now) (hb : n.blockedUntil > now) :
    (n.entry conf).standing (policy conf) now = .banned n.blockedUntil := by
  rw [Entry.standing_eq_banned, Node.entry, if_neg (by omega)]
  exact ⟨rfl, hb⟩

/-- A node without a ban in force counts the window of its lifted contents. -/
theorem standing_of_not_gt (conf : ZoneConf) (hb : ¬ n.blockedUntil > now) :
    (n.entry conf).standing (policy conf) now =
      .counting (window (now - conf.interval) ((liftNode n).contents conf)) ∧
      (n.entry conf).lift now = (liftNode n).entry conf := by
  by_cases hz : n.blockedUntil = 0
  · have hl : liftNode n = n := by simp [liftNode, hz]
    simp only [hl, Node.entry, hz, if_true, Entry.standing, Entry.lift]
    exact ⟨rfl, trivial⟩
  · have hl : liftNode n = { n with blockedUntil := 0, eventHead := 0, eventCount := 0 } := by
      simp [liftNode, hz]
    simp only [hl, Node.entry, if_neg hz, Entry.standing, Entry.lift, if_neg hb, if_true]
    exact ⟨rfl, rfl⟩

/-- The open branch of `recordNode`: lift, prune, push, and ban at the threshold. -/
theorem recordNode_of_not_gt (h0 : 0 ≤ now) (hb : ¬ n.blockedUntil > now) {p : Node}
    (hp : p = pruneEvents conf (liftNode n) now) :
    recordNode conf n now =
      if p.eventCount + 1 ≥ conf.threshold then
        (banNode conf (pushEvent conf p now) now,
          if conf.addSaturate now conf.block > now then
            ⟨.busy, some (conf.threshold, conf.addSaturate now conf.block)⟩
          else ⟨.ok, some (0, conf.addSaturate now conf.block)⟩)
      else (pushEvent conf p now, ⟨.ok, some (p.eventCount + 1, 0)⟩) := by
  have hpb : (pushEvent conf p now).blockedUntil = 0 := by subst hp; exact blockedUntil_liftNode n
  have hpc : (pushEvent conf p now).eventCount = p.eventCount + 1 := rfl
  have hrec : recordNode conf n now =
      let q := pushEvent conf p now
      let ean := if q.eventCount ≥ conf.threshold then banNode conf q now else q
      let count := if ean.blockedUntil > now then conf.threshold else ean.eventCount
      (ean, ⟨if ean.blockedUntil > now then .busy else .ok, some (count, ean.blockedUntil)⟩) := by
    subst hp
    simp only [recordNode_eq, if_neg hb]
    rfl
  rw [hrec]
  by_cases hth : p.eventCount + 1 ≥ conf.threshold
  · simp only [hpc, if_pos hth]
    by_cases hu : conf.addSaturate now conf.block > now
    · simp [banNode, hu]
    · simp [banNode, hu]
  · simp only [hpc, hpb, if_neg hth, if_neg (not_lt.mpr h0)]

/-- Writing an event at the node's own last-seen time. -/
theorem NodeOk.pushEvent (h : NodeOk conf now n) (hls : n.lastSeen = now)
    (hroom : n.eventCount + 1 < conf.threshold) (hban : n.blockedUntil = 0) :
    NodeOk conf now (pushEvent conf n now) := by
  have hc := contents_pushEvent h now
  refine
    { h with
      length_events := by simp [ErrorAbuse.pushEvent, h.length_events]
      count_lt := hroom
      sorted := ?_
      le_lastSeen := ?_
      nonneg := ?_
      ban_empty := fun hb => absurd hban hb }
  · rw [hc, List.pairwise_append]
    refine ⟨h.sorted, List.pairwise_singleton .., fun x hx y hy => ?_⟩
    obtain rfl := List.mem_singleton.mp hy
    exact hls ▸ h.le_lastSeen x hx
  · rw [hc]
    intro x hx
    rcases List.mem_append.mp hx with hx | hx
    · exact h.le_lastSeen x hx
    · exact (List.mem_singleton.mp hx).le.trans hls.ge
  · rw [hc]
    intro x hx
    rcases List.mem_append.mp hx with hx | hx
    · exact h.nonneg x hx
    · exact (List.mem_singleton.mp hx) ▸ hls ▸ h.lastSeen_nonneg

theorem addSaturate_pos (conf : ZoneConf) (h0 : 0 ≤ now) : 0 < conf.addSaturate now conf.block := by
  have hmax : 0 < conf.plat.time.timeMax := conf.timeMax_pos
  rw [ZoneConf.addSaturate, timeAddSaturate_eq_min conf.block_pos]
  have := conf.block_pos
  omega

/-- Banning a node. -/
theorem NodeOk.banNode (h0 : 0 ≤ now) (hdata : n.data.length = digestLen)
    (hlen : n.events.length = conf.threshold) (hls : n.lastSeen = now) :
    NodeOk conf now (banNode conf n now) where
  length_data := hdata
  length_events := hlen
  head_lt := conf.threshold_pos
  count_lt := conf.threshold_pos
  sorted := List.Pairwise.nil
  le_lastSeen := by simp [Node.contents, ErrorAbuse.banNode]
  nonneg := by simp [Node.contents, ErrorAbuse.banNode]
  lastSeen_nonneg := h0.trans hls.ge
  lastSeen_le := hls.le
  ban_nonneg := (addSaturate_pos conf h0).le
  ban_le _ := by rw [ErrorAbuse.banNode, hls]
  ban_empty _ := rfl

/-- `record` on a node is a hit on its entry. -/
theorem recordNode_simulates (h : NodeOk conf now n) (hls : n.lastSeen = now) (h0 : 0 ≤ now)
    (key : Digest) (slab : Slab) :
    NodeOk conf now (recordNode conf n now).1 ∧
      SameFrom (policy conf) now ((recordNode conf n now).1.entry conf)
        ((n.entry conf).hit (policy conf) now).1 ∧
      (recordNode conf n now).2 =
        (Call.record key now slab).verdict conf ((n.entry conf).hit (policy conf) now).2 := by
  by_cases hb : n.blockedUntil > now
  · have hrec : recordNode conf n now = (n, ⟨.busy, some (conf.threshold, n.blockedUntil)⟩) := by
      simp only [recordNode_eq, if_pos hb]
    simp only [hrec, Entry.hit, standing_of_gt h0 hb]
    exact ⟨h, .refl now _, rfl⟩
  · obtain ⟨hst, hlift⟩ := standing_of_not_gt conf hb
    have hl : NodeOk conf now (liftNode n) := h.liftNode
    obtain ⟨p, hpdef⟩ : ∃ p, p = pruneEvents conf (liftNode n) now := ⟨_, rfl⟩
    have hp : NodeOk conf now p := hpdef ▸ hl.pruneEvents now
    have hpls : p.lastSeen = now := by rw [hpdef]; exact (lastSeen_liftNode n).trans hls
    have hpb : p.blockedUntil = 0 := by rw [hpdef]; exact blockedUntil_liftNode n
    have hcont : p.contents conf = window (now - conf.interval) ((liftNode n).contents conf) := by
      rw [hpdef]; exact contents_pruneEvents hl now
    rw [← hcont] at hst
    rw [recordNode_of_not_gt h0 hb hpdef, Entry.hit_of_counting hst, hlift, length_contents]
    by_cases hth : conf.threshold ≤ p.eventCount + 1
    · have hne : conf.addSaturate now conf.block ≠ 0 := (addSaturate_pos conf h0).ne'
      have he : (banNode conf (pushEvent conf p now) now).entry conf =
          ⟨[], some (conf.addSaturate now conf.block)⟩ := by
        simp [Node.entry, banNode, Node.contents, hne]
      rw [if_pos hth, if_pos (show (policy conf).threshold ≤ _ from hth)]
      refine ⟨.banNode h0 hp.length_data (by simp [pushEvent, hp.length_events]) hpls, he ▸ .refl now _, ?_⟩
      by_cases hd : now < conf.addSaturate now conf.block
      · rw [if_pos hd, if_pos (show now < (policy conf).ban now from hd)]
        rfl
      · rw [if_neg hd, if_neg (show ¬ now < (policy conf).ban now from hd)]
        rfl
    · have he : (pushEvent conf p now).entry conf = ⟨p.contents conf ++ [now], none⟩ := by
        rw [← contents_pushEvent hp now, Node.entry,
          if_pos (show (pushEvent conf p now).blockedUntil = 0 from hpb)]
      rw [if_neg hth, if_neg (show ¬ (policy conf).threshold ≤ _ from hth)]
      refine ⟨hp.pushEvent hpls (not_le.mp hth) hpb, ?_, rfl⟩
      simp only [he, hcont]
      refine .of_window fun t ht => ?_
      have hw := window_window (policy_cutoff_mono conf ht) ((liftNode n).contents conf)
      rw [window_append, window_append]
      exact congrArg (· ++ window _ [now]) hw

/-- `isBlocked` on a node is a look at its entry. -/
theorem isBlockedNode_simulates (h : NodeOk conf now n) (h0 : 0 ≤ now) (key : Digest) :
    NodeOk conf now (isBlockedNode conf n now).1 ∧
      SameFrom (policy conf) now ((isBlockedNode conf n now).1.entry conf)
        ((n.entry conf).check (policy conf) now).1 ∧
      (isBlockedNode conf n now).2 =
        (Call.isBlocked key now).verdict conf ((n.entry conf).check (policy conf) now).2 := by
  by_cases hb : n.blockedUntil > now
  · have hrec : isBlockedNode conf n now = (n, ⟨.ok, some (conf.threshold, n.blockedUntil)⟩) := by
      simp only [isBlockedNode_eq, if_pos hb]
    simp only [hrec, Entry.check, standing_of_gt h0 hb]
    exact ⟨h, .refl now _, rfl⟩
  · obtain ⟨hst, hlift⟩ := standing_of_not_gt conf hb
    simp only [isBlockedNode_eq, if_neg hb, Entry.check, hst, hlift]
    by_cases hz : n.blockedUntil = 0
    · have hl : liftNode n = n := by simp [liftNode, hz]
      have hc := contents_pruneEvents h now
      simp only [hz, ne_eq, not_true, if_false, hl]
      refine ⟨h.pruneEvents now, ?_, ?_⟩
      · simp only [Node.entry, hz, hc, if_true, show (pruneEvents conf n now).blockedUntil = 0 from hz]
        exact sameFrom_window (policy_cutoff_mono conf) _ now
      · rw [← hc, length_contents]; rfl
    · have hl : liftNode n = { n with blockedUntil := 0, eventHead := 0, eventCount := 0 } := by
        simp [liftNode, hz]
      simp only [ne_eq, hz, not_false_eq_true, if_true, hl]
      exact ⟨h.cleared, .refl now _, rfl⟩

/-- **A call on a node is the limiter's step on its entry.** -/
theorem Call.onNode_simulates (c : Call) (h : NodeOk conf c.now n) (hls : n.lastSeen = c.now)
    (h0 : 0 ≤ c.now) :
    NodeOk conf c.now (c.onNode conf n).1 ∧
      SameFrom (policy conf) c.now ((c.onNode conf n).1.entry conf)
        (c.apply (policy conf) (n.entry conf)).1 ∧
      (c.onNode conf n).2 = c.verdict conf (c.apply (policy conf) (n.entry conf)).2 := by
  cases c with
  | record key now slab => exact recordNode_simulates h hls h0 key slab
  | isBlocked key now => exact isBlockedNode_simulates h h0 key

/-! ## One call on a zone -/

/-- A zone at time `t`: a consistent index of well-formed nodes. -/
structure ZoneOk (core : Core) (conf : ZoneConf) (t : ℤ) (s : Shctx) : Prop where
  indexed : Indexed core s
  nodes : ∀ {key n}, nodeOf core s key = some n → NodeOk conf t n

theorem ZoneOk.mono (h : ZoneOk core conf t s) (hle : t ≤ now) : ZoneOk core conf now s :=
  ⟨h.indexed, fun hn => (h.nodes hn).mono hle⟩

/-- A zone at time `t` that may still hold nodes from before the epoch. -/
structure Settled (core : Core) (conf : ZoneConf) (t : ℤ) (s : Shctx) : Prop where
  indexed : Indexed core s
  nodes : ∀ {key n}, nodeOf core s key = some n → NodeOk conf t n ∨ Dormant conf n

theorem ZoneOk.settled (h : ZoneOk core conf t s) : Settled core conf t s :=
  ⟨h.indexed, fun hn => .inl (h.nodes hn)⟩

theorem Settled.mono (h : Settled core conf t s) (hle : t ≤ now) : Settled core conf now s :=
  ⟨h.indexed, fun hn => (h.nodes hn).imp_left fun hok => hok.mono hle⟩

theorem zoneOk_empty (core : Core) (conf : ZoneConf) (t : ℤ) : ZoneOk core conf t .empty where
  indexed := indexed_empty core
  nodes h := by simp [nodeOf, lookup, Shctx.empty, lookupFrom] at h

theorem entryOf_some {key : Key} (h : nodeOf core s key = some n) :
    entryOf core conf s key = n.entry conf := by rw [entryOf, h]; rfl

theorem entryOf_none {key : Key} (h : nodeOf core s key = none) :
    entryOf core conf s key = .empty := by rw [entryOf, h]; rfl

theorem entryOf_congr {key : Key} (h : nodeOf core s' key = nodeOf core s key) :
    entryOf core conf s' key = entryOf core conf s key := by rw [entryOf, entryOf, h]

/-- A node that expiry may remove holds nothing that still counts. -/
theorem NodeOk.sameFrom_empty (h : NodeOk conf t n) (hmax : now < conf.timeMax)
    (hb : n.blockedUntil ≤ now) (hi : conf.addSaturate n.lastSeen conf.inactive ≤ now) :
    SameFrom (policy conf) now (n.entry conf) .empty := by
  have hdead : n.lastSeen + conf.inactive ≤ now :=
    add_le_of_timeAddSaturate_le conf.inactive_pos hmax hi
  refine Limiter.sameFrom_empty (policy_cutoff_mono conf) ?_ ?_
  · intro x hx
    have hx' : x ≤ n.lastSeen := h.le_lastSeen x hx
    have := conf.interval_le_inactive
    change x ≤ now - conf.interval
    omega
  · intro d hd
    simp only [Node.entry] at hd
    split_ifs at hd
    exact Option.some.inj hd ▸ hb

namespace Shrinks

variable {lost : List Key}

theorem settled (h : Shrinks core conf now lost s s') (hs : Settled core conf t s) :
    Settled core conf t s' :=
  ⟨h.indexed, fun hn => hs.nodes (h.nodeOf_some hs.indexed hn)⟩

/-- Housekeeping cannot be observed, forced eviction apart. -/
theorem sameFrom (h : Shrinks core conf now lost s s') (hs : Settled core conf t s)
    (hmax : now < conf.timeMax) {key : Key} (hk : key ∉ lost) :
    SameFrom (policy conf) now (entryOf core conf s' key) (entryOf core conf s key) := by
  rcases h.nodeOf hs.indexed key with he | ⟨hn', n, hn, hb, hi | hl⟩
  · rw [entryOf_congr he]
  · rw [entryOf_none hn', entryOf_some hn]
    rcases hs.nodes hn with hok | hdormant
    · exact (hok.sameFrom_empty hmax hb hi).symm
    · rw [hdormant.entry_eq]
  · exact absurd hl hk

end Shrinks

/-- The limiter's step respects agreement. -/
theorem Call.apply_sameFrom (c : Call) {P : Policy ℤ} {e e' : Entry ℤ}
    (h : SameFrom P c.now e e') :
    SameFrom P c.now (c.apply P e).1 (c.apply P e').1 ∧ (c.apply P e).2 = (c.apply P e').2 := by
  cases c with
  | record key now slab => exact ⟨h.hit, h.hit_answer⟩
  | isBlocked key now =>
      exact ⟨((SameFrom.check e now).trans h).trans (SameFrom.check e' now).symm, h.check_answer⟩

/-- What a deciding call that force-evicts `lost` does to the entries of a zone: its own
key's entry takes the limiter's step, unless the call failed, and no other key's entry
changes, unless it was lost. -/
structure Simulates (core : Core) (conf : ZoneConf) (c : Call) (lost : List Key) (s s' : Shctx)
    (v : Verdict) : Prop where
  evicted : s'.evicted = lost ++ s.evicted
  spared : (c.key : Key) ∉ lost
  other : ∀ key : Key, key ≠ c.key → key ∉ lost →
    SameFrom (policy conf) c.now (entryOf core conf s' key) (entryOf core conf s key)
  failed : v.rc = .error →
    SameFrom (policy conf) c.now (entryOf core conf s' c.key) (entryOf core conf s c.key)
  answered : v.rc ≠ .error →
    v = c.verdict conf (c.apply (policy conf) (entryOf core conf s c.key)).2 ∧
      SameFrom (policy conf) c.now (entryOf core conf s' c.key)
        (c.apply (policy conf) (entryOf core conf s c.key)).1
  noFailure : c.NoFailure core conf s → lost = [] ∧ v.rc ≠ .error

/-- The node a call works on is well-formed, was just seen, and packs the entry its
key has. -/
theorem Call.Subject.spec {c : Call} (h : c.Subject core conf s n) (hs : Settled core conf t s)
    (ht : t ≤ c.now) (h0 : 0 ≤ c.now) :
    NodeOk conf c.now n ∧ n.lastSeen = c.now ∧ n.entry conf = entryOf core conf s c.key := by
  cases h with
  | found n hn =>
      refine ⟨?_, rfl, (entryOf_some hn).symm⟩
      rcases hs.nodes hn with hok | hdormant
      · exact hok.seen ht
      · exact hdormant.seen h0
  | created hr hn => exact ⟨.fresh conf _ _ h0, rfl, (entryOf_none hn).symm⟩

/-- After a deciding call a node is well-formed, or it was there before. -/
theorem exec_nodes (hs : Settled core conf t s) (c : Call) (ht : t ≤ c.now) (h0 : 0 ≤ c.now)
    {key : Key} (hn : nodeOf core (c.exec core conf s).1 key = some n) :
    NodeOk conf c.now n ∨ nodeOf core s key = some n := by
  obtain ⟨lost, s₁, hsh, -, heff, -⟩ := exec_effect conf hs.indexed c
  have hkept : nodeOf core s₁ key = some n → nodeOf core s key = some n :=
    hsh.nodeOf_some hs.indexed
  generalize c.exec core conf s = r at heff hn
  cases heff with
  | absent _ _ => exact .inr (hkept hn)
  | full _ _ => exact .inr (hkept hn)
  | wrote m s' hsub _ _ _ _ hnode =>
      obtain ⟨hm, hls, -⟩ := hsub.spec (hsh.settled hs) ht h0
      obtain ⟨hm', -, -⟩ := c.onNode_simulates hm hls h0
      rw [hnode] at hn
      split_ifs at hn
      · exact .inl (Option.some.inj hn ▸ hm')
      · exact .inr (hkept hn)

/-- A deciding call keeps a zone well-formed. -/
theorem exec_zoneOk (hs : ZoneOk core conf t s) (c : Call) (ht : t ≤ c.now) (h0 : 0 ≤ c.now) :
    ZoneOk core conf c.now (c.exec core conf s).1 := by
  refine ⟨callStep_indexed conf hs.indexed c, fun hn => ?_⟩
  rcases exec_nodes hs.settled c ht h0 hn with hok | hn
  · exact hok
  · exact (hs.nodes hn).mono ht

theorem exec_settled (hs : Settled core conf t s) (c : Call) (ht : t ≤ c.now) (h0 : 0 ≤ c.now) :
    Settled core conf c.now (c.exec core conf s).1 := by
  refine ⟨callStep_indexed conf hs.indexed c, fun hn => ?_⟩
  rcases exec_nodes hs c ht h0 hn with hok | hn
  · exact .inl hok
  · exact (hs.mono ht).nodes hn

/-- **A deciding call simulates the limiter's step.** -/
theorem exec_simulates (hs : Settled core conf t s) (c : Call) (ht : t ≤ c.now) (h0 : 0 ≤ c.now)
    (hmax : c.now < conf.timeMax) :
    ∃ lost, Simulates core conf c lost s (c.exec core conf s).1 (c.exec core conf s).2 := by
  obtain ⟨lost, s₁, hsh, hkey, heff, hnf⟩ := exec_effect conf hs.indexed c
  have hs₁ : Settled core conf t s₁ := hsh.settled hs
  have hsame : ∀ {key}, key ∉ lost →
      SameFrom (policy conf) c.now (entryOf core conf s₁ key) (entryOf core conf s key) :=
    fun hk => hsh.sameFrom hs hmax hk
  obtain ⟨happ, hans⟩ := c.apply_sameFrom (hsame hkey)
  generalize c.exec core conf s = r at heff hnf
  refine ⟨lost, ?_⟩
  cases heff with
  | absent hc hn =>
      refine ⟨hsh.evicted, hkey, fun key _ hk => hsame hk, fun _ => hsame hkey, fun _ => ?_, hnf⟩
      rw [entryOf_none hn] at happ hans
      cases c with
      | record key now slab => cases hc
      | isBlocked key now =>
          rw [← hans, entryOf_none hn]
          exact ⟨rfl, happ⟩
  | full hc hn =>
      exact ⟨hsh.evicted, hkey, fun key _ hk => hsame hk, fun _ => hsame hkey,
        fun h => absurd rfl h, hnf⟩
  | wrote n s' hsub hidx hev hrefused hblocks hnode =>
      obtain ⟨hn, hls, he⟩ := hsub.spec hs₁ ht h0
      obtain ⟨hn', hst, hv⟩ := c.onNode_simulates hn hls h0
      have hself : entryOf core conf s' c.key = (c.onNode conf n).1.entry conf :=
        entryOf_some (by rw [hnode, if_pos rfl])
      refine ⟨hev.trans hsh.evicted, hkey, fun key hne hk => ?_,
        fun h => absurd h (c.onNode_rc_ne_error conf n), fun _ => ?_, hnf⟩
      · have hother : entryOf core conf s' key = entryOf core conf s₁ key :=
          entryOf_congr (by rw [hnode, if_neg hne])
        rw [hother]
        exact hsame hk
      · rw [hself, hv, he, hans]
        rw [he] at hst
        exact ⟨rfl, hst.trans happ⟩

/-! ## Two zones that cannot be told apart -/

/-- The verdicts of a run of calls. -/
def verdicts (core : Core) (conf : ZoneConf) : Shctx → List Call → List Verdict
  | _, [] => []
  | s, c :: cs => (c.exec core conf s).2 :: verdicts core conf (callStep core conf s c) cs

/-- Two well-formed zones whose keys cannot be told apart at `t` or later. -/
structure Alike (core : Core) (conf : ZoneConf) (t : ℤ) (s s' : Shctx) : Prop where
  left : ZoneOk core conf t s
  right : ZoneOk core conf t s'
  entries : ∀ key : Key,
    SameFrom (policy conf) t (entryOf core conf s key) (entryOf core conf s' key)

/-- A call without the allocator's answers. -/
def Call.request : Call → Call
  | record key now _ => .record key now fun _ => none
  | isBlocked key now => .isBlocked key now

theorem Call.key_request (c : Call) : c.request.key = c.key := by cases c <;> rfl

theorem Call.now_request (c : Call) : c.request.now = c.now := by cases c <;> rfl

theorem Call.apply_request (P : Policy ℤ) (e : Entry ℤ) (c : Call) :
    c.request.apply P e = c.apply P e := by cases c <;> rfl

theorem Call.verdict_request (conf : ZoneConf) (c : Call) :
    c.request.verdict conf = c.verdict conf := by
  funext answer
  cases c <;> cases answer <;> rfl

theorem Call.key_of_request {c c' : Call} (h : c.request = c'.request) : c'.key = c.key := by
  rw [← c'.key_request, ← h, c.key_request]

theorem Call.now_of_request {c c' : Call} (h : c.request = c'.request) : c'.now = c.now := by
  rw [← c'.now_request, ← h, c.now_request]

theorem Call.isRecord_of_request {c c' : Call} (h : c.request = c'.request) :
    c'.isRecord = c.isRecord := by
  cases c <;> cases c' <;> simp [request] at h <;> rfl

theorem Call.verdict_of_request (conf : ZoneConf) {c c' : Call} (h : c.request = c'.request) :
    c'.verdict conf = c.verdict conf := by
  rw [← c'.verdict_request, ← h, c.verdict_request]

/-- A call that fails in neither of two zones whose keys cannot be told apart reports the same
in both, whatever blocks the two allocators hand out, and they still cannot be told apart. -/
theorem exec_sameFrom (hs : Settled core conf t s) (hs' : Settled core conf t s')
    (hentries : ∀ key : Key,
      SameFrom (policy conf) t (entryOf core conf s key) (entryOf core conf s' key))
    {c c' : Call} (hreq : c.request = c'.request)
    (ht : t ≤ c.now) (h0 : 0 ≤ c.now) (hmax : c.now < conf.timeMax)
    (hnf : c.NoFailure core conf s) (hnf' : c'.NoFailure core conf s') :
    (c.exec core conf s).2 = (c'.exec core conf s').2 ∧
      ∀ key : Key, SameFrom (policy conf) c.now (entryOf core conf (callStep core conf s c) key)
        (entryOf core conf (callStep core conf s' c') key) := by
  have hkey : c'.key = c.key := Call.key_of_request hreq
  have hnow : c'.now = c.now := Call.now_of_request hreq
  have happly : ∀ e, c'.apply (policy conf) e = c.apply (policy conf) e := fun e => by
    rw [← c'.apply_request, ← hreq, c.apply_request]
  have hverdict : c'.verdict conf = c.verdict conf := Call.verdict_of_request conf hreq
  obtain ⟨lost, hsim⟩ := exec_simulates hs c ht h0 hmax
  obtain ⟨lost', hsim'⟩ := exec_simulates hs' c' (hnow ▸ ht) (hnow ▸ h0) (hnow ▸ hmax)
  obtain ⟨rfl, hrc⟩ := hsim.noFailure hnf
  obtain ⟨rfl, hrc'⟩ := hsim'.noFailure hnf'
  obtain ⟨hv, hself⟩ := hsim.answered hrc
  obtain ⟨hv', hself'⟩ := hsim'.answered hrc'
  have hother := hsim'.other
  simp only [hkey, hnow, happly, hverdict] at hv' hself' hother
  obtain ⟨happ, hans⟩ := c.apply_sameFrom ((hentries c.key).mono ht)
  refine ⟨by rw [hv, hv', hans], fun key => ?_⟩
  by_cases hk : key = c.key
  · subst hk
    exact (hself.trans happ).trans hself'.symm
  · have hl := hsim.other key hk List.not_mem_nil
    have hr := hother key hk List.not_mem_nil
    exact (hl.trans ((hentries key).mono ht)).trans hr.symm

/-- A call that fails in neither zone reports the same in both and leaves them alike. -/
theorem Alike.step (h : Alike core conf t s s') {c c' : Call} (hreq : c.request = c'.request)
    (ht : t ≤ c.now) (h0 : 0 ≤ c.now) (hmax : c.now < conf.timeMax)
    (hnf : c.NoFailure core conf s) (hnf' : c'.NoFailure core conf s') :
    (c.exec core conf s).2 = (c'.exec core conf s').2 ∧
      Alike core conf c.now (callStep core conf s c) (callStep core conf s' c') := by
  obtain ⟨hv, hentries⟩ :=
    exec_sameFrom h.left.settled h.right.settled h.entries hreq ht h0 hmax hnf hnf'
  have hnow : c'.now = c.now := Call.now_of_request hreq
  refine ⟨hv, exec_zoneOk h.left c ht h0, ?_, hentries⟩
  exact hnow ▸ exec_zoneOk h.right c' (hnow ▸ ht) (hnow ▸ h0)

theorem run_refused_le (conf : ZoneConf) (h : Indexed core s) (cs : List Call) :
    s.refused ≤ (run (callStep core conf) s cs).refused := by
  induction cs generalizing s with
  | nil => exact le_rfl
  | cons c cs ih => exact (exec_refused_le conf h c).trans (ih (callStep_indexed conf h c))

/-- No calls made at `t` or later and before the largest time can tell the two zones apart,
whatever blocks the two allocators hand out, as long as neither refuses one. -/
def ReportsAlike (core : Core) (conf : ZoneConf) (t : ℤ) (s s' : Shctx) : Prop :=
  ∀ cs cs' : List Call, cs.map Call.request = cs'.map Call.request → Clocked Call.now t cs →
    (∀ c ∈ cs, c.now < conf.timeMax) →
    (run (callStep core conf) s cs).refused = s.refused →
    (run (callStep core conf) s' cs').refused = s'.refused →
    verdicts core conf s cs = verdicts core conf s' cs'

/-- **Alike zones report alike.** -/
theorem Alike.reportsAlike (h : Alike core conf t s s') (h0 : 0 ≤ t) :
    ReportsAlike core conf t s s' := by
  intro cs cs' hreq hclock hmax hnf hnf'
  induction cs generalizing t s s' cs' with
  | nil =>
      obtain rfl := List.map_eq_nil_iff.mp hreq.symm
      rfl
  | cons c cs ih =>
      obtain ⟨c', cs', rfl, hc, hcs⟩ := List.map_eq_cons_iff.mp hreq.symm
      have h0' : 0 ≤ c.now := h0.trans hclock.1
      have hle := exec_refused_le conf h.left.indexed c
      have hle' := exec_refused_le conf h.right.indexed c'
      have hrest := run_refused_le conf (callStep_indexed conf h.left.indexed c) cs
      have hrest' := run_refused_le conf (callStep_indexed conf h.right.indexed c') cs'
      rw [run_cons] at hnf hnf'
      have hquiet : c.NoFailure core conf s := le_antisymm (hrest.trans hnf.le) hle
      have hquiet' : c'.NoFailure core conf s' := le_antisymm (hrest'.trans hnf'.le) hle'
      obtain ⟨hv, hnext⟩ := h.step hc.symm hclock.1 h0' (hmax c List.mem_cons_self) hquiet hquiet'
      rw [verdicts, verdicts, hv]
      congr 1
      exact ih hnext h0' cs' hcs.symm hclock.2 (fun c' hc' => hmax c' (List.mem_cons_of_mem c hc'))
        (hnf.trans hquiet.symm) (hnf'.trans hquiet'.symm)

end ErrorAbuse
