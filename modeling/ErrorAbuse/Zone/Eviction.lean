import ErrorAbuse.Lib.TailScan
import ErrorAbuse.Zone.Effects

/-!
# Bounded eviction

`evictOneUnblocked` walks the queue from its tail while moving the nodes it has passed to
its head. On a queue that holds each node once this is a bounded scan from the tail: no
node is looked at twice, and the stop marker ends the walk exactly when the whole queue has
been passed. Calls one after the other therefore get to an unblocked node however many
banned ones are behind it.
-/

namespace ErrorAbuse

open Lib

variable {core : Core} {now : ℤ} {s : Shctx} {q : Addr} {moved rest : List Addr}

/-- `evictScan`, with the nodes it examines. -/
def evictScanLogged (core : Core) (now : ℤ) (stop : Option Addr) :
    ℕ → Option Addr → Shctx → (Shctx × Bool) × List Addr
  | 0, _, s => ((s, false), [])
  | _ + 1, none, s => ((s, false), [])
  | limit + 1, some q, s =>
    let next := queuePrev s.queue q
    if (s.mem q).blockedUntil ≤ now then
      (({ delete core s q with evicted := (s.mem q).data :: s.evicted }, true), [q])
    else
      let s := touch s q
      if some q = stop then ((s, false), [q])
      else
        let r := evictScanLogged core now stop limit next s
        (r.1, q :: r.2)

/-- `evictOneUnblocked`, with the nodes it examines. -/
def evictOneUnblockedLogged (core : Core) (now : ℤ) (s : Shctx) : (Shctx × Bool) × List Addr :=
  evictScanLogged core now s.queue.head? evictScanLimit s.queue.getLast? s

theorem evictScanLogged_fst (core : Core) (now : ℤ) (stop : Option Addr) (limit : ℕ)
    (q : Option Addr) (s : Shctx) :
    (evictScanLogged core now stop limit q s).1 = evictScan core now stop limit q s := by
  induction limit generalizing q s with
  | zero => rfl
  | succ limit ih =>
      cases q with
      | none => rfl
      | some q =>
          simp only [evictScanLogged, evictScan]
          split_ifs
          · rfl
          · rfl
          · exact ih _ _

/-- A call examines no more nodes than its budget allows. -/
theorem length_evictScanLogged_le (core : Core) (now : ℤ) (stop : Option Addr) (limit : ℕ)
    (q : Option Addr) (s : Shctx) : (evictScanLogged core now stop limit q s).2.length ≤ limit := by
  induction limit generalizing q s with
  | zero => simp [evictScanLogged]
  | succ limit ih =>
      cases q with
      | none => simp [evictScanLogged]
      | some q =>
          simp only [evictScanLogged]
          split_ifs
          · simp
          · simp
          · simpa using ih _ _

/-! ## One step of the walk -/

/-- The neighbour of the last node towards the head. -/
theorem queuePrev_concat {l : List Addr} (h : (l ++ [q]).Nodup) :
    queuePrev (l ++ [q]) q = l.getLast? := by
  induction l with
  | nil => rfl
  | cons a l ih =>
      cases l with
      | nil => simp [queuePrev]
      | cons b l =>
          have hb : b ≠ q := by
            intro he
            subst he
            simp at h
          have hcons : queuePrev (a :: b :: (l ++ [q])) q = queuePrev (b :: (l ++ [q])) q :=
            if_neg hb
          rw [List.cons_append, List.cons_append, hcons]
          have h' := ih (List.nodup_cons.mp h).2
          rw [List.cons_append] at h'
          rw [h', List.getLast?_cons_cons]

/-- The walk from `q` with `rest` still ahead of it: the marker is reached exactly when
nothing is ahead, and otherwise the node nearest `q` comes next. -/
theorem walk_next (hq : s.queue = moved ++ (q :: rest).reverse) (hnd : s.queue.Nodup) :
    (some q = (q :: rest).getLast? ↔ rest = []) ∧
      (rest ≠ [] → queuePrev s.queue q = rest.head?) := by
  rw [List.reverse_cons, ← List.append_assoc] at hq
  rw [hq] at hnd ⊢
  have hnot : q ∉ rest := by
    intro hm
    exact (List.nodup_append.mp hnd).2.2 q (by simp [hm]) q (List.mem_singleton_self q) rfl
  constructor
  · constructor
    · intro h
      by_contra hne
      rw [List.getLast?_cons, List.getLast?_eq_some_getLast hne, Option.getD_some,
        Option.some.injEq] at h
      exact hnot (h ▸ List.getLast_mem hne)
    · intro h
      subst h
      rfl
  · intro hne
    rw [queuePrev_concat hnd, List.getLast?_append_of_ne_nil _ (by simpa using hne),
      List.getLast?_reverse]

/-- Moving the last node to the head. -/
theorem queue_touch_concat {l : List Addr} (hq : s.queue = l ++ [q]) (hnd : s.queue.Nodup) :
    s.queue.erase q = l ∧ (touch s q).queue = q :: l ∧ (touch s q).queue.Nodup := by
  rw [hq] at hnd
  have hnot : q ∉ l := fun hm =>
    (List.nodup_append.mp hnd).2.2 q hm q (List.mem_singleton_self q) rfl
  have herase : s.queue.erase q = l := by
    simp [hq, List.erase_append_right _ hnot]
  have htouch : (touch s q).queue = q :: l := by
    rw [← herase]
    rfl
  refine ⟨herase, htouch, ?_⟩
  rw [htouch]
  exact List.nodup_cons.mpr ⟨hnot, (List.nodup_append.mp hnd).1⟩

/-! ## The walk is a bounded scan -/

/-- A ban in force. -/
def bannedAt (now : ℤ) (s : Shctx) (a : Addr) : Bool := now < (s.mem a).blockedUntil

/-- What a scan of the queue comes to in the zone. -/
def applyScan (core : Core) (s : Shctx) (r : List Addr × Option Addr) : Shctx × Bool :=
  match r.2 with
  | none => ({ s with queue := r.1 }, false)
  | some u =>
    ({ delete core s u with queue := r.1, evicted := (s.mem u).data :: s.evicted }, true)

theorem evictScan_eq (core : Core) (now : ℤ) (limit : ℕ) (hq : s.queue = moved ++ rest.reverse)
    (hnd : s.queue.Nodup) :
    evictScan core now rest.getLast? limit rest.head? s =
      applyScan core s (scanFrom (bannedAt now s) limit moved rest) := by
  induction limit generalizing s moved rest with
  | zero =>
      rw [scanFrom, ← hq]
      rfl
  | succ limit ih =>
      cases rest with
      | nil =>
          have hmoved : s.queue = moved := by simpa using hq
          rw [scanFrom, ← hmoved]
          rfl
      | cons q rest =>
          obtain ⟨hstop, hnext⟩ := walk_next hq hnd
          have hlast : s.queue = (moved ++ rest.reverse) ++ [q] := by simpa using hq
          obtain ⟨herase, htouch, hnd'⟩ := queue_touch_concat hlast hnd
          rw [List.head?_cons, evictScan]
          dsimp only
          by_cases hb : (s.mem q).blockedUntil ≤ now
          · have hscan : scanFrom (bannedAt now s) (limit + 1) moved (q :: rest) =
                (moved ++ rest.reverse, some q) := if_neg (by simpa [bannedAt] using hb)
            rw [if_pos hb, hscan]
            simp only [applyScan, delete, herase]
          · have hscan : scanFrom (bannedAt now s) (limit + 1) moved (q :: rest) =
                scanFrom (bannedAt now s) limit (q :: moved) rest :=
              if_pos (by simpa [bannedAt] using hb)
            rw [if_neg hb, hscan]
            by_cases hrest : rest = []
            · subst hrest
              have hnil : scanFrom (bannedAt now s) limit (q :: moved) [] = (q :: moved, none) := by
                cases limit <;> simp [scanFrom]
              have hq' : (touch s q).queue = q :: moved := by simpa using htouch
              rw [if_pos (hstop.mpr rfl), hnil, applyScan, ← hq']
              rfl
            · rw [if_neg fun h => hrest (hstop.mp h), hnext hrest,
                List.getLast?_cons, List.getLast?_eq_some_getLast hrest, Option.getD_some,
                ← List.getLast?_eq_some_getLast hrest]
              exact ih htouch hnd'

/-- Likewise for the nodes the walk examines: they are met in order from the tail. -/
theorem evictScanLogged_prefix (core : Core) (now : ℤ) (limit : ℕ)
    (hq : s.queue = moved ++ rest.reverse) (hnd : s.queue.Nodup) :
    (evictScanLogged core now rest.getLast? limit rest.head? s).2 <+: rest := by
  induction limit generalizing s moved rest with
  | zero => exact List.nil_prefix
  | succ limit ih =>
      cases rest with
      | nil => exact List.nil_prefix
      | cons q rest =>
          obtain ⟨hstop, hnext⟩ := walk_next hq hnd
          have hlast : s.queue = (moved ++ rest.reverse) ++ [q] := by simpa using hq
          obtain ⟨-, htouch, hnd'⟩ := queue_touch_concat hlast hnd
          rw [List.head?_cons, evictScanLogged]
          dsimp only
          by_cases hb : (s.mem q).blockedUntil ≤ now
          · rw [if_pos hb]
            simp
          · rw [if_neg hb]
            by_cases hrest : rest = []
            · subst hrest
              rw [if_pos (hstop.mpr rfl)]
            · rw [if_neg fun h => hrest (hstop.mp h), hnext hrest,
                List.getLast?_cons, List.getLast?_eq_some_getLast hrest, Option.getD_some,
                ← List.getLast?_eq_some_getLast hrest]
              have hq' : (touch s q).queue = (q :: moved) ++ rest.reverse := htouch
              exact (List.prefix_cons_inj q).mpr (ih hq' hnd')

/-- **The code's walk is a bounded scan from the tail.** -/
theorem evictOneUnblocked_eq (core : Core) (now : ℤ) (hnd : s.queue.Nodup) :
    evictOneUnblocked core now s =
      applyScan core s (tailScan (bannedAt now s) evictScanLimit s.queue) := by
  have hq : s.queue = [] ++ s.queue.reverse.reverse := by simp
  have h := evictScan_eq core now evictScanLimit hq hnd
  rwa [List.getLast?_reverse, List.head?_reverse] at h

/-! ## Calls one after the other -/

/-- Move the last `k` nodes to the head of the queue. -/
def rotateQueue (k : ℕ) (s : Shctx) : Shctx := { s with queue := rotateTail k s.queue }

theorem iterate_rotateQueue (k n : ℕ) (s : Shctx) :
    (rotateQueue k)^[n] s = { s with queue := (rotateTail k)^[n] s.queue } := by
  induction n with
  | zero => rfl
  | succ n ih =>
      rw [Function.iterate_succ_apply', Function.iterate_succ_apply', ih]
      rfl

theorem nodup_rotateQueue (k n : ℕ) (hnd : s.queue.Nodup) :
    ((rotateQueue k)^[n] s).queue.Nodup := by
  rw [iterate_rotateQueue]
  exact (iterate_rotateTail_isRotated k n s.queue).nodup_iff.mpr hnd

/-- A call in a zone that has been rotated: a scan of the rotated queue. -/
theorem evict_rotated (core : Core) (now : ℤ) (hnd : s.queue.Nodup) (n : ℕ) :
    evictOneUnblocked core now ((rotateQueue evictScanLimit)^[n] s) =
      applyScan core s (tailScan (bannedAt now s) evictScanLimit
        ((rotateTail evictScanLimit)^[n] s.queue)) := by
  rw [evictOneUnblocked_eq core now (nodup_rotateQueue evictScanLimit n hnd), iterate_rotateQueue]
  rfl

/-- The states between calls, as long as each call only rotates the queue. -/
theorem iterate_evict {n : ℕ}
    (h : ∀ k < n, evictOneUnblocked core now ((rotateQueue evictScanLimit)^[k] s) =
      ((rotateQueue evictScanLimit)^[k + 1] s, false)) :
    (fun s => (evictOneUnblocked core now s).1)^[n] s = (rotateQueue evictScanLimit)^[n] s := by
  induction n with
  | zero => rfl
  | succ n ih =>
      rw [Function.iterate_succ_apply', ih fun k hk => h k (hk.trans (Nat.lt_succ_self n)),
        h n (Nat.lt_succ_self n)]

/-- While 64 banned nodes are behind the last unblocked one, a call rotates the queue. -/
theorem evict_behind (core : Core) {front banned : List Addr} {u : Addr} (hnd : s.queue.Nodup)
    (hq : s.queue = front ++ u :: banned) (hb : ∀ a ∈ banned, now < (s.mem a).blockedUntil)
    {n : ℕ} (hn : n < banned.length / evictScanLimit) :
    evictOneUnblocked core now ((rotateQueue evictScanLimit)^[n] s) =
      ((rotateQueue evictScanLimit)^[n + 1] s, false) := by
  have hheld : ∀ a ∈ banned, bannedAt now s a = true := by
    intro a ha
    simpa [bannedAt] using hb a ha
  have hroom : evictScanLimit * (n + 1) ≤ banned.length :=
    (Nat.mul_le_mul_left _ hn).trans (Nat.mul_div_le _ _)
  rw [evict_rotated core now hnd, hq, tailScan_behind hheld hroom, iterate_rotateQueue, hq]
  rfl

/-- With banned nodes only, a call rotates the queue. -/
theorem evict_all_banned (core : Core) (hnd : s.queue.Nodup)
    (hb : ∀ a ∈ s.queue, now < (s.mem a).blockedUntil) (n : ℕ) :
    evictOneUnblocked core now ((rotateQueue evictScanLimit)^[n] s) =
      ((rotateQueue evictScanLimit)^[n + 1] s, false) := by
  have hheld : ∀ a ∈ (rotateTail evictScanLimit)^[n] s.queue, bannedAt now s a = true := by
    intro a ha
    have ha' := (iterate_rotateTail_isRotated evictScanLimit n s.queue).mem_iff.mp ha
    simpa [bannedAt] using hb a ha'
  rw [evict_rotated core now hnd, tailScan_none fun a ha => hheld a (List.mem_of_mem_drop ha),
    iterate_rotateQueue, Function.iterate_succ_apply']
  rfl

/-- **Bounded eviction makes progress and is fair.** Let `u` be the unblocked node nearest
the tail, with `banned.length` nodes behind it. The first `banned.length / 64` calls fail and
only move the last 64 nodes to the head; the next one deletes `u` and leaves the others in
cyclic order. In a queue of banned nodes every call fails and deletes nothing, and if the
queue is short, moves nothing. A call examines at most 64 nodes, from the tail on and none
of them twice. -/
theorem eviction_fair (core : Core) (now : ℤ) (s : Shctx) (hnd : s.queue.Nodup) :
    let after := fun k => (fun s => (evictOneUnblocked core now s).1)^[k] s
    (∀ front u banned, s.queue = front ++ u :: banned → (s.mem u).blockedUntil ≤ now →
      (∀ a ∈ banned, now < (s.mem a).blockedUntil) →
        (∀ k < banned.length / 64,
          evictOneUnblocked core now (after k) = (rotateQueue 64 (after k), false)) ∧
        evictOneUnblocked core now (after (banned.length / 64)) =
          ({ delete core s u with
              queue := banned ++ front
              evicted := (s.mem u).data :: s.evicted }, true) ∧
        (banned ++ front).IsRotated (s.queue.erase u)) ∧
    ((∀ a ∈ s.queue, now < (s.mem a).blockedUntil) → ∀ k,
      evictOneUnblocked core now (after k) = (rotateQueue 64 (after k), false) ∧
      (after k).queue.IsRotated s.queue ∧ (s.queue.length ≤ 64 → after k = s)) ∧
    (evictOneUnblockedLogged core now s).1 = evictOneUnblocked core now s ∧
    (evictOneUnblockedLogged core now s).2.length ≤ 64 ∧
    (evictOneUnblockedLogged core now s).2 <+: s.queue.reverse := by
  intro after
  refine ⟨?_, ?_, evictScanLogged_fst .., length_evictScanLogged_le .., ?_⟩
  · intro front u banned hq hu hb
    have hstep : ∀ n < banned.length / 64,
        evictOneUnblocked core now ((rotateQueue 64)^[n] s) = ((rotateQueue 64)^[n + 1] s, false) :=
      fun n hn => evict_behind core hnd hq hb hn
    have hafter : ∀ k ≤ banned.length / 64, after k = (rotateQueue 64)^[k] s := fun k hk =>
      iterate_evict fun j hj => hstep j (hj.trans_le hk)
    refine ⟨fun k hk => ?_, ?_, ?_⟩
    · rw [hafter k hk.le, ← Function.iterate_succ_apply' (rotateQueue 64)]
      exact hstep k hk
    · have hheld : ∀ a ∈ banned, bannedAt now s a = true := by
        intro a ha
        simpa [bannedAt] using hb a ha
      have hfree : bannedAt now s u = false := by simpa [bannedAt] using hu
      have hcall := evict_rotated core now hnd (banned.length / evictScanLimit)
      rw [hq, tailScan_reaches (by decide) hheld hfree] at hcall
      rw [hafter _ le_rfl]
      exact hcall
    · have hnot : u ∉ front := by
        rw [hq] at hnd
        intro hm
        exact (List.nodup_append.mp hnd).2.2 u hm u List.mem_cons_self rfl
      rw [hq, List.erase_append_right _ hnot, List.erase_cons_head]
      exact List.isRotated_append
  · intro hb k
    have hafter : after k = (rotateQueue 64)^[k] s := iterate_evict fun j _ =>
      evict_all_banned core hnd hb j
    rw [hafter]
    refine ⟨?_, ?_, fun hshort => ?_⟩
    · rw [← Function.iterate_succ_apply' (rotateQueue 64)]
      exact evict_all_banned core hnd hb k
    · rw [iterate_rotateQueue]
      exact iterate_rotateTail_isRotated 64 k s.queue
    · rw [iterate_rotateQueue, Function.iterate_fixed (rotateTail_of_length_le hshort)]
  · have hq : s.queue = [] ++ s.queue.reverse.reverse := by simp
    have h := evictScanLogged_prefix core now evictScanLimit hq hnd
    rwa [List.getLast?_reverse, List.head?_reverse] at h

/-- A node at the tail that is banned until 22, and one in front of it that is not. -/
def oneBanned : Shctx :=
  [Call.record (.repeated 7) 1 fun _ => some 4096, .record (.repeated 7) 2 fun _ => none,
    .record (.repeated 8) 3 fun _ => some 8192].foldl (callStep .unbalanced .small) .empty

/-- A queue with 64 nodes at the tail that are banned until 22, and one in front of them, at address
0, that is not. -/
def manyBanned : Shctx :=
  { Shctx.empty with
    queue := List.range 65
    mem := fun a => { (default : Node) with blockedUntil := if a = 0 then 0 else 22 } }

/-- Behind one ban the node is deleted by the first call, behind 64 by the second: the first moves
the bans to the head. -/
theorem eviction_fair_behind :
    evictOneUnblocked .unbalanced 5 oneBanned =
      ({ delete .unbalanced oneBanned 8192 with
          queue := [4096]
          evicted := (oneBanned.mem 8192).data :: oneBanned.evicted }, true) ∧
    evictOneUnblocked .unbalanced 5 manyBanned = (rotateQueue 64 manyBanned, false) ∧
    evictOneUnblocked .unbalanced 5 (evictOneUnblocked .unbalanced 5 manyBanned).1 =
      ({ delete .unbalanced manyBanned 0 with queue := List.range' 1 64, evicted := [[]] }, true) := by
  have hone := (eviction_fair .unbalanced 5 oneBanned (by decide +kernel)).1 [] 8192 [4096]
    (by decide +kernel) (by decide +kernel) (by decide +kernel)
  have hmany := (eviction_fair .unbalanced 5 manyBanned List.nodup_range).1 [] 0 (List.range' 1 64)
    (by decide +kernel) (by decide) (by decide +kernel)
  exact ⟨hone.2.1, hmany.1 0 (by decide), hmany.2.1⟩

end ErrorAbuse
