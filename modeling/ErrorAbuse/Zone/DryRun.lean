import ErrorAbuse.Zone.Exactness
import ErrorAbuse.Zone.Runs

/-!
# Dry-run does not interfere

A request in dry-run checks for a ban before it is served and asks `peek` when its response
is an error; it never records. The check does write to the zone: it expires nodes, moves the
one it finds to the head of the queue, lifts a ban that is over and drops stale events. None
of this can be observed, so the zone stays alike to one that has only seen the requests
outside dry-run.

Both zones need room for their nodes, since what a full zone evicts depends on its queue, and
the clock has to stay below the largest time: there deadlines saturate, a node that was just
touched counts as inactive, and whichever call comes first expires it.

Nothing is asked of the clock at the other end. Before the epoch the zero deadline of a node is
still to come, so a key is reported banned as soon as it has a node, and no node ever leaves;
what keeps two such zones from being told apart is that they have nodes for the same keys.
-/

namespace ErrorAbuse

open Lib Lib.Limiter

variable {core : Core} {conf : ZoneConf} {s s' : Shctx} {n : Node} {t : ℤ}

/-- A call of a request outside dry-run, or one of the two of a request in dry-run. -/
inductive Mixed
  | enforced (c : Call)
  | dryCheck (key : Digest) (now : ℤ)
  | dryPeek (key : Digest) (now : ℤ)

/-- The clock reading of a call. -/
def Mixed.now : Mixed → ℤ
  | enforced c => c.now
  | dryCheck _ now => now
  | dryPeek _ now => now

def mixedStep (core : Core) (conf : ZoneConf) (s : Shctx) : Mixed → Shctx
  | .enforced c => callStep core conf s c
  | .dryCheck key now => callStep core conf s (.isBlocked key now)
  | .dryPeek _ _ => s

/-- The calls outside dry-run. -/
def enforced : List Mixed → List Call
  | [] => []
  | .enforced c :: l => c :: enforced l
  | _ :: l => enforced l

/-- What these calls report. -/
def enforcedVerdicts (core : Core) (conf : ZoneConf) : Shctx → List Mixed → List Verdict
  | _, [] => []
  | s, .enforced c :: l => (c.exec core conf s).2 :: enforcedVerdicts core conf (callStep core conf s c) l
  | s, m :: l => enforcedVerdicts core conf (mixedStep core conf s m) l

/-! ## Calls before the epoch -/

/-- The zone has a node for the key. -/
def Tracked (core : Core) (s : Shctx) (key : Key) : Prop := ∃ n, nodeOf core s key = some n

theorem Call.Subject.dormant {c : Call} (h : c.Subject core conf s n)
    (hs : EveryNode core (Dormant conf) s) : Dormant conf n := by
  cases h with
  | found n hn =>
      have hd := hs _ n hn
      exact ⟨hd.length_data, hd.length_events, hd.eventHead_eq, hd.eventCount_eq, hd.blockedUntil_eq⟩
  | created _ _ => exact .fresh conf _ _ c.now

/-- Before the epoch a node is reported banned and left as it is. -/
theorem Dormant.onNode_eq (h : Dormant conf n) (c : Call) (hnow : c.now < 0) :
    c.onNode conf n = (n, c.verdict conf (.banned 0)) := by
  have hbanned := c.onNode_of_banned conf (n := n) (h.blockedUntil_eq.symm ▸ hnow)
  rwa [h.blockedUntil_eq] at hbanned

theorem entryOf_of_dormant (h : EveryNode core (Dormant conf) s) (key : Key) :
    entryOf core conf s key = .empty := by
  cases hn : nodeOf core s key with
  | none => exact entryOf_none hn
  | some n => rw [entryOf_some hn, (h key n hn).entry_eq]

/-- What a call before the epoch does: no node leaves, an event of a new key leaves a node
behind, and the call reports a ban if its key then has a node. -/
theorem exec_early (h : Indexed core s) (hs : EveryNode core (Dormant conf) s) (c : Call)
    (hnow : c.now < 0) :
    EveryNode core (Dormant conf) (callStep core conf s c) ∧
      (c.NoFailure core conf s →
        (∀ key, Tracked core (callStep core conf s c) key ↔
          Tracked core s key ∨ c.isRecord = true ∧ key = c.key) ∧
        (Tracked core s c.key ∨ c.isRecord = true →
          (c.exec core conf s).2 = c.verdict conf (.banned 0)) ∧
        (¬ Tracked core s c.key → c.isRecord = false →
          (c.exec core conf s).2 = ⟨.declined, some (0, 0)⟩)) := by
  obtain ⟨lost, s₁, hsh, -, heff, hnf⟩ := exec_effect conf h c
  have hsame : ∀ key, nodeOf core s₁ key = nodeOf core s key := by
    intro key
    rcases hsh.nodeOf h key with he | ⟨-, n, hn, hb, -⟩
    · exact he
    · rw [(hs key n hn).blockedUntil_eq] at hb
      omega
  have hs₁ : EveryNode core (Dormant conf) s₁ := fun key n hn => hs key n (hsame key ▸ hn)
  rw [callStep]
  generalize c.exec core conf s = r at heff hnf
  cases heff with
  | absent hc hn =>
      refine ⟨hs₁, fun _ => ⟨fun key => ?_, fun hor => ?_, fun _ _ => rfl⟩⟩
      · simp [Tracked, hsame, hc]
      · simp [Tracked, ← hsame, hn, hc] at hor
  | full _ _ => exact ⟨hs₁, fun hquiet => absurd rfl (hnf hquiet).2⟩
  | wrote m s' hsub _ _ _ _ hnode =>
      have hm : Dormant conf m := hsub.dormant hs₁
      rw [hm.onNode_eq c hnow] at hnode ⊢
      refine ⟨fun key n hn => ?_, fun _ => ⟨fun key => ?_, fun _ => rfl, fun habsent hc => ?_⟩⟩
      · rw [hnode] at hn
        split_ifs at hn
        · exact Option.some.inj hn ▸ hm
        · exact hs₁ key n hn
      · rw [Tracked, Tracked, hnode]
        split_ifs with hk
        · subst hk
          cases hsub with
          | found n hn => simp [← hsame, hn]
          | created hc _ => simp [hc]
        · simp [hsame, hk]
      · cases hsub with
        | found n hn => exact absurd ⟨n, hsame c.key ▸ hn⟩ habsent
        | created hc' _ => simp [hc] at hc'

/-! ## Zones that cannot be told apart -/

theorem refused_expire (now : ℤ) (limit : ℕ) (s : Shctx) :
    (expire core conf now limit s).refused = s.refused := by
  induction limit generalizing s with
  | zero => rfl
  | succ limit ih =>
      rw [expire]
      split
      · rfl
      · split_ifs
        · rfl
        · exact ih _

/-- A check asks the allocator for nothing. -/
theorem isBlocked_noFailure (s : Shctx) (key : Digest) (now : ℤ) :
    (Call.isBlocked key now).NoFailure core conf s := by
  have hexpire : (expire core conf now 2 s).refused = s.refused := refused_expire now 2 s
  rw [Call.NoFailure, Call.exec, isBlocked_eq, findTouchLocked_eq]
  cases lookup (expire core conf now 2 s) (core.crc32Short key) key <;> exact hexpire

/-- A zone at time `t`: before the epoch it has only seen calls from before the epoch. -/
structure Dated (core : Core) (conf : ZoneConf) (t : ℤ) (s : Shctx) : Prop where
  settled : Settled core conf t s
  early : t < 0 → EveryNode core (Dormant conf) s

namespace Dated

theorem empty (core : Core) (conf : ZoneConf) (t : ℤ) : Dated core conf t .empty :=
  ⟨(zoneOk_empty core conf t).settled, fun _ => everyNode_empty core _⟩

theorem mono (h : Dated core conf t s) {now : ℤ} (hle : t ≤ now) : Dated core conf now s :=
  ⟨h.settled.mono hle, fun hneg => h.early (hle.trans_lt hneg)⟩

theorem step (h : Dated core conf t s) (c : Call) (ht : t ≤ c.now) :
    Dated core conf c.now (callStep core conf s c) := by
  by_cases hneg : c.now < 0
  · have hearly := (exec_early h.settled.indexed (h.early (ht.trans_lt hneg)) c hneg).1
    exact ⟨⟨callStep_indexed conf h.settled.indexed c, fun hn => .inr (hearly _ _ hn)⟩,
      fun _ => hearly⟩
  · exact ⟨exec_settled h.settled c ht (not_lt.mp hneg), fun h => absurd h hneg⟩

end Dated

/-- Two zones that cannot be told apart at `t` or later. -/
structure Twins (core : Core) (conf : ZoneConf) (t : ℤ) (s s' : Shctx) : Prop where
  left : Dated core conf t s
  right : Dated core conf t s'
  entries : ∀ key : Key,
    SameFrom (policy conf) t (entryOf core conf s key) (entryOf core conf s' key)
  tracked : t < 0 → ∀ key, Tracked core s key ↔ Tracked core s' key

namespace Twins

theorem refl (h : Dated core conf t s) : Twins core conf t s s :=
  ⟨h, h, fun _ => .refl _ _, fun _ _ => Iff.rfl⟩

theorem mono (h : Twins core conf t s s') {now : ℤ} (hle : t ≤ now) :
    Twins core conf now s s' :=
  ⟨h.left.mono hle, h.right.mono hle, fun key => (h.entries key).mono hle,
    fun hneg => h.tracked (hle.trans_lt hneg)⟩

/-- Before the epoch the keys with nodes are all there is to compare. -/
theorem of_early (left : Dated core conf t s) (right : Dated core conf t s') (hneg : t < 0)
    (htracked : ∀ key, Tracked core s key ↔ Tracked core s' key) : Twins core conf t s s' := by
  refine ⟨left, right, fun key => ?_, fun _ => htracked⟩
  rw [entryOf_of_dormant (left.early hneg), entryOf_of_dormant (right.early hneg)]

/-- A call that fails in neither zone reports the same in both, and they stay twins, whatever
blocks the two allocators hand out. -/
theorem step (h : Twins core conf t s s') {c c' : Call} (hreq : c.request = c'.request)
    (ht : t ≤ c.now) (hmax : c.now < conf.timeMax)
    (hnf : c.NoFailure core conf s) (hnf' : c'.NoFailure core conf s') :
    (c.exec core conf s).2 = (c'.exec core conf s').2 ∧
      Twins core conf c.now (callStep core conf s c) (callStep core conf s' c') := by
  have hnow : c'.now = c.now := Call.now_of_request hreq
  have left := h.left.step c ht
  have right := h.right.step c' (hnow ▸ ht)
  rw [hnow] at right
  by_cases hneg : c.now < 0
  · have ht' : t < 0 := ht.trans_lt hneg
    have hkey : c'.key = c.key := Call.key_of_request hreq
    have hrecord : c'.isRecord = c.isRecord := Call.isRecord_of_request hreq
    obtain ⟨htracked, hbanned, hdeclined⟩ :=
      (exec_early h.left.settled.indexed (h.left.early ht') c hneg).2 hnf
    obtain ⟨htracked', hbanned', hdeclined'⟩ :=
      (exec_early h.right.settled.indexed (h.right.early ht') c' (hnow ▸ hneg)).2 hnf'
    rw [hkey, hrecord, ← h.tracked ht'] at hbanned' hdeclined'
    refine ⟨?_, of_early left right hneg fun key => ?_⟩
    · by_cases hnode : Tracked core s c.key ∨ c.isRecord = true
      · rw [hbanned hnode, hbanned' hnode, Call.verdict_of_request conf hreq]
      · obtain ⟨habsent, hcheck⟩ := not_or.mp hnode
        rw [hdeclined habsent (by simpa using hcheck), hdeclined' habsent (by simpa using hcheck)]
    · rw [htracked, htracked', hkey, hrecord, h.tracked ht']
  · obtain ⟨hv, hentries⟩ := exec_sameFrom h.left.settled h.right.settled h.entries hreq ht
      (not_lt.mp hneg) hmax hnf hnf'
    exact ⟨hv, left, right, hentries, fun h => absurd h hneg⟩

/-- A check in one of the two zones leaves them twins. -/
theorem check_left (h : Twins core conf t s s') (key : Digest) {now : ℤ} (ht : t ≤ now)
    (hmax : now < conf.timeMax) :
    Twins core conf now (callStep core conf s (.isBlocked key now)) s' := by
  have left : Dated core conf now (callStep core conf s (.isBlocked key now)) :=
    h.left.step (.isBlocked key now) ht
  have right := h.right.mono ht
  have hnf : (Call.isBlocked key now).NoFailure core conf s := isBlocked_noFailure s key now
  by_cases hneg : now < 0
  · have ht' : t < 0 := ht.trans_lt hneg
    obtain ⟨htracked, -, -⟩ :=
      (exec_early h.left.settled.indexed (h.left.early ht') (.isBlocked key now) hneg).2 hnf
    refine of_early left right hneg fun k => ?_
    rw [htracked, h.tracked ht' k]
    simp [Call.isRecord]
  · obtain ⟨lost, hsim⟩ := exec_simulates h.left.settled (.isBlocked key now) ht (not_lt.mp hneg) hmax
    obtain ⟨rfl, hrc⟩ := hsim.noFailure hnf
    refine ⟨left, right, fun k => ?_, fun h => absurd h hneg⟩
    have hbefore := (h.entries k).mono ht
    by_cases hk : k = key
    · subst hk
      have hself := (hsim.answered hrc).2
      exact (hself.trans (SameFrom.check _ now)).trans hbefore
    · exact (hsim.other k hk List.not_mem_nil).trans hbefore

end Twins

/-! ## Room -/

theorem mixedStep_refused_le (conf : ZoneConf) (h : Indexed core s) (m : Mixed) :
    s.refused ≤ (mixedStep core conf s m).refused := by
  cases m with
  | enforced c => exact exec_refused_le conf h c
  | dryCheck key now => exact exec_refused_le conf h (.isBlocked key now)
  | dryPeek key now => exact le_rfl

theorem mixedStep_indexed (conf : ZoneConf) (h : Indexed core s) (m : Mixed) :
    Indexed core (mixedStep core conf s m) := by
  cases m with
  | enforced c => exact callStep_indexed conf h c
  | dryCheck key now => exact callStep_indexed conf h (.isBlocked key now)
  | dryPeek key now => exact h

theorem mixed_refused_le (conf : ZoneConf) (h : Indexed core s) (l : List Mixed) :
    s.refused ≤ (run (mixedStep core conf) s l).refused := by
  induction l generalizing s with
  | nil => exact le_rfl
  | cons m l ih => exact (mixedStep_refused_le conf h m).trans (ih (mixedStep_indexed conf h m))

/-! ## Whole runs -/

/-- Twins, one of which sees calls in dry-run as well, report alike. -/
theorem Twins.enforcedVerdicts_eq {l : List Mixed} {cs : List Call} (h : Twins core conf t s s')
    (hclock : Clocked Mixed.now t l) (hmax : ∀ m ∈ l, m.now < conf.timeMax)
    (hcs : (enforced l).map Call.request = cs.map Call.request)
    (hroom : (run (mixedStep core conf) s l).refused = s.refused)
    (hroom' : (run (callStep core conf) s' cs).refused = s'.refused) :
    enforcedVerdicts core conf s l = verdicts core conf s' cs := by
  induction l generalizing t s s' cs with
  | nil =>
      obtain rfl := List.map_eq_nil_iff.mp hcs.symm
      rfl
  | cons m l ih =>
      have hmax' := hmax m List.mem_cons_self
      have hrest : ∀ m ∈ l, m.now < conf.timeMax := fun m hm => hmax m (List.mem_cons_of_mem _ hm)
      have hle := mixedStep_refused_le conf h.left.settled.indexed m
      have hle' := mixed_refused_le conf (mixedStep_indexed conf h.left.settled.indexed m) l
      have hquiet : (mixedStep core conf s m).refused = s.refused :=
        le_antisymm (hle'.trans hroom.le) hle
      have hlater := hroom.trans hquiet.symm
      cases m with
      | dryCheck key now =>
          exact ih (h.check_left key hclock.1 hmax') hclock.2 hrest hcs hlater hroom'
      | dryPeek key now => exact ih (h.mono hclock.1) hclock.2 hrest hcs hlater hroom'
      | enforced c =>
          obtain ⟨c', cs, rfl, hreq, hcs⟩ := List.map_eq_cons_iff.mp hcs.symm
          have hle := exec_refused_le conf h.right.settled.indexed c'
          have hle' := run_refused_le conf (callStep_indexed conf h.right.settled.indexed c') cs
          have hquiet' : (callStep core conf s' c').refused = s'.refused :=
            le_antisymm (hle'.trans hroom'.le) hle
          obtain ⟨hv, hnext⟩ := h.step hreq.symm hclock.1 hmax' hquiet hquiet'
          rw [enforcedVerdicts, verdicts, hv]
          congr 1
          exact ih hnext hclock.2 hrest hcs.symm hlater (hroom'.trans hquiet'.symm)

/-- **Dry-run is invisible.** From any state of a run from the empty zone: whatever calls in
dry-run are added to calls outside it, at whatever points, these calls report what they report
without it, as long as no allocation is refused and the clock stays below the largest time. -/
theorem dryRun_invisible (core : Core) (conf : ZoneConf) (start : ℤ) (before : List Call)
    (l : List Mixed) (cs : List Call) (hbefore : Clocked Call.now start before)
    (hclock : Clocked Mixed.now (lastTime Call.now start before) l)
    (hmax : ∀ m ∈ l, m.now < conf.timeMax)
    (hcs : (enforced l).map Call.request = cs.map Call.request)
    (hroom : (run (mixedStep core conf) (run (callStep core conf) .empty before) l).refused =
      (run (callStep core conf) .empty before).refused)
    (hroom' : (run (callStep core conf) (run (callStep core conf) .empty before) cs).refused =
      (run (callStep core conf) .empty before).refused) :
    enforcedVerdicts core conf (run (callStep core conf) .empty before) l =
      verdicts core conf (run (callStep core conf) .empty before) cs := by
  have hdated : Dated core conf (lastTime Call.now start before)
      (run (callStep core conf) .empty before) :=
    run_clocked_invariant (Dated core conf) (fun _ => True) (fun t s c h ht _ => h.step c ht)
      (.empty core conf start) hbefore fun _ _ => trivial
  exact (Twins.refl hdated).enforcedVerdicts_eq hclock hmax hcs hroom hroom'

/-- A check and a look in dry-run between the two events that ban. -/
theorem dryRun_invisible_banned :
    enforcedVerdicts .unbalanced .small (run (callStep .unbalanced .small) .empty [])
        [.enforced (.record (.repeated 7) 1 fun _ => some 4096), .dryCheck (.repeated 7) 2,
          .dryPeek (.repeated 7) 2, .dryCheck (.repeated 8) 3,
          .enforced (.record (.repeated 7) 3 fun _ => some 8192)] =
      verdicts .unbalanced .small (run (callStep .unbalanced .small) .empty [])
        [.record (.repeated 7) 1 fun _ => some 4096, .record (.repeated 7) 3 fun _ => some 8192] :=
  dryRun_invisible .unbalanced .small 0 [] _ _ (by decide) (by decide) (by decide) rfl
    (by decide +kernel) (by decide +kernel)

/-- At the largest time a check in dry-run expires two nodes, and the next event is the first
of its key instead of the one that reaches the threshold. -/
theorem dryRun_visible_ends :
    let last : ℤ := 2 ^ 31 - 1
    let mixed : List Mixed :=
      [.enforced (.record (.repeated 1) (last - 1) fun _ => some 4096),
        .enforced (.record (.repeated 2) (last - 1) fun _ => some 8192),
        .enforced (.record (.repeated 3) (last - 1) fun _ => some 12288),
        .dryCheck (.repeated 4) last,
        .enforced (.record (.repeated 3) last fun _ => some 16384)]
    Clocked Mixed.now 0 mixed ∧
    (run (mixedStep .unbalanced .small32) .empty mixed).refused = 0 ∧
    (run (callStep .unbalanced .small32) .empty (enforced mixed)).refused = 0 ∧
    enforcedVerdicts .unbalanced .small32 .empty mixed ≠
      verdicts .unbalanced .small32 .empty (enforced mixed) := by
  decide +kernel

end ErrorAbuse
