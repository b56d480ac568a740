import ErrorAbuse.Config.Directive
import ErrorAbuse.Snapshot.Slots

/-!
# Reloading the configuration

A new configuration takes over the memory of its zones: nginx hands `init_zone` the old segment if
the name and the size are the same, and a new one otherwise. The workers of the old configuration
serve their last requests meanwhile, so that several configurations work on one segment at a time.

`init_zone` refuses a configuration with another key or another threshold. That is enough: the
other settings may change from one generation to the next, and still no worker of any of them gets
outside an event array, loses an entry of the index, or ends a ban that another one has set.
-/

namespace ErrorAbuse

open Lib

/-! ## Taking over a segment -/

/-- The fields of a zone that `init_zone` looks at, in a configuration for one platform. -/
structure Zone (P : Platform) where
  /-- the text of the value of `key=` -/
  key : List UInt8
  conf : ZoneConf
  persist : Bool
  plat : conf.plat = P

/-- The memory nginx hands over: that of a zone of the configuration before, memory that another
process has set up, or a new segment. -/
inductive ShmMemory (P : Platform)
  | old (zone : Zone P) (sh : Shctx)
  | existing (sh : Shctx)
  | fresh

/-- What becomes of the calls that `init_zone` makes: its two allocations, and the loading of the
snapshot. -/
structure InitCalls where
  shctxOk : Bool
  logCtxOk : Bool
  now : ℤ
  slabs : ℕ → Slab
  disk : Disk

/-- `init_zone`: the shared context that the zone works on from now on. -/
def initZone {P : Platform} (core : Core) (zone : Zone P) (calls : InitCalls) :
    ShmMemory P → Conf Shctx
  | .old old sh => do
    refuseIf (!strncmpEq old.key zone.key)
      "error_abuse zone \"%V\" key cannot change during reload" [.str zone.conf.name]
    refuseIf (decide (old.conf.threshold ≠ zone.conf.threshold))
      "error_abuse zone \"%V\" threshold cannot change during reload" [.str zone.conf.name]
    return sh
  | .existing sh => return sh
  | .fresh => do
    require calls.shctxOk
    require calls.logCtxOk
    if zone.persist then
      match load core zone.conf calls.now calls.slabs calls.disk .empty with
      | none => confError
      | some r => do
        require (decide (r.rc = .ok))
        return r.zone .empty
    else return .empty

/-- A segment, and the zones of the configurations whose workers use it, the newest first. -/
structure Segment (P : Platform) where
  zones : List (Zone P)
  shctx : Shctx

/-- Before the first start. -/
def Segment.unused (P : Platform) : Segment P := ⟨[], .empty⟩

/-- A worker of the `k`-th youngest configuration works on the zone, or a configuration is loaded. -/
inductive SegmentEvent (P : Platform)
  | op (k : ℕ) (op : Op)
  | reload (zone : Zone P) (calls : InitCalls)

/-- The memory `ngx_init_cycle` hands over. -/
def Segment.memory {P : Platform} (g : Segment P) (zone : Zone P) : ShmMemory P :=
  match g.zones with
  | [] => .fresh
  | current :: _ => if current.conf.shmSize = zone.conf.shmSize then .old current g.shctx else .fresh

/-- One event at the segment in use. A configuration that is refused is not used; one that is
given a new segment leaves the old one to the workers before it. -/
def segmentStep {P : Platform} (core : Core) (g : Segment P) : SegmentEvent P → Segment P
  | .op k op =>
    match g.zones[k]? with
    | none => g
    | some zone => { g with shctx := opStep core zone.conf g.shctx op }
  | .reload zone calls =>
    match (initZone core zone calls (g.memory zone)).accepted with
    | none => g
    | some sh =>
      match g.memory zone with
      | .old _ _ => ⟨zone :: g.zones, sh⟩
      | _ => ⟨[zone], sh⟩

variable {P : Platform} {core : Core} {g : Segment P} {zone old : Zone P} {calls : InitCalls}
  {sh sh' : Shctx}

/-! ## What is accepted -/

/-- Two zones that may work on one segment. -/
structure Zone.Agrees (z z' : Zone P) : Prop where
  key : strncmpEq z.key z'.key = true
  threshold : z.conf.threshold = z'.conf.threshold
  shmSize : z.conf.shmSize = z'.conf.shmSize

theorem strncmpEq_iff {text text' : List UInt8} : strncmpEq text text' = true ↔
    text.length = text'.length ∧ cString text = cString text' := by
  simp [strncmpEq]

theorem Zone.Agrees.refl (z : Zone P) : z.Agrees z := ⟨strncmpEq_iff.mpr ⟨rfl, rfl⟩, rfl, rfl⟩

theorem Zone.Agrees.symm {z z' : Zone P} (h : z.Agrees z') : z'.Agrees z := by
  obtain ⟨hlen, htext⟩ := strncmpEq_iff.mp h.key
  exact ⟨strncmpEq_iff.mpr ⟨hlen.symm, htext.symm⟩, h.threshold.symm, h.shmSize.symm⟩

theorem Zone.Agrees.trans {z z' z'' : Zone P} (h : z.Agrees z') (h' : z'.Agrees z'') :
    z.Agrees z'' := by
  obtain ⟨hlen, htext⟩ := strncmpEq_iff.mp h.key
  obtain ⟨hlen', htext'⟩ := strncmpEq_iff.mp h'.key
  exact ⟨strncmpEq_iff.mpr ⟨hlen.trans hlen', htext.trans htext'⟩,
    h.threshold.trans h'.threshold, h.shmSize.trans h'.shmSize⟩

/-- Taking over the memory of another zone. -/
theorem accepted_initZone_old : (initZone core zone calls (.old old sh)).accepted = some sh' ↔
    strncmpEq old.key zone.key = true ∧ old.conf.threshold = zone.conf.threshold ∧ sh' = sh := by
  simp only [initZone, Logged.accepted_bind, Option.bind_eq_some_iff, accepted_refuseIf,
    Logged.accepted_pure, Option.some.injEq]
  constructor
  · rintro ⟨_, hkey, _, hth, rfl⟩
    exact ⟨by simpa using hkey, by simpa using hth, rfl⟩
  · rintro ⟨hkey, hth, rfl⟩
    exact ⟨(), by simp [hkey], (), by simp [hth], rfl⟩

/-- Setting up a new segment: the zone is empty, or holds what was loaded. -/
theorem accepted_initZone_fresh (h : (initZone core zone calls .fresh).accepted = some sh') :
    sh' = .empty ∨ sh' = opStep core zone.conf .empty (.load calls.now calls.slabs calls.disk) := by
  simp only [initZone, Logged.accepted_bind, Option.bind_eq_some_iff, accepted_require] at h
  obtain ⟨_, -, _, -, h⟩ := h
  split_ifs at h
  · obtain ⟨r, hr, -⟩ := load_effect core zone.conf calls.now calls.slabs calls.disk .empty
    simp only [hr, Logged.accepted_bind, Option.bind_eq_some_iff, accepted_require,
      Logged.accepted_pure, Option.some.injEq] at h
    obtain ⟨_, -, rfl⟩ := h
    simp [opStep, hr]
  · exact .inl (Option.some.inj h).symm

/-- What the loading of a configuration can do: it is refused, or its zone joins those that work
on the segment, or it is the first to work on another one. -/
inductive Reloaded (core : Core) (g : Segment P) (zone : Zone P) (calls : InitCalls) :
    Segment P → Prop
  | refused : Reloaded core g zone calls g
  | joined (current : Zone P) : g.zones.head? = some current → current.Agrees zone →
      Reloaded core g zone calls ⟨zone :: g.zones, g.shctx⟩
  | started (sh : Shctx) : (∀ current ∈ g.zones.head?, current.conf.shmSize ≠ zone.conf.shmSize) →
      sh = .empty ∨ sh = opStep core zone.conf .empty (.load calls.now calls.slabs calls.disk) →
      Reloaded core g zone calls ⟨[zone], sh⟩

theorem segmentStep_reload (core : Core) (g : Segment P) (zone : Zone P) (calls : InitCalls) :
    Reloaded core g zone calls (segmentStep core g (.reload zone calls)) := by
  rw [segmentStep]
  cases hacc : (initZone core zone calls (g.memory zone)).accepted with
  | none => exact .refused
  | some sh =>
      have hfresh : g.memory zone = .fresh →
          (∀ current ∈ g.zones.head?, current.conf.shmSize ≠ zone.conf.shmSize) →
          Reloaded core g zone calls ⟨[zone], sh⟩ := by
        intro hmem hsize
        rw [hmem] at hacc
        exact .started sh hsize (accepted_initZone_fresh hacc)
      cases hzones : g.zones with
      | nil =>
          have hmem : g.memory zone = .fresh := by rw [Segment.memory, hzones]
          simp only [hmem]
          exact hfresh hmem (by simp [hzones])
      | cons current rest =>
          by_cases hsize : current.conf.shmSize = zone.conf.shmSize
          · have hmem : g.memory zone = .old current g.shctx := by
              rw [Segment.memory, hzones]
              exact if_pos hsize
            rw [hmem] at hacc
            obtain ⟨hkey, hth, rfl⟩ := accepted_initZone_old.mp hacc
            simp only [hmem]
            rw [← hzones]
            exact .joined current (by rw [hzones]; rfl) ⟨hkey, hth, hsize⟩
          · have hmem : g.memory zone = .fresh := by
              rw [Segment.memory, hzones]
              exact if_neg hsize
            simp only [hmem]
            exact hfresh hmem (by simpa [hzones] using hsize)

/-! ## Safety -/

/-- The bounds of a ring depend on the threshold alone. -/
theorem Safe.congr {conf conf' : ZoneConf} {s : Shctx} (h : Safe core conf s)
    (hth : conf.threshold = conf'.threshold) : Safe core conf' s := by
  refine ⟨h.indexed, fun key n hn => ?_⟩
  obtain ⟨hhead, hcount, hslots, hdigest⟩ := h.bounded key n hn
  exact ⟨hth ▸ hhead, hth ▸ hcount, hth ▸ hslots, hdigest⟩

theorem Safe.opStep {conf : ZoneConf} {s : Shctx} (h : Safe core conf s) (op : Op) :
    Safe core conf (opStep core conf s op) :=
  ⟨opStep_indexed h.indexed op,
    opStep_everyNode (nodeInvariant_bounded core conf) h.indexed h.bounded op⟩

/-- The zones that work on a segment agree, and the segment is safe for each of them. -/
structure Coherent (core : Core) (g : Segment P) : Prop where
  agrees : ∀ z ∈ g.zones, ∀ z' ∈ g.zones, z.Agrees z'
  safe : ∀ z ∈ g.zones, Safe core z.conf g.shctx
  unused : g.zones = [] → g.shctx = .empty

theorem Coherent.indexed (h : Coherent core g) : Indexed core g.shctx := by
  cases hzones : g.zones with
  | nil => rw [h.unused hzones]; exact indexed_empty core
  | cons z rest => exact (h.safe z (by rw [hzones]; exact List.mem_cons_self)).indexed

theorem Coherent.step (h : Coherent core g) (e : SegmentEvent P) :
    Coherent core (segmentStep core g e) := by
  cases e with
  | op k op =>
      rw [segmentStep]
      cases hk : g.zones[k]? with
      | none => exact h
      | some zone =>
          have hzone : zone ∈ g.zones := List.mem_of_getElem? hk
          refine ⟨h.agrees, fun z hz => ?_, fun hnil => ?_⟩
          · exact ((h.safe zone hzone).opStep op).congr (h.agrees zone hzone z hz).threshold
          · rw [hnil] at hzone
            cases hzone
  | reload zone calls =>
      have hreload := segmentStep_reload core g zone calls
      generalize segmentStep core g (.reload zone calls) = g' at hreload
      cases hreload with
      | refused => exact h
      | joined current hhead hagrees =>
          have hcurrent : current ∈ g.zones := List.mem_of_head? hhead
          have hall : ∀ z ∈ g.zones, zone.Agrees z := fun z hz =>
            hagrees.symm.trans (h.agrees current hcurrent z hz)
          refine ⟨?_, ?_, fun hnil => by cases hnil⟩
          · intro z hz z' hz'
            rcases List.mem_cons.mp hz with rfl | hin
            · rcases List.mem_cons.mp hz' with rfl | hin'
              · exact .refl z'
              · exact hall z' hin'
            · rcases List.mem_cons.mp hz' with rfl | hin'
              · exact (hall z hin).symm
              · exact h.agrees z hin z' hin'
          · intro z hz
            rcases List.mem_cons.mp hz with rfl | hz
            · exact (h.safe current hcurrent).congr hagrees.threshold
            · exact h.safe z hz
      | started sh _ hsh =>
          have hsafe : Safe core zone.conf sh := by
            rcases hsh with rfl | rfl
            · exact reachable_safe core zone.conf []
            · exact reachable_safe core zone.conf [.load calls.now calls.slabs calls.disk]
          refine ⟨?_, ?_, fun hnil => by cases hnil⟩
          · intro z hz z' hz'
            obtain rfl := List.mem_singleton.mp hz
            obtain rfl := List.mem_singleton.mp hz'
            exact .refl z'
          · intro z hz
            obtain rfl := List.mem_singleton.mp hz
            exact hsafe

theorem coherent_run (core : Core) (events : List (SegmentEvent P)) :
    Coherent core (run (segmentStep core) (.unused P) events) :=
  run_invariant (Coherent core) (fun _ => True) (fun _ e h _ => h.step e)
    ⟨by simp [Segment.unused], by simp [Segment.unused], fun _ => rfl⟩ fun _ _ => trivial

/-- **Reloads are memory-safe.** Whatever configurations are loaded, accepted or refused, and
whatever the workers of each of them do meanwhile: the configurations on one segment have one key,
one threshold and one size; a lookup finds the one node of its key; and no operation of any of
their workers, nor the writing of a snapshot, accesses a slot that is not there. -/
theorem reload_safe (core : Core) (events : List (SegmentEvent P)) :
    let g := run (segmentStep core) (.unused P) events
    (∀ z ∈ g.zones, ∀ z' ∈ g.zones, z.Agrees z') ∧
    (∀ (key : Key) a, lookup g.shctx (core.crc32Short key) key = some a ↔
      a ∈ g.shctx.queue ∧ (g.shctx.mem a).data = key) ∧
    ∀ z ∈ g.zones,
      (∀ op, opStepChecked core z.conf g.shctx op = some (opStep core z.conf g.shctx op)) ∧
      ∀ alloc, serializeChecked core z.conf alloc g.shctx =
        some (serialize core z.conf alloc g.shctx) := by
  intro g
  have h : Coherent core g := coherent_run core events
  exact ⟨h.agrees, fun key a => h.indexed.lookup_eq_some_iff,
    fun z hz => ⟨opStepChecked_eq (h.safe z hz), serializeChecked_eq (h.safe z hz)⟩⟩

/-! ## Bans -/

/-- A request before `d`, or a configuration whose zone has a segment of the given size. -/
def SegmentEvent.Harmless (size : ℕ) (d : ℤ) : SegmentEvent P → Prop
  | .op _ (.request r) => r.now < d
  | .op _ _ => False
  | .reload zone _ => zone.conf.shmSize = size

/-- A segment of the given size on which some zone works, and a ban on it. -/
structure Banning (core : Core) (size : ℕ) (d : ℤ) (key : Digest) (g : Segment P) : Prop where
  zones : g.zones ≠ []
  size : ∀ z ∈ g.zones, z.conf.shmSize = size
  banned : BannedUntil core d key g.shctx

theorem Banning.step {size : ℕ} {d : ℤ} {key : Digest} (h : Banning core size d key g)
    {e : SegmentEvent P} (he : e.Harmless size d) :
    Banning core size d key (segmentStep core g e) := by
  cases e with
  | op k op =>
      rw [segmentStep]
      cases hk : g.zones[k]? with
      | none => exact h
      | some zone =>
          cases op with
          | request r => exact ⟨h.zones, h.size, requestStep_banned h.banned r he⟩
          | load _ _ _ | expire _ _ | evict _ => exact he.elim
  | reload zone calls =>
      have hreload := segmentStep_reload core g zone calls
      generalize segmentStep core g (.reload zone calls) = g' at hreload
      cases hreload with
      | refused => exact h
      | joined current _ _ =>
          refine ⟨List.cons_ne_nil _ _, fun z hz => ?_, h.banned⟩
          rcases List.mem_cons.mp hz with rfl | hz
          · exact he
          · exact h.size z hz
      | started sh hsize _ =>
          obtain ⟨current, rest, hzones⟩ := List.exists_cons_of_ne_nil h.zones
          have hcurrent : current.conf.shmSize = zone.conf.shmSize :=
            (h.size current (by rw [hzones]; exact List.mem_cons_self)).trans (Eq.symm he)
          exact absurd hcurrent (hsize current (by rw [hzones]; rfl))

/-- **A ban outlives reloads.** Once a client is banned, whatever configurations with the same size
of the segment are loaded after that and whatever the workers of each of them are asked before the
ban ends: it is still there, with the same end, and every configuration's workers enforce it. -/
theorem reload_keeps_bans (core : Core) (events events' : List (SegmentEvent P)) (key : Digest)
    (n : Node) :
    let g := run (segmentStep core) (.unused P) events
    let g' := run (segmentStep core) g events'
    nodeOf core g.shctx key = some n →
    (∀ z ∈ g.zones, ∀ e ∈ events', e.Harmless z.conf.shmSize n.blockedUntil) →
    (∃ n', nodeOf core g'.shctx key = some n' ∧ n'.blockedUntil = n.blockedUntil) ∧
    ∀ z ∈ g'.zones, ∀ now < n.blockedUntil,
      (isBlocked core z.conf key now g'.shctx).2 =
        ⟨.ok, some (z.conf.threshold, n.blockedUntil)⟩ ∧
      ∀ slab, (record core z.conf key now slab g'.shctx).2 =
        ⟨.busy, some (z.conf.threshold, n.blockedUntil)⟩ := by
  intro g g' hn hharmless
  have h : Coherent core g := coherent_run core events
  cases hzones : g.zones with
  | nil =>
      -- nobody works on the segment, and it is empty
      rw [h.unused hzones] at hn
      simp [nodeOf, lookup, Shctx.empty, lookupFrom] at hn
  | cons current rest =>
      have hcurrent : current ∈ g.zones := by rw [hzones]; exact List.mem_cons_self
      have hstart : Banning core current.conf.shmSize n.blockedUntil key g :=
        ⟨by rw [hzones]; exact List.cons_ne_nil _ _,
          fun z hz => (h.agrees z hz current hcurrent).shmSize, h.indexed, n, hn, rfl⟩
      obtain ⟨-, -, hi, n', hn', hd⟩ : Banning core current.conf.shmSize n.blockedUntil key g' :=
        run_invariant (Banning core current.conf.shmSize n.blockedUntil key)
          (fun e => e.Harmless current.conf.shmSize n.blockedUntil) (fun _ _ hb he => hb.step he)
          hstart (hharmless current hcurrent)
      refine ⟨⟨n', hn', hd⟩, fun z _ now hnow => ⟨?_, fun slab => ?_⟩⟩
      · rw [← hd] at hnow ⊢
        exact (exec_of_banned hi (.isBlocked key now) hn' hnow).2 rfl
      · rw [← hd] at hnow ⊢
        exact (exec_of_banned hi (.record key now slab) hn' hnow).2 rfl

/-- A zone with the default key. -/
def Zone.small : Zone .lp64 := ⟨ascii "$binary_remote_addr", .small, false, rfl⟩

/-- It with a shorter interval and shorter bans. -/
def Zone.milder : Zone .lp64 :=
  { Zone.small with
    conf := { ZoneConf.small with
      interval := 7, block := 11, interval_pos := by decide, block_pos := by decide,
      interval_le_inactive := by decide, block_le_inactive := by decide }
    plat := rfl }

/-- Nothing fails, and no file is there. -/
def InitCalls.plain : InitCalls := ⟨true, true, 0, fun _ _ => none, .openFailed⟩

/-- A ban until 22; then both configurations are in use. -/
theorem reload_keeps_bans_milder :
    let g := run (segmentStep .unbalanced) (.unused .lp64) [.reload .small .plain,
      .op 0 (.request (.call (.record (.repeated 7) 1 fun _ => some 4096))),
      .op 0 (.request (.call (.record (.repeated 7) 2 fun _ => none)))]
    let g' := run (segmentStep .unbalanced) g [.reload .milder .plain,
      .op 1 (.request (.call (.isBlocked (.repeated 7) 15)))]
    g'.zones.length = 2 ∧ ∀ z ∈ g'.zones,
      (isBlocked .unbalanced z.conf (Digest.repeated 7) 21 g'.shctx).2 =
        ⟨.ok, some (z.conf.threshold, 22)⟩ := by
  intro g g'
  have hn : nodeOf .unbalanced g.shctx (Digest.repeated 7).1 = some (g.shctx.mem 4096) := by
    decide +kernel
  have hd : (g.shctx.mem 4096).blockedUntil = 22 := by decide +kernel
  have hsize : ∀ z ∈ g.zones, z.conf.shmSize = 65536 := by decide +kernel
  have hban := (reload_keeps_bans .unbalanced _ [.reload .milder .plain,
    .op 1 (.request (.call (.isBlocked (.repeated 7) 15)))] (.repeated 7) (g.shctx.mem 4096) hn (by
      intro z hz e he
      rw [hd, hsize z hz]
      simp only [List.mem_cons, List.not_mem_nil, or_false] at he
      rcases he with rfl | rfl
      · exact rfl
      · exact show (15 : ℤ) < 22 by decide)).2
  rw [hd] at hban
  exact ⟨by decide +kernel, fun z hz => (hban z hz 21 (by decide)).1⟩

end ErrorAbuse
