import ErrorAbuse.Snapshot.Persist
import Mathlib.Data.Set.List

/-!
# The gate and the loader in lockstep

A payload the validator accepts is the concatenation of encoded records. Over such
a payload the loader's walk, written independently and with an early exit of its
own, is a fold over the records: it stays inside the buffer, none of its guards
fires, and it ends where the buffer does unless a node cannot be had.
-/

namespace ErrorAbuse

open Lib

/-- A record as the format can express it. -/
structure SnapRecord (threshold : ℕ) where
  blocked : UInt64
  seen : UInt64
  key : Digest
  events : List UInt64
  length_le : events.length ≤ threshold
  length_lt : events.length < 2 ^ 16

variable {core : Core} {conf : ZoneConf} {threshold : ℕ} {now : ℤ} {buf l : List UInt8}

/-- The bytes of the events of a record. -/
def encodeEvents (events : List UInt64) : List UInt8 := events.flatMap fun v => putU64 v.toNat

/-- The bytes of a record. -/
def SnapRecord.encode (r : SnapRecord threshold) : List UInt8 :=
  putU16 digestLen ++ (putU16 r.events.length ++ (putU64 r.blocked.toNat ++
    (putU64 r.seen.toNat ++ ((r.key : Key) ++ encodeEvents r.events))))

@[simp] theorem length_encodeEvents (events : List UInt64) :
    (encodeEvents events).length = 8 * events.length := by
  induction events with
  | nil => rfl
  | cons v events ih =>
      rw [encodeEvents, List.flatMap_cons, List.length_append, ← encodeEvents, ih]
      simp
      omega

namespace SnapRecord

variable (r : SnapRecord threshold) (rest : List UInt8)

theorem length_encode : r.encode.length = fileRecLen + (digestLen + 8 * r.events.length) := by
  simp only [encode, List.length_append, putU16_eq, putU64_eq, length_encodeLE, r.key.2,
    length_encodeEvents, fileRecLen]
  omega

/-! ## Reading a record back -/

theorem getU16_keyLen : getU16 (r.encode ++ rest) 0 = some digestLen := by
  simp only [encode, List.append_assoc, getU16_eq, putU16_eq, readLE_zero_encodeLE]
  rfl

theorem getU16_eventCount : getU16 (r.encode ++ rest) 2 = some r.events.length := by
  have hlt : r.events.length % 256 ^ 2 = r.events.length := Nat.mod_eq_of_lt r.length_lt
  simp only [encode, List.append_assoc, getU16_eq, putU16_eq]
  rw [readLE_skip (k := 2) (by simp) _ 0 2, readLE_zero_encodeLE, hlt]

theorem getU64_blocked : getU64 (r.encode ++ rest) 4 = some r.blocked.toNat := by
  have hlt : r.blocked.toNat % 256 ^ 8 = r.blocked.toNat := Nat.mod_eq_of_lt r.blocked.toNat_lt
  simp only [encode, List.append_assoc, getU64_eq, putU16_eq, putU64_eq]
  rw [readLE_skip (k := 2) (by simp) _ 2 8, readLE_skip (k := 2) (by simp) _ 0 8,
    readLE_zero_encodeLE, hlt]

theorem getU64_seen : getU64 (r.encode ++ rest) 12 = some r.seen.toNat := by
  have hlt : r.seen.toNat % 256 ^ 8 = r.seen.toNat := Nat.mod_eq_of_lt r.seen.toNat_lt
  simp only [encode, List.append_assoc, getU64_eq, putU16_eq, putU64_eq]
  rw [readLE_skip (k := 2) (by simp) _ 10 8, readLE_skip (k := 2) (by simp) _ 8 8,
    readLE_skip (k := 8) (by simp) _ 0 8, readLE_zero_encodeLE, hlt]

theorem drop_header :
    (r.encode ++ rest).drop fileRecLen = (r.key : Key) ++ (encodeEvents r.events ++ rest) := by
  have h : r.encode ++ rest = (putU16 digestLen ++ (putU16 r.events.length ++
      (putU64 r.blocked.toNat ++ putU64 r.seen.toNat))) ++
        ((r.key : Key) ++ (encodeEvents r.events ++ rest)) := by
    simp only [encode, List.append_assoc]
  rw [h, List.drop_left' (by simp [fileRecLen])]

theorem isRecord_encode : IsRecord threshold r.encode := by
  have h0 := r.getU16_keyLen []
  have h2 := r.getU16_eventCount []
  rw [List.append_nil] at h0 h2
  exact ⟨h0, r.events.length, h2, r.length_le, r.length_encode⟩

end SnapRecord

/-- Event bytes decode. -/
theorem exists_events {n : ℕ} (h : l.length = 8 * n) :
    ∃ events : List UInt64, events.length = n ∧ l = encodeEvents events := by
  induction n generalizing l with
  | zero => exact ⟨[], rfl, List.length_eq_zero_iff.mp h⟩
  | succ n ih =>
      obtain ⟨v, hv, hl⟩ := eq_encodeLE_append (l := l) (w := 8) (by omega)
      obtain ⟨events, hlen, he⟩ := ih (l := l.drop 8) (by rw [List.length_drop]; omega)
      refine ⟨UInt64.ofNat v :: events, by simp [hlen], ?_⟩
      have hvn : (UInt64.ofNat v).toNat = v := UInt64.toNat_ofNat_of_lt' hv
      rw [encodeEvents, List.flatMap_cons, ← encodeEvents, ← he, hvn, putU64_eq]
      exact hl

/-- Every record the validator passes decodes. -/
theorem exists_encode_of_isRecord {r : List UInt8} (h : IsRecord threshold r) :
    ∃ rec : SnapRecord threshold, rec.encode = r := by
  obtain ⟨hk, c, hc, hct, hlen⟩ := h
  have hrl : fileRecLen = 20 := rfl
  have hdl : digestLen = 32 := rfl
  obtain ⟨k, hk16, hr⟩ := eq_encodeLE_append (l := r) (w := 2) (by omega)
  obtain ⟨c', hc16, hr2⟩ := eq_encodeLE_append (l := r.drop 2) (w := 2) (by simp; omega)
  obtain ⟨b, hb, hr4⟩ := eq_encodeLE_append (l := (r.drop 2).drop 2) (w := 8) (by simp; omega)
  obtain ⟨s, hs, hr12⟩ :=
    eq_encodeLE_append (l := ((r.drop 2).drop 2).drop 8) (w := 8) (by simp; omega)
  obtain ⟨events, hel, he⟩ := exists_events (l := ((((r.drop 2).drop 2).drop 8).drop 8).drop 32)
    (n := c) (by simp; omega)
  obtain rfl : k = digestLen := by
    rw [getU16_eq, hr, readLE_zero_encodeLE, Nat.mod_eq_of_lt hk16] at hk
    exact Option.some.inj hk
  obtain rfl : c' = c := by
    rw [getU16_eq, hr, hr2, readLE_skip (k := 2) (by simp) _ 0 2, readLE_zero_encodeLE,
      Nat.mod_eq_of_lt hc16] at hc
    exact Option.some.inj hc
  refine ⟨{ blocked := UInt64.ofNat b, seen := UInt64.ofNat s,
            key := ⟨((((r.drop 2).drop 2).drop 8).drop 8).take 32, by simp; omega⟩,
            events := events, length_le := hel ▸ hct, length_lt := hel ▸ hc16 }, ?_⟩
  have hbn : (UInt64.ofNat b).toNat = b := UInt64.toNat_ofNat_of_lt' hb
  have hsn : (UInt64.ofNat s).toNat = s := UInt64.toNat_ofNat_of_lt' hs
  simp only [SnapRecord.encode, hbn, hsn, hel, ← he, putU16_eq, putU64_eq, List.take_append_drop,
    ← hr12, ← hr4, ← hr2, ← hr]

/-- A payload is a sequence of encoded records. -/
theorem isPayload_iff_encode {n : ℕ} :
    IsPayload threshold n l ↔
      ∃ rs : List (SnapRecord threshold), rs.length = n ∧ l = (rs.map SnapRecord.encode).flatten := by
  constructor
  · intro ⟨recs, hlen, hl, hrecs⟩
    have hmem : recs ∈ Set.range (List.map fun r : SnapRecord threshold => r.encode) := by
      rw [Set.range_list_map]
      exact fun r hr => exists_encode_of_isRecord (hrecs r hr)
    obtain ⟨rs, rfl⟩ := hmem
    exact ⟨rs, by simpa using hlen, hl⟩
  · intro ⟨rs, hlen, hl⟩
    refine ⟨rs.map SnapRecord.encode, by simpa using hlen, hl, ?_⟩
    intro r hr
    obtain ⟨rec, -, rfl⟩ := List.mem_map.mp hr
    exact rec.isRecord_encode

/-! ## The walk over records -/

/-- Store one event of a record, if it is inside the window. -/
def keepEvent (conf : ZoneConf) (now : ℤ) (ean : Node) (v : UInt64) : Node :=
  if toInt64 v.toNat > now - conf.interval ∧ toInt64 v.toNat ≤ now then
    { ean with
      events := ean.events.set ean.eventCount (toInt64 v.toNat)
      eventCount := ean.eventCount + 1 }
  else ean

/-- What `load` makes of the node of a record. -/
def SnapRecord.toNode (r : SnapRecord threshold) (conf : ZoneConf) (now : ℤ) (ean : Node) : Node :=
  r.events.foldl (keepEvent conf now)
    (restoreHeader conf now (toInt64 r.blocked.toNat) (toInt64 r.seen.toNat) ean)

/-- A record with neither a live ban nor an event is passed over. -/
def SnapRecord.Skipped (r : SnapRecord threshold) (now : ℤ) : Prop :=
  toInt64 r.blocked.toNat ≤ now ∧ r.events.length = 0

instance (r : SnapRecord threshold) (now : ℤ) : Decidable (r.Skipped now) := by
  unfold SnapRecord.Skipped; infer_instance

/-- The restore loop over records: the zone, the nodes written, and whether every
record was reached. -/
def restoreAll (core : Core) (conf : ZoneConf) (now : ℤ) (slabs : ℕ → Slab) :
    List (SnapRecord threshold) → Shctx → List Addr → Shctx × List Addr × Bool
  | [], s, restored => (s, restored, true)
  | r :: rs, s, restored =>
    if r.Skipped now then restoreAll core conf now slabs rs s restored
    else
      match restoreTarget core conf now (slabs rs.length) r.key s with
      | (s, none) => (s, restored, false)
      | (s, some a) =>
        restoreAll core conf now slabs rs (setNode s a (r.toNode conf now (s.mem a))) (a :: restored)

/-- The event loop reads exactly the events of the record. -/
theorem restoreEvents_eq (conf : ZoneConf) (now : ℤ) {events : List UInt64} {rest : List UInt8} {p : ℕ} (hp : p ≤ buf.length)
    (hbuf : buf.drop p = encodeEvents events ++ rest) (ean : Node) :
    restoreEvents conf now buf events.length p ean =
      some (events.foldl (keepEvent conf now) ean, p + 8 * events.length) := by
  induction events generalizing p ean with
  | nil => rfl
  | cons v events ih =>
      have hlt : v.toNat % 256 ^ 8 = v.toNat := Nat.mod_eq_of_lt v.toNat_lt
      have hsplit : buf.drop p = encodeLE 8 v.toNat ++ (encodeEvents events ++ rest) := by
        rw [hbuf, encodeEvents, List.flatMap_cons, ← encodeEvents, putU64_eq, List.append_assoc]
      have hread : getU64 buf p = some v.toNat := by
        have h := readLE_drop hp 0 8
        rw [Nat.add_zero] at h
        rw [getU64_eq, ← h, hsplit, readLE_zero_encodeLE, hlt]
      have hlen : p + 8 ≤ buf.length := by
        have := congrArg List.length hsplit
        rw [List.length_drop, List.length_append, length_encodeLE] at this
        omega
      have hrest : buf.drop (p + 8) = encodeEvents events ++ rest := by
        rw [← List.drop_drop, hsplit, List.drop_left' (length_encodeLE ..)]
      have hstep : restoreEvents conf now buf (v :: events).length p ean =
          restoreEvents conf now buf events.length (p + 8) (keepEvent conf now ean v) := by
        rw [List.length_cons, restoreEvents_succ, hread]
        rfl
      rw [hstep, ih hlen hrest, List.foldl_cons, List.length_cons]
      congr 2
      omega

/-- One round of the walk over a payload that continues with the record `r`. -/
theorem restore_cons {slabs : ℕ → Slab} {n : ℕ} {w : Walk} {r : SnapRecord conf.threshold}
    {rest : List UInt8} (hp : w.p ≤ buf.length) (hbuf : buf.drop w.p = r.encode ++ rest) :
    restore core conf now buf slabs (n + 1) w =
      if r.Skipped now then
        restore core conf now buf slabs n { w with p := w.p + r.encode.length }
      else
        match restoreTarget core conf now (slabs n) r.key w.zone with
        | (zone, none) =>
          some ({ w with
            zone := zone
            p := w.p + fileRecLen + digestLen
            dropped := w.dropped + (n + 1) }, .noNode)
        | (zone, some a) =>
          restore core conf now buf slabs n
            { w with
              zone := setNode zone a (r.toNode conf now (zone.mem a))
              p := w.p + r.encode.length
              loaded := w.loaded + 1
              restored := a :: w.restored } := by
  have hlen := congrArg List.length hbuf
  rw [List.length_drop, List.length_append, r.length_encode] at hlen
  have hrl : fileRecLen = 20 := rfl
  have h0 : getU16 buf w.p = some digestLen := by
    rw [getU16_eq, ← Nat.add_zero w.p, ← readLE_drop hp, hbuf, ← getU16_eq, r.getU16_keyLen]
  have h2 : getU16 buf (w.p + 2) = some r.events.length := by
    rw [getU16_eq, ← readLE_drop hp, hbuf, ← getU16_eq, r.getU16_eventCount]
  have h4 : getU64 buf (w.p + 4) = some r.blocked.toNat := by
    rw [getU64_eq, ← readLE_drop hp, hbuf, ← getU64_eq, r.getU64_blocked]
  have h12 : getU64 buf (w.p + 12) = some r.seen.toNat := by
    rw [getU64_eq, ← readLE_drop hp, hbuf, ← getU64_eq, r.getU64_seen]
  have hbody : buf.drop (w.p + fileRecLen) = (r.key : Key) ++ (encodeEvents r.events ++ rest) := by
    rw [← List.drop_drop, hbuf, r.drop_header]
  have hkey : (buf.drop (w.p + fileRecLen)).take digestLen = r.key := by
    rw [hbody, List.take_left' r.key.2]
  have hevents : buf.drop (w.p + fileRecLen + digestLen) = encodeEvents r.events ++ rest := by
    rw [← List.drop_drop, hbody, List.drop_left' r.key.2]
  rw [restore, restoreVia, if_neg (by rw [ptrDiff_eq hp]; omega), restoreVia_plain, restoreEventsVia_plain]
  simp only [h0, h2, h4, h12, Option.bind_eq_bind, Option.bind_some, hkey]
  rw [if_neg (by
    have := r.length_le
    rw [ptrDiff_eq (by omega)]
    omega)]
  by_cases hskip : r.Skipped now
  · have hs : toInt64 r.blocked.toNat ≤ now ∧ r.events.length = 0 := hskip
    rw [if_pos hs, if_pos hskip, r.length_encode, hs.2]
    rfl
  · have hs : ¬ (toInt64 r.blocked.toNat ≤ now ∧ r.events.length = 0) := hskip
    rw [if_neg hs, if_neg hskip]
    generalize restoreTarget core conf now (slabs n) r.key w.zone = found
    obtain ⟨zone, _ | a⟩ := found
    · rfl
    · have hwalk := restoreEvents_eq conf now (by omega) hevents
        (restoreHeader conf now (toInt64 r.blocked.toNat) (toInt64 r.seen.toNat) (zone.mem a))
      simp only [hwalk, Option.bind_some, r.length_encode, ← Nat.add_assoc]
      rfl

/-- **The walk is a fold over the records.** It never leaves the buffer and none of its
guards fires; unless a node cannot be had, it ends where the buffer ends. -/
theorem restore_eq (core : Core) (now : ℤ) (slabs : ℕ → Slab)
    {rs : List (SnapRecord conf.threshold)} {w : Walk} (hp : w.p ≤ buf.length)
    (hbuf : buf.drop w.p = (rs.map SnapRecord.encode).flatten) :
    ∃ w' e, restore core conf now buf slabs rs.length w = some (w', e) ∧
      restoreAll core conf now slabs rs w.zone w.restored =
        (w'.zone, w'.restored, decide (e = .finished)) ∧
      (e = .finished ∧ w'.p = buf.length ∨ e = .noNode) := by
  induction rs generalizing w with
  | nil =>
      have hend : buf.length ≤ w.p := List.drop_eq_nil_iff.mp hbuf
      exact ⟨w, .finished, rfl, rfl, .inl ⟨rfl, le_antisymm hp hend⟩⟩
  | cons r rs ih =>
      have hbuf' : buf.drop w.p = r.encode ++ (rs.map SnapRecord.encode).flatten := hbuf
      have hlen : w.p + r.encode.length ≤ buf.length := by
        have := congrArg List.length hbuf'
        rw [List.length_drop, List.length_append] at this
        omega
      have hrest : buf.drop (w.p + r.encode.length) = (rs.map SnapRecord.encode).flatten := by
        rw [← List.drop_drop, hbuf', List.drop_left]
      rw [List.length_cons, restore_cons hp hbuf', restoreAll]
      split_ifs with hskip
      · exact ih (w := { w with p := w.p + r.encode.length }) hlen hrest
      · generalize restoreTarget core conf now (slabs rs.length) r.key w.zone = found
        obtain ⟨zone, _ | a⟩ := found
        · exact ⟨_, .noNode, rfl, rfl, .inr rfl⟩
        · exact ih (w := Walk.mk _ (w.p + r.encode.length) _ _ _) hlen hrest

/-- **Gate and loader in lockstep.** The validator decides, reading inside the buffer
only, whether the bytes are exactly the announced number of records; and over bytes it
accepts, the loader's walk reads inside the buffer only, is stopped by neither of its
truncation guards, and ends at the end of the buffer unless a node cannot be had. -/
theorem validateSnapshot_lockstep (buf : List UInt8) (records : UInt32) (threshold : ℕ) :
    (∃ rc, validateSnapshot buf records threshold = some rc ∧
      (rc = .ok ↔ IsPayload threshold records.toNat buf)) ∧
    (validateSnapshot buf records threshold = some .ok →
      ∀ (core : Core) (conf : ZoneConf), conf.threshold = threshold →
        ∀ (now : ℤ) (slabs : ℕ → Slab) (s : Shctx),
          ∃ w e, restore core conf now buf slabs records.toNat ⟨s, 0, 0, 0, []⟩ = some (w, e) ∧
            e ≠ .truncatedHeader ∧ e ≠ .truncatedBody ∧ (e ≠ .noNode → w.p = buf.length)) := by
  have hgate : ∃ rc, validateSnapshot buf records threshold = some rc ∧
      (rc = .ok ↔ IsPayload threshold records.toNat (buf.drop 0)) :=
    validateFrom_eq buf.length.zero_le
  rw [List.drop_zero] at hgate
  refine ⟨hgate, ?_⟩
  intro hok core conf hconf now slabs s
  obtain ⟨rc, hrc, hiff⟩ := hgate
  obtain rfl : rc = .ok := Option.some.inj (hrc.symm.trans hok)
  obtain ⟨rs, hlen, hl⟩ := isPayload_iff_encode.mp (hconf ▸ hiff.mp rfl)
  obtain ⟨w, e, hrun, -, hend⟩ := restore_eq core now slabs
    (w := ⟨s, 0, 0, 0, []⟩) buf.length.zero_le hl
  rw [← hlen]
  refine ⟨w, e, hrun, ?_⟩
  rcases hend with ⟨rfl, hp⟩ | rfl
  · exact ⟨by simp, by simp, fun _ => hp⟩
  · exact ⟨by simp, by simp, fun h => absurd rfl h⟩

end ErrorAbuse
