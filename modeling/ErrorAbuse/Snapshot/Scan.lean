import ErrorAbuse.Lib.Bytes
import ErrorAbuse.Zone.Memory

/-!
# The scan core

The little-endian field codecs of the snapshot format and the gate that checks a
payload before it is walked. A buffer is the list of the bytes of `[p, last)` and a
pointer an offset into it; reading a byte outside it gives `none`, so a result that
is `some` was computed from bytes inside the buffer alone.
-/

namespace ErrorAbuse

open Lib

def putU16 (v : ℕ) : List UInt8 := [UInt8.ofNat v, UInt8.ofNat (v >>> 8)]

def putU32 (v : ℕ) : List UInt8 :=
  [UInt8.ofNat v, UInt8.ofNat (v >>> 8), UInt8.ofNat (v >>> 16), UInt8.ofNat (v >>> 24)]

def putU64 (v : ℕ) : List UInt8 := (List.range 8).map fun i => UInt8.ofNat (v >>> (8 * i))

def getU16 (buf : List UInt8) (p : ℕ) : Option ℕ := do
  let b₀ ← buf[p]?
  let b₁ ← buf[p + 1]?
  return b₀.toNat ||| b₁.toNat <<< 8

def getU32 (buf : List UInt8) (p : ℕ) : Option ℕ := do
  let b₀ ← buf[p]?
  let b₁ ← buf[p + 1]?
  let b₂ ← buf[p + 2]?
  let b₃ ← buf[p + 3]?
  return ((b₀.toNat ||| b₁.toNat <<< 8) ||| b₂.toNat <<< 16) ||| b₃.toNat <<< 24

def getU64 (buf : List UInt8) (p : ℕ) : Option ℕ := orBytes buf p 8

/-- A pointer difference cast to `size_t`, which wraps when the pointer is past the end. -/
def ptrDiff (last p : ℕ) : ℕ := if p ≤ last then last - p else 2 ^ 64 - (p - last)

/-- Bytes of a record's header: key length, event count, deadline, last seen. -/
def fileRecLen : ℕ := 20

/-- The loop of `validateSnapshot` with the number of records still to come. -/
def validateFrom (buf : List UInt8) (threshold : ℕ) : ℕ → ℕ → Option Rc
  | 0, p => some (if p = buf.length then .ok else .error)
  | n + 1, p =>
    if ptrDiff buf.length p < fileRecLen then some .error
    else do
      let recKeyLen ← getU16 buf p
      let recEventCount ← getU16 buf (p + 2)
      let p := p + fileRecLen
      if recKeyLen ≠ digestLen ∨ recEventCount > threshold then return .error
      else
        let payload := recKeyLen + recEventCount * 8
        if ptrDiff buf.length p < payload then return .error
        else validateFrom buf threshold n (p + payload)

def validateSnapshot (buf : List UInt8) (records : UInt32) (threshold : ℕ) : Option Rc :=
  validateFrom buf threshold records.toNat 0

def serializeRecLen (keyLen eventCount : ℕ) : ℕ := fileRecLen + keyLen + eventCount * 8

/-! ## The codecs are the little-endian ones -/

@[simp] theorem putU16_eq (v : ℕ) : putU16 v = encodeLE 2 v :=
  map_shiftRight_eq_encodeLE 2 v

@[simp] theorem putU32_eq (v : ℕ) : putU32 v = encodeLE 4 v :=
  map_shiftRight_eq_encodeLE 4 v

@[simp] theorem putU64_eq (v : ℕ) : putU64 v = encodeLE 8 v :=
  map_shiftRight_eq_encodeLE 8 v

@[simp] theorem getU16_eq (buf : List UInt8) (p : ℕ) : getU16 buf p = readLE buf p 2 := by
  rw [← orBytes_eq_readLE buf p 2 (.inl (by decide))]
  simp [getU16, orBytes, Option.bind_assoc]

@[simp] theorem getU32_eq (buf : List UInt8) (p : ℕ) : getU32 buf p = readLE buf p 4 := by
  rw [← orBytes_eq_readLE buf p 4 (.inl (by decide))]
  simp [getU32, orBytes, Option.bind_assoc]

@[simp] theorem getU64_eq (buf : List UInt8) (p : ℕ) : getU64 buf p = readLE buf p 8 :=
  orBytes_eq_readLE buf p 8 (.inl (by decide))

/-- The pointer difference is the number of bytes left. -/
theorem ptrDiff_eq {last p : ℕ} (h : p ≤ last) : ptrDiff last p = last - p := if_pos h

/-! ## Records -/

/-- The bytes of one record: a header that announces a 32-byte key and at most
`threshold` events, and after it that key and those events. -/
structure IsRecord (threshold : ℕ) (r : List UInt8) : Prop where
  keyLen : getU16 r 0 = some digestLen
  events : ∃ count, getU16 r 2 = some count ∧ count ≤ threshold ∧
    r.length = fileRecLen + (digestLen + 8 * count)

/-- The bytes of a payload of `n` records and nothing else. -/
def IsPayload (threshold n : ℕ) (l : List UInt8) : Prop :=
  ∃ recs : List (List UInt8), recs.length = n ∧ l = recs.flatten ∧ ∀ r ∈ recs, IsRecord threshold r

variable {buf l : List UInt8} {threshold n p : ℕ}

@[simp] theorem isPayload_zero : IsPayload threshold 0 l ↔ l = [] := by
  constructor
  · intro ⟨recs, hlen, hl, _⟩
    rw [hl, List.length_eq_zero_iff.mp hlen]
    rfl
  · intro hl
    exact ⟨[], rfl, hl, by simp⟩

theorem isPayload_succ :
    IsPayload threshold (n + 1) l ↔
      ∃ r rest, l = r ++ rest ∧ IsRecord threshold r ∧ IsPayload threshold n rest := by
  constructor
  · intro ⟨recs, hlen, hl, hrecs⟩
    cases recs with
    | nil => cases hlen
    | cons r recs =>
        refine ⟨r, recs.flatten, hl, hrecs r List.mem_cons_self, recs, ?_, rfl, ?_⟩
        · simpa using hlen
        · exact fun r' hr' => hrecs r' (List.mem_cons_of_mem r hr')
  · intro ⟨r, rest, hl, hr, recs, hlen, hrest, hrecs⟩
    refine ⟨r :: recs, by simp [hlen], by simp [hl, hrest], ?_⟩
    intro r' hr'
    rcases List.mem_cons.mp hr' with rfl | hr'
    · exact hr
    · exact hrecs r' hr'

/-- The length of the record a payload starts with, if it starts with one. -/
def frame (threshold : ℕ) (l : List UInt8) : Option ℕ := do
  let k ← getU16 l 0
  let c ← getU16 l 2
  if k = digestLen ∧ c ≤ threshold ∧ fileRecLen + (digestLen + 8 * c) ≤ l.length then
    some (fileRecLen + (digestLen + 8 * c))
  else none

/-- The header fields of a first record. -/
private theorem getU16_take {len o : ℕ} (hlen : len ≤ l.length) (ho : o + 2 ≤ len) :
    getU16 (l.take len) o = getU16 l o := by
  have h := readLE_append_left (l := l.take len) (o := o) (w := 2)
    (by rw [List.length_take, min_eq_left hlen]; exact ho) (l.drop len)
  rw [List.take_append_drop] at h
  rw [getU16_eq, getU16_eq, h]

theorem frame_eq_some {len : ℕ} :
    frame threshold l = some len ↔ len ≤ l.length ∧ IsRecord threshold (l.take len) := by
  simp only [frame, Option.bind_eq_bind, Option.bind_eq_some_iff, Option.ite_none_right_eq_some,
    Option.some.injEq]
  constructor
  · intro ⟨k, hk, c, hc, ⟨hkd, hct, hlen⟩, he⟩
    subst he hkd
    have hge : 4 ≤ fileRecLen + (digestLen + 8 * c) := by simp [fileRecLen]; omega
    refine ⟨hlen, ?_, c, ?_, hct, ?_⟩
    · rw [getU16_take hlen (by omega), hk]
    · rw [getU16_take hlen (by omega), hc]
    · rw [List.length_take, min_eq_left hlen]
  · intro ⟨hlen, hk, c, hc, hct, hl⟩
    rw [List.length_take, min_eq_left hlen] at hl
    have hge : 4 ≤ len := by rw [hl, fileRecLen]; omega
    rw [getU16_take hlen (by omega)] at hk hc
    exact ⟨digestLen, hk, c, hc, ⟨rfl, hct, hl ▸ hlen⟩, hl.symm⟩

/-- One round of the validator consumes one record or rejects. -/
theorem validateFrom_succ (hp : p ≤ buf.length) :
    validateFrom buf threshold (n + 1) p =
      match frame threshold (buf.drop p) with
      | none => some .error
      | some len => validateFrom buf threshold n (p + len) := by
  have h0 : getU16 (buf.drop p) 0 = getU16 buf p := by
    rw [getU16_eq, getU16_eq, readLE_drop hp, Nat.add_zero]
  have h2 : getU16 (buf.drop p) 2 = getU16 buf (p + 2) := by
    rw [getU16_eq, getU16_eq, readLE_drop hp]
  rw [validateFrom, frame, h0, h2, List.length_drop]
  by_cases hhdr : ptrDiff buf.length p < fileRecLen
  · rw [if_pos hhdr]
    rw [ptrDiff_eq hp] at hhdr
    cases getU16 buf p with
    | none => rfl
    | some k =>
        cases getU16 buf (p + 2) with
        | none => rfl
        | some c =>
            simp only [Option.bind_eq_bind, Option.bind_some]
            rw [if_neg (by omega)]
  · rw [if_neg hhdr]
    rw [ptrDiff_eq hp] at hhdr
    have hrec : 4 ≤ fileRecLen := by decide
    obtain ⟨k, hk⟩ : ∃ k, getU16 buf p = some k := ⟨_, (getU16_eq ..).trans (readLE_eq_some (by omega))⟩
    obtain ⟨c, hc⟩ : ∃ c, getU16 buf (p + 2) = some c :=
      ⟨_, (getU16_eq ..).trans (readLE_eq_some (by omega))⟩
    simp only [hk, hc, Option.bind_eq_bind, Option.bind_some]
    by_cases hkc : k = digestLen ∧ c ≤ threshold
    · obtain ⟨rfl, hct⟩ := hkc
      rw [if_neg (by omega), ptrDiff_eq (by omega)]
      by_cases hbody : buf.length - (p + fileRecLen) < digestLen + c * 8
      · rw [if_pos hbody, if_neg (by omega)]
        rfl
      · rw [if_neg hbody, if_pos ⟨rfl, hct, by omega⟩]
        simp only [Nat.add_assoc, Nat.mul_comm]
    · rw [if_pos (by omega), if_neg (by intro ⟨hk', hc', _⟩; exact hkc ⟨hk', hc'⟩)]
      rfl

/-- The validator decides whether the rest of the buffer is a payload, and never reads
outside it. -/
theorem validateFrom_eq (hp : p ≤ buf.length) :
    ∃ rc, validateFrom buf threshold n p = some rc ∧
      (rc = .ok ↔ IsPayload threshold n (buf.drop p)) := by
  induction n generalizing p with
  | zero =>
      refine ⟨_, rfl, ?_⟩
      rw [isPayload_zero, List.drop_eq_nil_iff]
      split_ifs with h
      · simp [h]
      · simp only [false_iff]; omega
  | succ n ih =>
      rw [validateFrom_succ hp]
      cases hf : frame threshold (buf.drop p) with
      | none =>
          refine ⟨.error, rfl, ?_⟩
          simp only [reduceCtorEq, false_iff]
          intro h
          obtain ⟨r, rest, hl, hr, -⟩ := isPayload_succ.mp h
          have : frame threshold (buf.drop p) = some r.length := by
            rw [frame_eq_some, hl]
            exact ⟨by simp, by rwa [List.take_left]⟩
          rw [hf] at this
          cases this
      | some len =>
          obtain ⟨hlen, hr⟩ := frame_eq_some.mp hf
          rw [List.length_drop] at hlen
          obtain ⟨rc, hrc, hiff⟩ := ih (p := p + len) (by omega)
          refine ⟨rc, hrc, hiff.trans ?_⟩
          rw [isPayload_succ, ← List.drop_drop]
          constructor
          · intro h
            exact ⟨_, _, (List.take_append_drop len _).symm, hr, h⟩
          · intro ⟨r, rest, hl, hr', h⟩
            have hfr : frame threshold (buf.drop p) = some r.length := by
              rw [frame_eq_some, hl]
              exact ⟨by simp, by rwa [List.take_left]⟩
            obtain rfl : len = r.length := Option.some.inj (hf.symm.trans hfr)
            rwa [hl, List.drop_left]

end ErrorAbuse
