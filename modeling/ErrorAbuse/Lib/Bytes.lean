import Mathlib.Data.List.Basic
import Mathlib.Data.Nat.Basic
import Mathlib.Tactic.Ring

/-!
# Little-endian fields in a byte buffer

A field of `w` bytes is a natural number, least significant byte first. Writing
keeps the value modulo `256 ^ w`; reading is a partial operation that fails when
the field does not lie inside the buffer, so that a program which only ever
obtains `some` has read in bounds.

`orBytes` is the usual assembly of a field by shifts and disjunctions; it agrees
with the arithmetic reading `decodeLE`.
-/

namespace Lib

/-- The `w` little-endian bytes of `n`. -/
def encodeLE : ℕ → ℕ → List UInt8
  | 0, _ => []
  | w + 1, n => UInt8.ofNat n :: encodeLE w (n / 256)

/-- The number with the given little-endian bytes. -/
def decodeLE : List UInt8 → ℕ
  | [] => 0
  | b :: bs => b.toNat + 256 * decodeLE bs

@[simp] theorem length_encodeLE (w n : ℕ) : (encodeLE w n).length = w := by
  induction w generalizing n with
  | zero => rfl
  | succ w ih => simp [encodeLE, ih]

/-- Writing keeps the value modulo the width. -/
theorem decodeLE_encodeLE (w n : ℕ) : decodeLE (encodeLE w n) = n % 256 ^ w := by
  induction w generalizing n with
  | zero => simp [encodeLE, decodeLE, Nat.mod_one]
  | succ w ih =>
      have hb : (UInt8.ofNat n).toNat = n % 256 := UInt8.toNat_ofNat'
      rw [encodeLE, decodeLE, ih, hb, pow_succ', Nat.mod_mul]

theorem decodeLE_lt (bs : List UInt8) : decodeLE bs < 256 ^ bs.length := by
  induction bs with
  | nil => simp [decodeLE]
  | cons b bs ih =>
      have hb : b.toNat < 256 := b.toNat_lt
      simp only [decodeLE, List.length_cons, pow_succ']
      omega

theorem decodeLE_append (l₁ l₂ : List UInt8) :
    decodeLE (l₁ ++ l₂) = decodeLE l₁ + 256 ^ l₁.length * decodeLE l₂ := by
  induction l₁ with
  | nil => simp [decodeLE]
  | cons b bs ih =>
      simp only [List.cons_append, decodeLE, ih, List.length_cons, pow_succ']
      ring

/-- Bytes written by shifting right are the little-endian bytes. -/
theorem map_shiftRight_eq_encodeLE (w n : ℕ) :
    (List.range w).map (fun i => UInt8.ofNat (n >>> (8 * i))) = encodeLE w n := by
  induction w generalizing n with
  | zero => rfl
  | succ w ih =>
      rw [List.range_succ_eq_map, List.map_cons, List.map_map, encodeLE, ← ih (n / 256)]
      congr 1
      apply List.map_congr_left
      intro i _
      have hpow : (2 : ℕ) ^ (8 * (i + 1)) = 256 * 2 ^ (8 * i) := by
        rw [Nat.mul_add, pow_add, Nat.mul_comm]
        norm_num
      simp only [Function.comp_apply, Nat.shiftRight_eq_div_pow, Nat.div_div_eq_div_mul,
        Nat.succ_eq_add_one, hpow]

/-- Add a byte above the bytes already assembled. -/
theorem or_shiftLeft_byte {v : ℕ} {i : ℕ} (hv : v < 256 ^ i) (b : UInt8) :
    v ||| b.toNat <<< (8 * i) = v + 256 ^ i * b.toNat := by
  have hpow : (256 : ℕ) ^ i = 2 ^ (8 * i) := by rw [pow_mul]; norm_num
  rw [Nat.or_comm, ← Nat.shiftLeft_add_eq_or_of_lt (hpow ▸ hv), Nat.shiftLeft_eq, hpow]
  ring

/-- The field of `w` bytes at offset `p`, if it lies inside the buffer. -/
def readLE (buf : List UInt8) (p w : ℕ) : Option ℕ :=
  if p + w ≤ buf.length then some (decodeLE ((buf.drop p).take w)) else none

theorem readLE_eq_some {buf : List UInt8} {p w : ℕ} (h : p + w ≤ buf.length) :
    readLE buf p w = some (decodeLE ((buf.drop p).take w)) := if_pos h

theorem readLE_lt {buf : List UInt8} {p w n : ℕ} (h : readLE buf p w = some n) :
    n < 256 ^ w := by
  unfold readLE at h
  split at h
  · rename_i hp
    cases h
    have := decodeLE_lt ((buf.drop p).take w)
    rwa [List.length_take, List.length_drop, min_eq_left (by omega)] at this
  · cases h

theorem readLE_zero_width (buf : List UInt8) {p : ℕ} (h : p ≤ buf.length) :
    readLE buf p 0 = some 0 := by simp [readLE, h, decodeLE]

/-- A field is the field below it and the byte on top. -/
theorem readLE_succ (buf : List UInt8) (p w : ℕ) :
    readLE buf p (w + 1) =
      (readLE buf p w).bind fun v => (buf[p + w]?).map fun b => v + 256 ^ w * b.toNat := by
  by_cases h : p + (w + 1) ≤ buf.length
  · have hw : p + w < buf.length := by omega
    rw [readLE_eq_some h, readLE_eq_some (by omega : p + w ≤ buf.length), Option.bind_some,
      List.getElem?_eq_getElem hw, Option.map_some]
    congr 1
    rw [List.take_add_one, decodeLE_append, List.getElem?_drop, List.getElem?_eq_getElem hw]
    simp [decodeLE, List.length_take, List.length_drop, min_eq_left (show w ≤ buf.length - p by omega)]
  · rw [readLE, if_neg h]
    by_cases hw : p + w ≤ buf.length
    · have : buf.length = p + w := by omega
      simp [readLE, this]
    · simp [readLE, hw]

/-- A field inside the middle part of a buffer is that part's own field. -/
theorem readLE_middle (pre mid post : List UInt8) {o w : ℕ} (h : o + w ≤ mid.length) :
    readLE (pre ++ (mid ++ post)) (pre.length + o) w = readLE mid o w := by
  rw [readLE_eq_some (by simp; omega), readLE_eq_some h]
  congr 2
  rw [← List.drop_drop, List.drop_left, List.drop_append_of_le_length (by omega),
    List.take_append_of_le_length (by simp; omega)]

/-- A written field is read back, modulo its width. -/
theorem readLE_encodeLE (pre post : List UInt8) (w n : ℕ) :
    readLE (pre ++ (encodeLE w n ++ post)) pre.length w = some (n % 256 ^ w) := by
  have h := readLE_middle pre (encodeLE w n) post (o := 0) (w := w) (by simp)
  rw [Nat.add_zero] at h
  rw [h, readLE_eq_some (by simp), List.drop_zero, List.take_of_length_le (by simp),
    decodeLE_encodeLE]

/-- Assemble `w` bytes from offset `p` on by shifts and disjunctions. -/
def orBytes (buf : List UInt8) (p : ℕ) : ℕ → Option ℕ
  | 0 => some 0
  | w + 1 => do
    let v ← orBytes buf p w
    let b ← buf[p + w]?
    return v ||| b.toNat <<< (8 * w)

/-- The assembled field is the arithmetic one, inside the buffer and outside. -/
theorem orBytes_eq_readLE (buf : List UInt8) (p w : ℕ) (hw : 0 < w ∨ p ≤ buf.length) :
    orBytes buf p w = readLE buf p w := by
  induction w with
  | zero =>
      rw [readLE_zero_width buf (by omega)]
      rfl
  | succ w ih =>
      rw [readLE_succ]
      by_cases hp : p ≤ buf.length
      · rw [orBytes, ih (.inr hp)]
        cases hr : readLE buf p w with
        | none => rfl
        | some v =>
            cases hb : buf[p + w]? with
            | none => rfl
            | some b =>
                simp only [Option.bind_eq_bind, Option.bind_some, Option.pure_def, Option.map_some,
                  or_shiftLeft_byte (readLE_lt hr)]
      · have hb : buf[p + w]? = none := by
          rw [List.getElem?_eq_none_iff]; omega
        rw [orBytes, hb]
        cases orBytes buf p w <;> cases readLE buf p w <;> rfl

/-- A field of the rest of a buffer. -/
theorem readLE_drop {buf : List UInt8} {p : ℕ} (h : p ≤ buf.length) (o w : ℕ) :
    readLE (buf.drop p) o w = readLE buf (p + o) w := by
  have hlen : o + w ≤ (buf.drop p).length ↔ p + o + w ≤ buf.length := by
    rw [List.length_drop]; omega
  simp only [readLE, hlen, List.drop_drop]

/-- Reading past a first part. -/
theorem readLE_append_right (pre l : List UInt8) (o w : ℕ) :
    readLE (pre ++ l) (pre.length + o) w = readLE l o w := by
  rw [← readLE_drop (by simp), List.drop_left]

/-- A field written first is read back, modulo its width. -/
theorem readLE_zero_encodeLE (w n : ℕ) (post : List UInt8) :
    readLE (encodeLE w n ++ post) 0 w = some (n % 256 ^ w) := readLE_encodeLE [] post w n

/-- Reading inside a first part. -/
theorem readLE_append_left {l : List UInt8} {o w : ℕ} (h : o + w ≤ l.length) (post : List UInt8) :
    readLE (l ++ post) o w = readLE l o w := by
  have := readLE_middle [] l post h
  rwa [List.nil_append, List.length_nil, Nat.zero_add] at this

/-- Bytes are the encoding of the number they denote. -/
theorem encodeLE_decodeLE (bs : List UInt8) : encodeLE bs.length (decodeLE bs) = bs := by
  induction bs with
  | nil => rfl
  | cons b bs ih =>
      have hb : b.toNat < 256 := b.toNat_lt
      have hdiv : (b.toNat + 256 * decodeLE bs) / 256 = decodeLE bs := by omega
      have hbyte : UInt8.ofNat (b.toNat + 256 * decodeLE bs) = b := by
        apply UInt8.toNat_inj.mp
        rw [UInt8.toNat_ofNat']
        omega
      rw [List.length_cons, decodeLE, encodeLE, hdiv, hbyte, ih]

/-- A buffer is its first field, written, and the rest. -/
theorem eq_encodeLE_append {l : List UInt8} {w : ℕ} (h : w ≤ l.length) :
    ∃ v < 256 ^ w, l = encodeLE w v ++ l.drop w := by
  have hlen : (l.take w).length = w := by rw [List.length_take, min_eq_left h]
  refine ⟨decodeLE (l.take w), by simpa only [hlen] using decodeLE_lt (l.take w), ?_⟩
  have he := encodeLE_decodeLE (l.take w)
  rw [hlen] at he
  rw [he, List.take_append_drop]

/-- Skipping a first part of known length. -/
theorem readLE_skip {pre : List UInt8} {k : ℕ} (h : pre.length = k) (l : List UInt8) (o w : ℕ) :
    readLE (pre ++ l) (k + o) w = readLE l o w := by
  subst h; exact readLE_append_right pre l o w

end Lib
