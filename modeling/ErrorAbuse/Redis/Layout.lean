import ErrorAbuse.Lib.Cursor
import ErrorAbuse.Redis.Keys

/-!
# The layout of Redis keys

`redis_keys` allocates room for its two keys by one formula and fills it by a sequence of
writes. The writes fill the room exactly. Since neither the prefix nor the name of a zone may
contain braces, the digest has a constant width and the suffixes differ, a key tells what it
was built from; and what Redis Cluster hashes, the text between the braces, leaves out the
suffix.
-/

namespace ErrorAbuse

open Lib

/-- `redis_key_len` -/
def redisKeyLen (prefixLen zoneNameLen digestLen : ℕ) : ℕ :=
  prefixLen + 1 + zoneNameLen + 1 + digestLen * 2 + 1

/-- `redis_key_write`, one write after the other. -/
def putRedisKey (keyPrefix zoneName digest : List UInt8) (buf : Cursor UInt8) :
    Option (Cursor UInt8) := do
  let p ← buf.put keyPrefix
  let p ← p.put [123]
  let p ← p.put zoneName
  let p ← p.put [58]
  let p ← digest.foldlM (fun p b => do
    let p ← p.put [hexDigits.getD (b >>> 4).toNat 0]
    p.put [hexDigits.getD (b &&& 0x0f).toNat 0]) p
  p.put [125]

/-- What `redis_keys` allocates and writes. The key of the ban begins with a copy of what was
written to that of the events. -/
def putRedisKeys (conf : RedisConf) (zone : ZoneConf) (key : Key) :
    Option (Cursor UInt8 × Cursor UInt8) := do
  let baseLen := redisKeyLen conf.keyPrefix.length zone.name.length key.length
  let events ← putRedisKey conf.keyPrefix zone.name key (.fresh (baseLen + eventsSuffix.length))
  let events ← events.put eventsSuffix
  let base ← events.read baseLen
  let block ← (Cursor.fresh (baseLen + blockSuffix.length)).put base
  let block ← block.put blockSuffix
  return (events, block)

/-- What Redis Cluster hashes. -/
def hashTag (key : List UInt8) : Option (List UInt8) := between 123 125 key

inductive KeyKind
  | events
  | block
  deriving DecidableEq, Repr

def KeyKind.suffix : KeyKind → List UInt8
  | events => eventsSuffix
  | block => blockSuffix

def RedisKeys.get (keys : RedisKeys) : KeyKind → List UInt8
  | .events => keys.events
  | .block => keys.block

/-- A text without braces, as prefixes and names of zones are. -/
def Braceless (text : List UInt8) : Prop := 123 ∉ text ∧ 125 ∉ text

variable {conf conf' : RedisConf} {zone zone' : ZoneConf} {key key' : Digest}

/-! ## Hexadecimal digests -/

theorem hexByte_injective : Function.Injective hexByte := by
  have hdigits : ∀ i < 16, ∀ j < 16, hexDigits.getD i 0 = hexDigits.getD j 0 → i = j := by decide
  have hhigh : ∀ b : UInt8, (b >>> 4).toNat = b.toNat / 16 := by
    intro b
    simp [UInt8.toNat_shiftRight, Nat.shiftRight_eq_div_pow]
  have hlow : ∀ b : UInt8, (b &&& 0x0f).toNat = b.toNat % 16 := by
    intro b
    simpa using Nat.and_two_pow_sub_one_eq_mod b.toNat 4
  intro b b' h
  have hb := b.toNat_lt
  have hb' := b'.toNat_lt
  simp only [hexByte, List.cons.injEq, and_true, hhigh, hlow] at h
  have hdiv := hdigits _ (by omega) _ (by omega) h.1
  have hmod := hdigits _ (by omega) _ (by omega) h.2
  exact UInt8.toNat_inj.mp (by omega)

theorem length_hexByte (b : UInt8) : (hexByte b).length = 2 := rfl

theorem hexDigits_ne (i : ℕ) : hexDigits.getD i 0 ≠ 125 := by
  by_cases hi : i < 16
  · interval_cases i <;> decide
  · rw [List.getD_eq_default _ _ (by simpa [hexDigits] using hi)]
    decide

theorem brace_not_mem_hex (digest : List UInt8) : 125 ∉ digest.flatMap hexByte := by
  intro h
  obtain ⟨b, -, hb⟩ := List.mem_flatMap.mp h
  rcases List.mem_cons.mp hb with hhigh | hb
  · exact hexDigits_ne _ hhigh.symm
  · exact hexDigits_ne _ (List.mem_singleton.mp hb).symm

/-! ## Writing -/

theorem length_redisKeyWrite (keyPrefix zoneName digest : List UInt8) :
    (redisKeyWrite keyPrefix zoneName digest).length =
      redisKeyLen keyPrefix.length zoneName.length digest.length := by
  simp only [redisKeyWrite, redisKeyLen, List.length_append, List.length_cons, List.length_nil,
    length_flatMap_const length_hexByte]
  omega

/-- The writes are one write of the whole key. -/
theorem putRedisKey_eq (keyPrefix zoneName digest : List UInt8) (buf : Cursor UInt8) :
    putRedisKey keyPrefix zoneName digest buf =
      buf.put (redisKeyWrite keyPrefix zoneName digest) := by
  have hdigits : ∀ p : Cursor UInt8, digest.foldlM (fun p b =>
      (p.put [hexDigits.getD (b >>> 4).toNat 0]).bind fun p =>
        p.put [hexDigits.getD (b &&& 0x0f).toNat 0]) p = p.put (digest.flatMap hexByte) := by
    intro p
    rw [← Cursor.foldlM_put]
    congr
    funext p b
    exact (p.put_append [_] [_]).symm
  have hwrite : redisKeyWrite keyPrefix zoneName digest =
      keyPrefix ++ ([123] ++ (zoneName ++ ([58] ++ (digest.flatMap hexByte ++ [125])))) := by
    simp [redisKeyWrite]
  rw [hwrite]
  simp only [Cursor.put_append, putRedisKey, hdigits, Option.bind_eq_bind]

/-- Both keys fill what was allocated for them. -/
theorem putRedisKeys_eq (conf : RedisConf) (zone : ZoneConf) (key : Key) :
    putRedisKeys conf zone key =
      some (⟨(buildRedisKeys conf zone key).events, 0⟩,
        ⟨(buildRedisKeys conf zone key).block, 0⟩) := by
  have hlen := length_redisKeyWrite conf.keyPrefix zone.name key
  have hfit : ∀ suffix : List UInt8,
      ((Cursor.fresh ((redisKeyWrite conf.keyPrefix zone.name key).length + suffix.length)).put
        (redisKeyWrite conf.keyPrefix zone.name key)).bind (fun c => c.put suffix) =
      some ⟨redisKeyWrite conf.keyPrefix zone.name key ++ suffix, 0⟩ := by
    intro suffix
    rw [← Cursor.put_append, Cursor.put_of_le (by simp [Cursor.fresh])]
    simp [Cursor.fresh]
  have hread : Cursor.read ⟨redisKeyWrite conf.keyPrefix zone.name key ++ eventsSuffix, 0⟩
      (redisKeyWrite conf.keyPrefix zone.name key).length =
      some (redisKeyWrite conf.keyPrefix zone.name key) := by
    simp [Cursor.read]
  simp only [putRedisKeys, ← hlen, putRedisKey_eq, Option.bind_eq_bind]
  rw [← Option.bind_assoc, hfit, Option.bind_some, hread, Option.bind_some, ← Option.bind_assoc,
    hfit]
  rfl

/-! ## Reading -/

theorem get_buildRedisKeys (conf : RedisConf) (zone : ZoneConf) (key : Key) (kind : KeyKind) :
    (buildRedisKeys conf zone key).get kind = conf.keyPrefix ++ 123 ::
      ((zone.name ++ 58 :: key.flatMap hexByte) ++ 125 :: kind.suffix) := by
  cases kind <;> simp [buildRedisKeys, RedisKeys.get, KeyKind.suffix, redisKeyWrite]

theorem brace_not_mem_tag (hzone : Braceless zone.name) (key : Key) :
    125 ∉ zone.name ++ 58 :: key.flatMap hexByte := by
  have hhex := brace_not_mem_hex key
  simp [hzone.2, hhex]

theorem hashTag_get (hkeyPrefix : Braceless conf.keyPrefix) (hzone : Braceless zone.name)
    (key : Key) (kind : KeyKind) : hashTag ((buildRedisKeys conf zone key).get kind) =
      some (zone.name ++ 58 :: key.flatMap hexByte) := by
  rw [get_buildRedisKeys]
  exact between_eq hkeyPrefix.1 (brace_not_mem_tag hzone key)

theorem suffix_injective : Function.Injective KeyKind.suffix := by
  intro kind kind' h
  cases kind <;> cases kind' <;> first | rfl | cases h

theorem get_buildRedisKeys_inj {kind kind' : KeyKind}
    (hkeyPrefix : Braceless conf.keyPrefix) (hzone : Braceless zone.name)
    (hkeyPrefix' : Braceless conf'.keyPrefix) (hzone' : Braceless zone'.name)
    (h : (buildRedisKeys conf zone key).get kind = (buildRedisKeys conf' zone' key').get kind') :
    conf.keyPrefix = conf'.keyPrefix ∧ zone.name = zone'.name ∧ key = key' ∧ kind = kind' := by
  rw [get_buildRedisKeys, get_buildRedisKeys] at h
  obtain ⟨heq, hrest⟩ := append_cons_inj hkeyPrefix.1 hkeyPrefix'.1 h
  obtain ⟨htag, hsuffix⟩ :=
    append_cons_inj (brace_not_mem_tag hzone key) (brace_not_mem_tag hzone' key') hrest
  -- the digest has a constant width, so that the name may contain what it likes
  have hwidth : (58 :: key.1.flatMap hexByte).length = (58 :: key'.1.flatMap hexByte).length := by
    simp only [List.length_cons, length_flatMap_const length_hexByte, key.2, key'.2]
  obtain ⟨hname, hhex⟩ := List.append_inj' htag hwidth
  have hdigest := flatMap_injective two_pos length_hexByte hexByte_injective (List.cons.inj hhex).2
  exact ⟨heq, hname, Subtype.ext hdigest, suffix_injective hsuffix⟩

/-- **Redis keys.** The key text has the length of the formula, wherever there is that much
room; both keys fill what is allocated for them; they have the same hash tag; and keys built
from different prefixes, zone names or digests, or of different kinds, differ. -/
theorem redis_keys_sound (conf : RedisConf) (zone : ZoneConf) (key : Digest)
    (hkeyPrefix : Braceless conf.keyPrefix) (hzone : Braceless zone.name) :
    let base := redisKeyLen conf.keyPrefix.length zone.name.length key.1.length
    let keys := buildRedisKeys conf zone key
    (∀ buf : Cursor UInt8, base ≤ buf.room → ∃ text, text.length = base ∧
      putRedisKey conf.keyPrefix zone.name key buf = some ⟨buf.written ++ text, buf.room - base⟩) ∧
    putRedisKeys conf zone key = some (⟨keys.events, 0⟩, ⟨keys.block, 0⟩) ∧
    keys.events.length = base + eventsSuffix.length ∧
    keys.block.length = base + blockSuffix.length ∧
    (∃ tag, hashTag keys.events = some tag ∧ hashTag keys.block = some tag) ∧
    ∀ (conf' : RedisConf) (zone' : ZoneConf) (key' : Digest) (kind kind' : KeyKind),
      Braceless conf'.keyPrefix → Braceless zone'.name →
      keys.get kind = (buildRedisKeys conf' zone' key').get kind' →
      conf.keyPrefix = conf'.keyPrefix ∧ zone.name = zone'.name ∧ key = key' ∧ kind = kind' := by
  intro base keys
  have hlen : (redisKeyWrite conf.keyPrefix zone.name key).length = base :=
    length_redisKeyWrite ..
  refine ⟨fun buf hroom => ⟨_, hlen, ?_⟩, putRedisKeys_eq conf zone key, ?_, ?_, ?_, ?_⟩
  · rw [putRedisKey_eq, Cursor.put_of_le (hlen.le.trans hroom), hlen]
  · rw [← hlen]
    exact List.length_append
  · rw [← hlen]
    exact List.length_append
  · exact ⟨_, hashTag_get hkeyPrefix hzone key .events, hashTag_get hkeyPrefix hzone key .block⟩
  · intro conf' zone' key' kind kind' hkeyPrefix' hzone' h
    exact get_buildRedisKeys_inj hkeyPrefix hzone hkeyPrefix' hzone' h

/-- A prefix that looks like a suffix does not get in the way. -/
theorem redis_keys_sound_suffix :
    let conf := { RedisConf.sample with keyPrefix := eventsSuffix }
    let keys := buildRedisKeys conf .small (Digest.repeated 7)
    keys.events.length = 82 ∧ keys.block.length = 81 ∧
      ∃ tag, hashTag keys.events = some tag ∧ hashTag keys.block = some tag := by
  intro conf keys
  obtain ⟨-, -, hevents, hblock, htag, -⟩ := redis_keys_sound conf .small (.repeated 7)
    ⟨by decide, by decide⟩ ⟨by decide, by decide⟩
  exact ⟨hevents, hblock, htag⟩

end ErrorAbuse
