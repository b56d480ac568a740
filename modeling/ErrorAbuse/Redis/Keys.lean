import ErrorAbuse.Redis.Worker

/-!
# Redis keys

Each identity of a zone has two keys in Redis: a sorted set of its events and its ban. Both
begin with the prefix of the configuration and, in braces, the zone's name and the digest
in hexadecimal, which is the part that Redis Cluster hashes.
-/

namespace ErrorAbuse

/-- "0123456789abcdef" -/
def hexDigits : List UInt8 :=
  [48, 49, 50, 51, 52, 53, 54, 55, 56, 57, 97, 98, 99, 100, 101, 102]

/-- The two hexadecimal digits of a byte. -/
def hexByte (b : UInt8) : List UInt8 :=
  [hexDigits.getD (b >>> 4).toNat 0, hexDigits.getD (b &&& 0x0f).toNat 0]

/-- What `redis_key_write` writes: `prefix{zone:digest}`. -/
def redisKeyWrite (keyPrefix zoneName digest : List UInt8) : List UInt8 :=
  keyPrefix ++ 123 :: (zoneName ++ 58 :: (digest.flatMap hexByte ++ [125]))

/-- ":events" -/
def eventsSuffix : List UInt8 := [58, 101, 118, 101, 110, 116, 115]

/-- ":block" -/
def blockSuffix : List UInt8 := [58, 98, 108, 111, 99, 107]

/-- The two keys of an identity. -/
structure RedisKeys where
  events : List UInt8
  block : List UInt8
  deriving DecidableEq, Repr

/-- The keys that `redis_keys` builds. -/
def buildRedisKeys (conf : RedisConf) (zone : ZoneConf) (key : Key) : RedisKeys :=
  let base := redisKeyWrite conf.keyPrefix zone.name key
  ⟨base ++ eventsSuffix, base ++ blockSuffix⟩

theorem block_buildRedisKeys_ne_nil (conf : RedisConf) (zone : ZoneConf) (key : Key) :
    (buildRedisKeys conf zone key).block ≠ [] := by
  simp [buildRedisKeys, blockSuffix]

end ErrorAbuse
