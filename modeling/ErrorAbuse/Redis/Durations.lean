import ErrorAbuse.Config.Zone
import ErrorAbuse.Lib.Signed

/-!
# Configured durations

The directive caps durations at ten years so that arithmetic on them stays within `time_t`. Sums
go through `time_add_saturate` and a cutoff is a difference of times that are not negative, so
neither overflows. The arguments of the record script are products: `redis_record`, which is
called for zones with Redis, multiplies by 1000 in `time_t` and converts the product to 64 bits
afterwards, so that with a `time_t` of 32 bits the cap is too high for them.
-/

namespace ErrorAbuse

open Lib

def TimeT.bits (T : TimeT) : ℕ := 8 * T.bytes

/-- `now - zone->interval` -/
def windowCutoff (zone : ZoneConf) (now : ℤ) : Option ℤ :=
  Signed.sub zone.plat.time.bits now zone.interval

/-- `time_add_saturate_at`, each operation checked. -/
def checkedAddSaturateAt (bits : ℕ) (now duration ceiling : ℤ) : Option ℤ :=
  if now ≥ ceiling then some ceiling
  else if duration ≤ 0 then some now
  else do
    let room ← Signed.sub bits ceiling now
    if duration > room then some ceiling else Signed.add bits now duration

/-- `time_add_saturate` -/
def checkedAddSaturate (T : TimeT) (now duration : ℤ) : Option ℤ :=
  checkedAddSaturateAt T.bits now duration T.timeMax

/-- A number of `redis_record`: the product in `time_t`, then the conversion to `int64_t`. -/
def redisMillis (T : TimeT) (seconds : ℤ) : Option ℤ := do
  let product ← Signed.mul T.bits seconds 1000
  return Signed.convert 64 product

/-- What `redis_record` formats for a zone comes out exactly. -/
structure MillisExact (zone : ZoneConf) : Prop where
  interval : redisMillis zone.plat.time zone.interval = some (1000 * zone.interval)
  block : redisMillis zone.plat.time zone.block = some (1000 * zone.block)
  inactive : redisMillis zone.plat.time zone.inactive = some (1000 * zone.inactive)

/-- What the durations of a zone are used for comes out exactly. A response is recorded to Redis
only where the zone has `redis=on`. -/
structure DurationsExact (zone : ZoneConf) (now lastSeen : ℤ) : Prop where
  cutoff : windowCutoff zone now = some (now - zone.interval)
  ban : checkedAddSaturate zone.plat.time now zone.block =
    some (min (now + zone.block) zone.timeMax)
  inactivity : checkedAddSaturate zone.plat.time lastSeen zone.inactive =
    some (min (lastSeen + zone.inactive) zone.timeMax)
  millis : zone.redis = true → MillisExact zone

variable {T : TimeT} {now duration seconds : ℤ}

/-! ## The widths of `time_t` -/

/-- The largest time is the largest value of the signed type. -/
theorem TimeT.pow_bits (hsigned : T.isSigned = true) (hwidth : T.bytes = 4 ∨ T.bytes = 8) :
    (2 : ℤ) ^ (T.bits - 1) = T.timeMax + 1 := by
  rcases hwidth with hbytes | hbytes <;> simp [TimeT.bits, TimeT.timeMax, hsigned, hbytes]

theorem TimeT.fits_iff (hsigned : T.isSigned = true) (hwidth : T.bytes = 4 ∨ T.bytes = 8)
    (h : 0 ≤ seconds) : Signed.Fits T.bits seconds ↔ seconds ≤ T.timeMax := by
  rw [Signed.fits_of_nonneg h, TimeT.pow_bits hsigned hwidth]
  exact Int.lt_add_one_iff

/-- Configured durations are times. -/
theorem maxSeconds_le_timeMax (hsigned : T.isSigned = true) (hwidth : T.bytes = 4 ∨ T.bytes = 8) :
    maxSeconds ≤ T.timeMax := by
  rcases hwidth with hbytes | hbytes <;> simp [TimeT.timeMax, hsigned, hbytes, maxSeconds]

/-! ## Sums -/

/-- Saturating addition does not overflow, and yields what the unchecked one does. -/
theorem checkedAddSaturate_eq (hsigned : T.isSigned = true) (hwidth : T.bytes = 4 ∨ T.bytes = 8)
    (hnow : 0 ≤ now) :
    checkedAddSaturate T now duration = some (timeAddSaturate T now duration) := by
  rw [checkedAddSaturate, checkedAddSaturateAt, timeAddSaturate, timeAddSaturateAt]
  split_ifs with hpast hnone hlong
  · rfl
  · rfl
  all_goals
    have hceiling : 0 ≤ T.timeMax := by omega
    have hroom : Signed.sub T.bits T.timeMax now = some (T.timeMax - now) :=
      Signed.sub_of_nonneg hceiling hnow
        ((TimeT.fits_iff hsigned hwidth hceiling).mpr le_rfl)
        ((TimeT.fits_iff hsigned hwidth hnow).mpr (by omega))
    rw [hroom, Option.bind_eq_bind, Option.bind_some]
  · exact if_pos hlong
  · rw [if_neg hlong]
    refine Signed.check_of_fits ((TimeT.fits_iff hsigned hwidth ?_).mpr ?_)
    · omega
    · omega

/-! ## Products -/

/-- The product is exact where it is a time, and overflows elsewhere. -/
theorem redisMillis_eq_some (hsigned : T.isSigned = true) (hwidth : T.bytes = 4 ∨ T.bytes = 8)
    (hseconds : 0 ≤ seconds) : redisMillis T seconds = some (1000 * seconds) ↔
      1000 * seconds ≤ T.timeMax := by
  have hproduct : 0 ≤ seconds * 1000 := by omega
  have hfits := TimeT.fits_iff hsigned hwidth hproduct
  have hbits : T.bits ≤ 64 := by
    rcases hwidth with hbytes | hbytes <;> simp [TimeT.bits, hbytes]
  simp only [redisMillis, Signed.mul, Option.bind_eq_bind, Option.bind_eq_some_iff,
    Signed.check_eq_some]
  constructor
  · rintro ⟨product, ⟨hfit, rfl⟩, -⟩
    have hle := hfits.mp hfit
    omega
  · intro hle
    have hfit : Signed.Fits T.bits (seconds * 1000) := hfits.mpr (by omega)
    refine ⟨_, ⟨hfit, rfl⟩, ?_⟩
    rw [Signed.convert_of_fits (by decide) (hfit.mono hbits), mul_comm]
    rfl

/-- The exact products are those that the record script is given. -/
theorem redisMillis_recordArgs {zone : ZoneConf} (h : MillisExact zone) (w : Worker)
    (events block : List UInt8) :
    redisMillis zone.plat.time zone.interval = some (recordArgs zone w events block).interval ∧
    redisMillis zone.plat.time zone.block = some (recordArgs zone w events block).blockMs ∧
    redisMillis zone.plat.time zone.inactive = some (recordArgs zone w events block).inactive := by
  refine ⟨h.interval.trans ?_, h.block.trans ?_, h.inactive.trans ?_⟩
  all_goals exact congrArg some (mul_comm _ _)

/-- Where the longest product fits. -/
theorem inactiveMs_le_iff (zone : ZoneConf)
    (hwidth : zone.plat.time.bytes = 4 ∨ zone.plat.time.bytes = 8) :
    1000 * zone.inactive ≤ zone.timeMax ↔
      zone.plat.time.bytes = 8 ∨ zone.inactive ≤ 2147483 := by
  have hmax := zone.inactive_le
  have hcap : maxSeconds = 315360000 := rfl
  have hsigned := zone.plat.time_signed
  rcases hwidth with hbytes | hbytes
  · have htime : zone.timeMax = 2147483647 := by
      simp [ZoneConf.timeMax, TimeT.timeMax, hsigned, hbytes]
    omega
  · have htime : zone.timeMax = 9223372036854775807 := by
      simp [ZoneConf.timeMax, TimeT.timeMax, hsigned, hbytes]
    omega

/-- The three products fit where the longest does. -/
theorem millisExact_iff (zone : ZoneConf)
    (hwidth : zone.plat.time.bytes = 4 ∨ zone.plat.time.bytes = 8) :
    MillisExact zone ↔ zone.plat.time.bytes = 8 ∨ zone.inactive ≤ 2147483 := by
  have hproduct := fun {seconds : ℤ} (h : 0 ≤ seconds) =>
    redisMillis_eq_some zone.plat.time_signed hwidth h
  have hinactive := zone.inactive_pos.le
  rw [← inactiveMs_le_iff zone hwidth]
  constructor
  · intro h
    exact (hproduct hinactive).mp h.inactive
  · intro h
    have hle : ∀ {seconds : ℤ}, seconds ≤ zone.inactive → 1000 * seconds ≤ zone.timeMax := by
      intro seconds hseconds
      omega
    exact {
      interval := (hproduct zone.interval_pos.le).mpr (hle zone.interval_le_inactive)
      block := (hproduct zone.block_pos.le).mpr (hle zone.block_le_inactive)
      inactive := (hproduct hinactive).mpr h }

/-- **Configured durations.** Everything they are used for is exact and free of overflow if and
only if `time_t` has 64 bits, or the longest of them, in milliseconds, is a time of 32 bits, or
nothing is recorded to Redis. -/
theorem durations_exact_iff (zone : ZoneConf) (now lastSeen : ℤ)
    (hwidth : zone.plat.time.bytes = 4 ∨ zone.plat.time.bytes = 8)
    (hnow : 0 ≤ now ∧ now ≤ zone.timeMax) (hseen : 0 ≤ lastSeen ∧ lastSeen ≤ zone.timeMax) :
    DurationsExact zone now lastSeen ↔
      zone.plat.time.bytes = 8 ∨ zone.inactive ≤ 2147483 ∨ zone.redis = false := by
  have hsigned := zone.plat.time_signed
  have hcap := zone.inactive_le.trans (maxSeconds_le_timeMax hsigned hwidth)
  have hmillis := millisExact_iff zone hwidth
  constructor
  · intro h
    cases hredis : zone.redis with
    | false => exact .inr (.inr rfl)
    | true => exact (hmillis.mp (h.millis hredis)).imp_right .inl
  · intro h
    exact {
      cutoff := Signed.sub_of_nonneg hnow.1 zone.interval_pos.le
        ((TimeT.fits_iff hsigned hwidth hnow.1).mpr hnow.2)
        ((TimeT.fits_iff hsigned hwidth zone.interval_pos.le).mpr
          (zone.interval_le_inactive.trans hcap))
      ban := by
        rw [checkedAddSaturate_eq hsigned hwidth hnow.1, timeAddSaturate_eq_min zone.block_pos]
      inactivity := by
        rw [checkedAddSaturate_eq hsigned hwidth hseen.1, timeAddSaturate_eq_min zone.inactive_pos]
      millis := fun hredis => hmillis.mpr <| h.imp_right fun h =>
        h.resolve_right (by simp [hredis]) }

/-- A zone with Redis, where times have 64 bits. -/
theorem durations_exact_iff_small :
    DurationsExact { ZoneConf.small with redis := true } 1700000000 1700000000 :=
  (durations_exact_iff { ZoneConf.small with redis := true } 1700000000 1700000000 (.inr rfl)
    (by decide) (by decide)).mpr (.inl rfl)

/-- A window of 30 days in a zone with Redis is accepted where times have 32 bits, and its product
overflows. -/
theorem durations_overflow : ∃ (zone : ZoneDecl (List UInt8))
    (h : zone.Sound { ConfCore.sample with plat := .ilp32 } []
      [ascii "zone=one:65536", ascii "redis=on", ascii "interval=2592000"]),
    (abuseZone { ConfCore.sample with plat := .ilp32 } []
      [ascii "zone=one:65536", ascii "redis=on", ascii "interval=2592000"]).accepted = some zone ∧
    h.conf.redis = true ∧ redisMillis h.conf.plat.time h.conf.interval = none ∧
    ¬ DurationsExact h.conf 1700000000 1700000000 := by
  have haccepted : (abuseZone { ConfCore.sample with plat := .ilp32 } []
      [ascii "zone=one:65536", ascii "redis=on", ascii "interval=2592000"]).accepted.map
        (fun zone => (zone.redis, zone.interval)) = some (true, 2592000) := by decide +kernel
  obtain ⟨zone, hzone, hfields⟩ := Option.map_eq_some_iff.mp haccepted
  obtain ⟨hredis, hinterval⟩ : zone.redis = true ∧ zone.interval = 2592000 := by
    simpa using hfields
  have hnone : redisMillis TimeT.int32 zone.interval = none := by
    rw [hinterval]
    decide +kernel
  refine ⟨zone, sound_of_abuseZone hzone, hzone, hredis, hnone, fun h => ?_⟩
  exact absurd (hnone.symm.trans (h.millis hredis).interval) (by simp)

end ErrorAbuse
