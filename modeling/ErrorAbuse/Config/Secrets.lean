import ErrorAbuse.Config.Redis

/-!
# Secrets in diagnostics

Two lists of arguments are compared that differ in secrets only: in the digits of a
`persist_secret=` of one length, or in the bytes of a `password=` of one length. Messages show
neither, and everything the handlers decide depends on the length of a secret and on whether it is
made of digits. So the two runs log the same, whatever the other arguments are and wherever the
handlers stop.
-/

namespace ErrorAbuse

open Lib

variable {κ : Type}

def IsHexDigit (c : UInt8) : Prop :=
  48 ≤ c ∧ c ≤ 57 ∨ 65 ≤ c ∧ c ≤ 70 ∨ 97 ≤ c ∧ c ≤ 102

instance (c : UInt8) : Decidable (IsHexDigit c) := inferInstanceAs (Decidable (_ ∨ _ ∨ _))

/-- Only digits, or not only digits, in both texts. -/
def SameDigits (text text' : List UInt8) : Prop :=
  (∀ c ∈ text, IsHexDigit c) ↔ ∀ c ∈ text', IsHexDigit c

/-- Two arguments that are the same but for a secret. -/
inductive SecretApart : List UInt8 → List UInt8 → Prop
  | same (param : List UInt8) : SecretApart param param
  | persistSecret (secret secret' : List UInt8) : secret.length = secret'.length →
      SameDigits secret secret' →
      SecretApart (persistSecretToken ++ secret) (persistSecretToken ++ secret')
  | password (secret secret' : List UInt8) : secret.length = secret'.length →
      SecretApart (passwordToken ++ secret) (passwordToken ++ secret')

/-! ## Decoding -/

theorem isSome_ngxHextoi (c : UInt8) : (ngxHextoi c).isSome = true ↔ IsHexDigit c := by
  have hall : ∀ n < 256, ((ngxHextoi (UInt8.ofNat n)).isSome = true ↔
      IsHexDigit (UInt8.ofNat n)) := by decide +kernel
  have hc := hall c.toNat c.toNat_lt
  rwa [UInt8.ofNat_toNat] at hc

/-- Digits, and nothing else, can be decoded. -/
theorem isSome_hexDecode {text : List UInt8} (heven : text.length % 2 = 0) :
    (hexDecode text).isSome = true ↔ ∀ c ∈ text, IsHexDigit c := by
  induction text, heven using pairs_induction with
  | nil => simp [hexDecode]
  | pair hi lo text heven ih =>
      rw [List.forall_mem_cons, List.forall_mem_cons, ← ih, ← isSome_ngxHextoi,
        ← isSome_ngxHextoi, hexDecode]
      cases ngxHextoi hi <;> cases ngxHextoi lo <;> cases hexDecode text <;> simp

theorem length_of_hexDecode {text secret : List UInt8} (heven : text.length % 2 = 0)
    (h : hexDecode text = some secret) : secret.length = text.length / 2 := by
  have hlength := congrArg List.length (flatMap_hexByte_of_hexDecode heven h)
  rw [length_flatMap_const length_hexByte, List.length_map] at hlength
  omega

/-! ## Arguments -/

theorem not_prefix_append {l m : List UInt8} (h : ¬ l <+: m) (h' : ¬ m <+: l) (r : List UInt8) :
    ¬ l <+: m ++ r := by
  intro hprefix
  rcases List.prefix_or_prefix_of_prefix hprefix (List.prefix_append m r) with hle | hle
  · exact h hle
  · exact h' hle

/-- A password is no option of `error_abuse_zone`. -/
theorem zoneOptions_find_password (core : ConfCore κ) (secret : List UInt8) :
    (zoneOptions core).find (passwordToken ++ secret) = none := by
  have hno : ∀ o : ZoneOption, ¬ o.token <+: passwordToken := by
    intro o
    cases o <;> decide
  have hno' : ∀ o : ZoneOption, ¬ passwordToken <+: o.token := by
    intro o
    cases o <;> decide
  exact (zoneOptions core).find_eq_none.mpr fun o => not_prefix_append (hno o) (hno' o) secret

/-- A secret is no option of `error_abuse_redis`. -/
theorem redisOptions_find_persistSecret (core : ConfCore κ) (secret : List UInt8) :
    (redisOptions core).find (persistSecretToken ++ secret) = none := by
  have hno : ∀ o : RedisOption, ¬ o.token <+: persistSecretToken := by
    intro o
    cases o <;> decide
  have hno' : ∀ o : RedisOption, ¬ persistSecretToken <+: o.token := by
    intro o
    cases o <;> decide
  exact (redisOptions core).find_eq_none.mpr fun o => not_prefix_append (hno o) (hno' o) secret

/-- Messages do not show secrets. -/
theorem logSafeParam_persistSecret (secret : List UInt8) :
    logSafeParam (persistSecretToken ++ secret) = ascii "persist_secret=<redacted>" := by
  refine if_pos ?_
  have hlength : persistSecretToken.length = 15 := by decide
  simp [hlength]

theorem logSafeParam_password (secret : List UInt8) :
    logSafeParam (passwordToken ++ secret) = ascii "password=<redacted>" := by
  have hlength : passwordToken.length = 9 := by decide
  have hother : ¬ persistSecretToken <+: passwordToken ++ secret :=
    not_prefix_append (by decide) (by decide) secret
  rw [logSafeParam, if_neg (by simp [hother]), if_pos (by simp [hlength])]

theorem SecretApart.shown {param param' : List UInt8} (h : SecretApart param param') :
    logSafeParam param = logSafeParam param' := by
  cases h with
  | same => rfl
  | persistSecret secret secret' => rw [logSafeParam_persistSecret, logSafeParam_persistSecret]
  | password secret secret' => rw [logSafeParam_password, logSafeParam_password]

/-! ## `error_abuse_zone` -/

/-- What is left of a secret: its length. -/
def redactBytes (secret : List UInt8) : List UInt8 := List.replicate secret.length 0

def ZoneSetting.redact : ZoneSetting → ZoneSetting
  | .persistSecret secret => .persistSecret (redactBytes secret)
  | v => v

def ZoneArgs.redact (s : ZoneArgs) : ZoneArgs :=
  { s with persistSecret := redactBytes s.persistSecret }

theorem ZoneArgs.redact_set (s : ZoneArgs) (v : ZoneSetting) :
    (s.set v).redact = s.redact.set v.redact := by
  cases v <;> rfl

theorem length_eq_of_redactBytes {secret secret' : List UInt8}
    (h : redactBytes secret = redactBytes secret') : secret.length = secret'.length := by
  simpa [redactBytes] using congrArg List.length h

/-- Secrets of one kind are parsed alike. -/
theorem parse_persistSecret_alike (core : ConfCore κ) {secret secret' : List UInt8}
    (hlength : secret.length = secret'.length) (hdigits : SameDigits secret secret') :
    Logged.Alike (fun v v' => v.redact = v'.redact)
      (ZoneOption.parse core .persistSecret (persistSecretToken ++ secret) secret)
      (ZoneOption.parse core .persistSecret (persistSecretToken ++ secret') secret') := by
  have hshown := (SecretApart.persistSecret secret secret' hlength hdigits).shown
  simp only [ZoneOption.parse, invalid, hshown, ← hlength]
  split_ifs with hparity
  · exact Logged.Alike.fail _ _
  have heven : secret.length % 2 = 0 := by
    simp only [Bool.or_eq_true, decide_eq_true_eq, not_or] at hparity
    omega
  have heven' : secret'.length % 2 = 0 := hlength ▸ heven
  refine Logged.Alike.bind_same _ fun _ => Logged.Alike.bind_same _ fun _ => ?_
  have hsome := (isSome_hexDecode heven).trans (hdigits.trans (isSome_hexDecode heven').symm)
  cases hdecode : hexDecode secret with
  | none =>
      have hnone : hexDecode secret' = none := by
        simpa [hdecode, Option.isSome_iff_ne_none] using hsome
      rw [hnone]
      exact Logged.Alike.fail _ _
  | some bytes =>
      obtain ⟨bytes', hdecode'⟩ := Option.isSome_iff_exists.mp (hsome.mp (by rw [hdecode]; rfl))
      rw [hdecode']
      refine Logged.Alike.pure ?_
      change ZoneSetting.persistSecret _ = ZoneSetting.persistSecret _
      rw [redactBytes, redactBytes, length_of_hexDecode heven hdecode,
        length_of_hexDecode heven' hdecode', hlength]

theorem zone_gather_alike (core : ConfCore κ) {args args' : List (List UInt8)}
    (h : List.Forall₂ SecretApart args args') :
    Logged.Alike (fun s s' => s.seen = s'.seen ∧ s.values.redact = s'.values.redact)
      ((zoneOptions core).gather args {}) ((zoneOptions core).gather args' {}) := by
  refine Options.gather_alike (zoneOptions core) (W := fun v v' => v.redact = v'.redact)
    (I := fun s s' => s.redact = s'.redact) ?_ (fun _ _ hp => hp.shown) ?_ ?_ h rfl
  · intro p p' hp
    cases hp with
    | same => rfl
    | persistSecret secret secret' =>
        have hfind := (zoneOptions core).find_append .persistSecret
        exact (hfind secret).trans (hfind secret').symm
    | password secret secret' => rw [zoneOptions_find_password, zoneOptions_find_password]
  · intro p p' o hp hfind
    cases hp with
    | same => exact Logged.Alike.refl (fun v => Eq.refl (ZoneSetting.redact v)) _
    | persistSecret secret secret' hlength hdigits =>
        obtain rfl : ZoneOption.persistSecret = o :=
          Option.some.inj (((zoneOptions core).find_append .persistSecret secret).symm.trans hfind)
        change Logged.Alike _ (ZoneOption.parse core .persistSecret _
          ((persistSecretToken ++ secret).drop persistSecretToken.length))
          (ZoneOption.parse core .persistSecret _
            ((persistSecretToken ++ secret').drop persistSecretToken.length))
        rw [List.drop_left, List.drop_left]
        exact parse_persistSecret_alike core hlength hdigits
    | password secret secret' =>
        rw [zoneOptions_find_password] at hfind
        cases hfind
  · intro v v' s s' hv hs
    change (s.set v).redact = (s'.set v').redact
    rw [ZoneArgs.redact_set, ZoneArgs.redact_set, hv, hs]

/-- After the loop only the length of the secret matters. -/
theorem finishZone_alike (core : ConfCore κ) (zones : List (ZoneDecl κ)) {s s' : ZoneArgs}
    (h : s.redact = s'.redact) :
    Logged.Alike (fun _ _ => True) (finishZone core zones s) (finishZone core zones s') := by
  obtain ⟨secret, hlength, rfl⟩ : ∃ secret, secret.length = s.persistSecret.length ∧
      s' = { s with persistSecret := secret } := by
    refine ⟨s'.persistSecret, ?_, ?_⟩
    · exact (length_eq_of_redactBytes (congrArg ZoneArgs.persistSecret h)).symm
    · cases s
      cases s'
      simp only [ZoneArgs.redact, ZoneArgs.mk.injEq] at h
      simp [h]
  have hpersist : checkedPersist core zones { s with persistSecret := secret } =
      checkedPersist core zones s := by
    simp only [checkedPersist, hlength]
  simp only [finishZone, hpersist]
  iterate 10 refine Logged.Alike.bind_same _ fun _ => ?_
  exact Logged.Alike.pure trivial

theorem abuseZone_alike (core : ConfCore κ) (zones : List (ZoneDecl κ))
    {args args' : List (List UInt8)} (h : List.Forall₂ SecretApart args args') :
    Logged.Alike (fun _ _ => True) (abuseZone core zones args) (abuseZone core zones args') :=
  Logged.Alike.bind_same _ fun _ =>
    Logged.Alike.bind (zone_gather_alike core h) fun _ _ hs => finishZone_alike core zones hs.2

/-! ## `error_abuse_redis` -/

def RedisArgs.redact (s : RedisArgs) : RedisArgs := { s with password := redactBytes s.password }

def RedisSetting.redact : RedisSetting → RedisSetting
  | .password secret => .password (redactBytes secret)
  | v => v

theorem RedisArgs.redact_set (s : RedisArgs) (v : RedisSetting) :
    (s.set v).redact = s.redact.set v.redact := by
  cases v <;> rfl

theorem redis_gather_alike (core : ConfCore κ) (port : ℕ) {args args' : List (List UInt8)}
    (h : List.Forall₂ SecretApart args args') :
    Logged.Alike (fun s s' => s.seen = s'.seen ∧ s.values.redact = s'.values.redact)
      ((redisOptions core).gather args { port := port })
      ((redisOptions core).gather args' { port := port }) := by
  refine Options.gather_alike (redisOptions core) (W := fun v v' => v.redact = v'.redact)
    (I := fun s s' => s.redact = s'.redact) ?_ (fun _ _ hp => hp.shown) ?_ ?_ h rfl
  · intro p p' hp
    cases hp with
    | same => rfl
    | persistSecret secret secret' =>
        rw [redisOptions_find_persistSecret, redisOptions_find_persistSecret]
    | password secret secret' =>
        have hfind := (redisOptions core).find_append .password
        exact (hfind secret).trans (hfind secret').symm
  · intro p p' o hp hfind
    cases hp with
    | same => exact Logged.Alike.refl (fun v => Eq.refl (RedisSetting.redact v)) _
    | persistSecret secret secret' =>
        rw [redisOptions_find_persistSecret] at hfind
        cases hfind
    | password secret secret' hlength =>
        obtain rfl : RedisOption.password = o :=
          Option.some.inj (((redisOptions core).find_append .password secret).symm.trans hfind)
        have hshown := (SecretApart.password secret secret' hlength).shown
        change Logged.Alike _ (RedisOption.parse core .password _
          ((passwordToken ++ secret).drop passwordToken.length))
          (RedisOption.parse core .password _
            ((passwordToken ++ secret').drop passwordToken.length))
        simp only [List.drop_left, RedisOption.parse, invalid, hshown, ← hlength]
        split_ifs with hempty
        · exact Logged.Alike.fail _ _
        · refine Logged.Alike.pure ?_
          change RedisSetting.password _ = RedisSetting.password _
          rw [redactBytes, redactBytes, hlength]
  · intro v v' s s' hv hs
    change (s.set v).redact = (s'.set v').redact
    rw [RedisArgs.redact_set, RedisArgs.redact_set, hv, hs]

/-- After the loop only the length of the password matters. -/
theorem finishRedis_alike (core : ConfCore κ) {s s' : RedisArgs} (h : s.redact = s'.redact) :
    Logged.Alike (fun _ _ => True) (finishRedis core s) (finishRedis core s') := by
  obtain ⟨secret, hlength, rfl⟩ : ∃ secret, secret.length = s.password.length ∧
      s' = { s with password := secret } := by
    refine ⟨s'.password, ?_, ?_⟩
    · exact (length_eq_of_redactBytes (congrArg RedisArgs.password h)).symm
    · cases s
      cases s'
      simp only [RedisArgs.redact, RedisArgs.mk.injEq] at h
      simp [h]
  simp only [finishRedis, hlength]
  iterate 7 refine Logged.Alike.bind_same _ fun _ => ?_
  exact Logged.Alike.pure trivial

theorem abuseRedis_alike (core : ConfCore κ) (mcf : RedisDecl) {args args' : List (List UInt8)}
    (h : List.Forall₂ SecretApart args args') :
    Logged.Alike (fun _ _ => True) (abuseRedis core mcf args) (abuseRedis core mcf args') := by
  rw [abuseRedis, abuseRedis]
  split_ifs
  · exact Logged.Alike.fail _ _
  · exact Logged.Alike.bind (redis_gather_alike core mcf.port h) fun _ _ hs =>
      finishRedis_alike core hs.2

/-- **Secrets do not leak.** Arguments that differ in secrets only make both handlers log the same
messages and come to the same result. -/
theorem secrets_not_logged (core : ConfCore κ) (zones : List (ZoneDecl κ)) (mcf : RedisDecl)
    {args args' : List (List UInt8)} (h : List.Forall₂ SecretApart args args') :
    ((abuseZone core zones args).log = (abuseZone core zones args').log ∧
      (abuseZone core zones args).verdict = (abuseZone core zones args').verdict) ∧
    (abuseRedis core mcf args).log = (abuseRedis core mcf args').log ∧
      (abuseRedis core mcf args).verdict = (abuseRedis core mcf args').verdict := by
  have hzone := abuseZone_alike core zones h
  have hredis := abuseRedis_alike core mcf h
  exact ⟨⟨hzone.log_eq, hzone.verdict_eq⟩, hredis.log_eq, hredis.verdict_eq⟩

/-- A secret that is too short, behind a password that is out of place. -/
theorem secrets_not_logged_short :
    let args (password digits : String) := [ascii "zone=one:65536", passwordToken ++ ascii password,
      persistSecretToken ++ ascii digits]
    (abuseZone .sample [] (args "open" "00ff")).log =
      (abuseZone .sample [] (args "shut" "C0de")).log := by
  intro args
  refine (secrets_not_logged .sample [] {} ?_).1.1
  refine .cons (.same _) (.cons (.password _ _ (by decide)) (.cons ?_ .nil))
  exact .persistSecret _ _ (by decide) (iff_of_true (by decide +kernel) (by decide +kernel))

end ErrorAbuse
