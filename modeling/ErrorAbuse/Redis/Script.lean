import ErrorAbuse.Lib.Keyspace
import ErrorAbuse.Redis.Worker

/-!
# The record script

`recordScript` is the Lua script that `EVALSHA` runs, line by line. Its arguments are those
`redis_record` formats; times are in milliseconds. Lua's numbers are integers here: the
script only adds, subtracts and rounds down, far below 2⁵³. How Lua prints a number is a
parameter, of which only the absence of a colon matters.
-/

namespace ErrorAbuse

open Lib

/-- What `tostring` makes of a number. -/
structure Lua where
  tostring : ℤ → List UInt8
  colon_not_mem : ∀ t, 58 ∉ tostring t

/-- Decimal numerals, for concrete runs. -/
def Lua.decimal : Lua where
  tostring t := Lib.decimal t.toNat
  colon_not_mem t := not_mem_decimal (.inr (by decide)) _

/-- A Redis database. The strings it holds are deadlines, given as numbers. -/
abbrev RedisDb := Keyspace (List UInt8) (List UInt8) ℤ

/-- What the script returns. -/
structure RecordReply where
  n : ℕ
  deadline : Option ℤ
  deriving DecidableEq, Repr

/-- The member that the script adds. -/
def eventMember (lua : Lua) (now : ℤ) (nonce : List UInt8) : List UInt8 :=
  lua.tostring now ++ 58 :: nonce

/-- The record script at server time `now`; `none` if a command fails. -/
def recordScript (lua : Lua) (args : RecordArgs) (now : ℤ) (db : RedisDb) :
    Option (RedisDb × RecordReply) := do
  let db ← db.zremrangebyscore now args.events (now - args.interval)
  let db ← db.zadd now args.events now (eventMember lua now args.nonce)
  let n ← db.zcard now args.events
  let db := db.pexpire now args.events args.inactive
  if n ≥ args.threshold then
    let deadline := (now + args.blockMs) / 1000
    let db := db.setPx now args.block deadline args.blockMs
    let db := db.del args.events
    return (db, ⟨n, some deadline⟩)
  else return (db, ⟨n, none⟩)

/-- What one execution does. -/
structure ScriptEffect (lua : Lua) (args : RecordArgs) (now : ℤ) (kept : List (List UInt8 × ℤ))
    (db db' : RedisDb) (reply : RecordReply) : Prop where
  n_eq : reply.n = kept.length + 1
  deadline_eq : reply.deadline =
    if reply.n ≥ args.threshold then some ((now + args.blockMs) / 1000) else none
  banned : reply.n ≥ args.threshold → db' args.events = none ∧
    db' args.block = some ⟨.string ((now + args.blockMs) / 1000), some (now + args.blockMs)⟩
  counted : reply.n < args.threshold → db' args.block = db args.block ∧
    ∃ z, db' args.events = some ⟨.sortedSet z, some (now + args.inactive)⟩ ∧
      z.entries = (eventMember lua now args.nonce, now) :: kept

/-- An execution on a set with entries `l`, none of which is the new member. -/
theorem recordScript_effect {lua : Lua} {args : RecordArgs} {now : ℤ} {db : RedisDb}
    {l : List (List UInt8 × ℤ)} (h : db.Shows now args.events l) (hkeys : args.block ≠ args.events)
    (hinactive : 0 < args.inactive)
    (hnew : eventMember lua now args.nonce ∉
      (l.filter fun e => now - args.interval < e.2).map Prod.fst) :
    ∃ db' reply, recordScript lua args now db = some (db', reply) ∧
      ScriptEffect lua args now (l.filter fun e => now - args.interval < e.2) db db' reply := by
  obtain ⟨db₁, hdb₁, hshows₁, hother₁⟩ := h.zremrangebyscore (now - args.interval)
  obtain ⟨db₂, hdb₂, hshows₂, hother₂⟩ := hshows₁.zadd now hnew
  obtain ⟨⟨z, hz, hentries⟩, hother₃⟩ := hshows₂.pexpire (by simp) hinactive
  generalize l.filter (fun e => now - args.interval < e.2) = kept at hshows₂ hentries
  have hcard := hshows₂.zcard
  have hblock : db₂.pexpire now args.events args.inactive args.block = db args.block := by
    rw [hother₃ _ hkeys, hother₂ _ hkeys, hother₁ _ hkeys]
  simp only [recordScript, hdb₁, hdb₂, hcard, Option.bind_eq_bind, Option.bind_some]
  split_ifs with hn
  · refine ⟨_, _, rfl, rfl, by rw [if_pos hn], fun _ => ⟨Function.update_self .., ?_⟩,
      fun hlt => absurd hn (not_le.mpr hlt)⟩
    exact (Function.update_of_ne hkeys ..).trans (Function.update_self ..)
  · exact ⟨_, _, rfl, rfl, by rw [if_neg hn], fun hge => absurd hge hn,
      fun _ => ⟨hblock, z, hz, hentries⟩⟩

end ErrorAbuse
