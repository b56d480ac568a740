import Mathlib.Data.List.Nodup
import Mathlib.Data.Int.Notation
import Mathlib.Logic.Function.Basic
import Mathlib.Order.Basic

/-!
# A keyspace with sorted sets and expiring keys

The part of a Redis database that scripts over sorted sets need. A key holds a sorted set
or a string and may have an expiry time; every command reads the clock, and a key whose
expiry time has passed counts as absent. A command on a key of the other type fails.

`Shows db now k l` is what a client sees: the sorted set at `k` has the entries `l`, an
absent key none. Each command has one lemma about it, and leaves the other keys alone.
-/

namespace Lib

universe u v w

/-! ## Sorted sets -/

/-- Members with their scores, each member once. The order of the list means nothing. -/
structure SortedSet (μ : Type u) where
  entries : List (μ × ℤ)
  nodup : (entries.map Prod.fst).Nodup

namespace SortedSet

variable {μ : Type u}

def empty : SortedSet μ := ⟨[], List.nodup_nil⟩

def card (z : SortedSet μ) : ℕ := z.entries.length

/-- Add a member, or give it a new score. -/
def add [DecidableEq μ] (z : SortedSet μ) (member : μ) (score : ℤ) : SortedSet μ where
  entries := (member, score) :: z.entries.filter fun e => e.1 ≠ member
  nodup := by
    refine List.nodup_cons.mpr ⟨fun h => ?_, ?_⟩
    · obtain ⟨e, he, rfl⟩ := List.mem_map.mp h
      simp at he
    · exact z.nodup.sublist (List.filter_sublist.map Prod.fst)

/-- Remove the members with scores up to `max`. -/
def removeUpTo (z : SortedSet μ) (max : ℤ) : SortedSet μ where
  entries := z.entries.filter fun e => max < e.2
  nodup := z.nodup.sublist (List.filter_sublist.map Prod.fst)

/-- A new member is one more. -/
theorem entries_add [DecidableEq μ] {z : SortedSet μ} {member : μ}
    (h : member ∉ z.entries.map Prod.fst) (score : ℤ) :
    (z.add member score).entries = (member, score) :: z.entries := by
  have hall : ∀ e ∈ z.entries, decide (e.1 ≠ member) = true := by
    intro e he
    rw [decide_eq_true_eq]
    exact fun hm => h (hm ▸ List.mem_map_of_mem he)
  exact congrArg ((member, score) :: ·) (List.filter_eq_self.mpr hall)

end SortedSet

/-! ## Keys -/

/-- What a key can hold. -/
inductive Value (μ : Type u) (ν : Type v)
  | sortedSet (z : SortedSet μ)
  | string (s : ν)

/-- The value of a key and its expiry time, if it has one. -/
structure Slot (μ : Type u) (ν : Type v) where
  value : Value μ ν
  expires : Option ℤ

/-- The keys of a database, expired ones included. -/
def Keyspace (κ : Type w) (μ : Type u) (ν : Type v) := κ → Option (Slot μ ν)

namespace Keyspace

variable {κ : Type w} {μ : Type u} {ν : Type v}

def empty : Keyspace κ μ ν := fun _ => none

/-- A key as a command at time `now` finds it: one whose expiry time has passed is gone. -/
def find (db : Keyspace κ μ ν) (now : ℤ) (k : κ) : Option (Slot μ ν) :=
  (db k).filter fun slot => slot.expires.all fun t => now ≤ t

/-- `ZCARD k` -/
def zcard (db : Keyspace κ μ ν) (now : ℤ) (k : κ) : Option ℕ :=
  match db.find now k with
  | none => some 0
  | some ⟨.sortedSet z, _⟩ => some z.card
  | some ⟨.string _, _⟩ => none

/-- `GET k`: `none` if the command fails, `some none` if there is no such key. -/
def get (db : Keyspace κ μ ν) (now : ℤ) (k : κ) : Option (Option ν) :=
  match db.find now k with
  | none => some none
  | some ⟨.sortedSet _, _⟩ => none
  | some ⟨.string s, _⟩ => some (some s)

/-- Whether the database may drop a key on its own: its expiry time has come. -/
def expirable (db : Keyspace κ μ ν) (now : ℤ) (k : κ) : Bool :=
  (db k).any fun slot => slot.expires.any fun t => t ≤ now

/-! ## What a client sees -/

/-- The sorted set at a key has these entries. -/
def Shows (db : Keyspace κ μ ν) (now : ℤ) (k : κ) (l : List (μ × ℤ)) : Prop :=
  db.find now k = none ∧ l = [] ∨
    ∃ z expires, db.find now k = some ⟨.sortedSet z, expires⟩ ∧ z.entries = l

variable {db : Keyspace κ μ ν} {now : ℤ} {k : κ} {l : List (μ × ℤ)}

theorem le_of_find {slot : Slot μ ν} (h : db.find now k = some slot) :
    ∀ t ∈ slot.expires, now ≤ t := by
  rw [find, Option.filter_eq_some_iff] at h
  simpa [Option.all_eq_true] using h.2

theorem Shows.zcard (h : db.Shows now k l) : db.zcard now k = some l.length := by
  rcases h with ⟨hfind, rfl⟩ | ⟨z, expires, hfind, rfl⟩ <;> rw [Keyspace.zcard, hfind] <;> rfl

theorem get_of_none (h : db k = none) : db.get now k = some none := by
  rw [get, find, h]
  rfl

/-- A string with an expiry time. -/
theorem get_of_string {s : ν} {t : ℤ} (h : db k = some ⟨.string s, some t⟩) :
    db.get now k = some (if now ≤ t then some s else none) := by
  rw [get, find, h, Option.filter_some]
  by_cases ht : now ≤ t <;> simp [ht]

/-! ## Commands that write -/

variable [DecidableEq κ]

/-- An empty sorted set is not kept. -/
def put (db : Keyspace κ μ ν) (k : κ) (z : SortedSet μ) (expires : Option ℤ) : Keyspace κ μ ν :=
  Function.update db k (if z.entries.isEmpty then none else some ⟨.sortedSet z, expires⟩)

/-- `ZREMRANGEBYSCORE k -inf max` -/
def zremrangebyscore (db : Keyspace κ μ ν) (now : ℤ) (k : κ) (max : ℤ) :
    Option (Keyspace κ μ ν) :=
  match db.find now k with
  | none => some (db.put k .empty none)
  | some ⟨.sortedSet z, expires⟩ => some (db.put k (z.removeUpTo max) expires)
  | some ⟨.string _, _⟩ => none

/-- `ZADD k score member` -/
def zadd [DecidableEq μ] (db : Keyspace κ μ ν) (now : ℤ) (k : κ) (score : ℤ) (member : μ) :
    Option (Keyspace κ μ ν) :=
  match db.find now k with
  | none => some (db.put k (SortedSet.empty.add member score) none)
  | some ⟨.sortedSet z, expires⟩ => some (db.put k (z.add member score) expires)
  | some ⟨.string _, _⟩ => none

/-- `DEL k` -/
def del (db : Keyspace κ μ ν) (k : κ) : Keyspace κ μ ν := Function.update db k none

/-- `PEXPIRE k ttl` -/
def pexpire (db : Keyspace κ μ ν) (now : ℤ) (k : κ) (ttl : ℤ) : Keyspace κ μ ν :=
  match db.find now k with
  | none => db.del k
  | some slot =>
    if ttl ≤ 0 then db.del k else Function.update db k (some { slot with expires := some (now + ttl) })

/-- `SET k s PX ttl` -/
def setPx (db : Keyspace κ μ ν) (now : ℤ) (k : κ) (s : ν) (ttl : ℤ) : Keyspace κ μ ν :=
  Function.update db k (some ⟨.string s, some (now + ttl)⟩)

@[simp] theorem find_update_self (slot : Option (Slot μ ν)) :
    find (Function.update db k slot) now k =
      slot.filter fun slot => slot.expires.all fun t => now ≤ t :=
  congrArg (Option.filter _) (Function.update_self ..)

theorem put_of_ne {z : SortedSet μ} {expires : Option ℤ} {k' : κ} (h : k' ≠ k) :
    db.put k z expires k' = db k' := Function.update_of_ne h ..

/-- A set put back with an expiry time that has not passed is seen as it is. -/
theorem shows_put {z : SortedSet μ} {expires : Option ℤ} (h : ∀ t ∈ expires, now ≤ t) :
    (db.put k z expires).Shows now k z.entries := by
  rw [Shows, put, find_update_self]
  split_ifs with hz
  · exact .inl ⟨rfl, List.isEmpty_iff.mp hz⟩
  · refine .inr ⟨z, expires, ?_, rfl⟩
    rw [Option.filter_some]
    exact if_pos (by simpa [Option.all_eq_true] using h)

theorem Shows.zremrangebyscore (h : db.Shows now k l) (max : ℤ) :
    ∃ db', db.zremrangebyscore now k max = some db' ∧
      db'.Shows now k (l.filter fun e => max < e.2) ∧ ∀ k' ≠ k, db' k' = db k' := by
  rcases h with ⟨hfind, rfl⟩ | ⟨z, expires, hfind, rfl⟩
  · refine ⟨db.put k .empty none, by rw [Keyspace.zremrangebyscore, hfind], ?_, fun _ => put_of_ne⟩
    exact shows_put (by simp)
  · refine ⟨db.put k (z.removeUpTo max) expires, by rw [Keyspace.zremrangebyscore, hfind], ?_,
      fun _ => put_of_ne⟩
    exact shows_put (le_of_find hfind)

theorem Shows.zadd [DecidableEq μ] (h : db.Shows now k l) (score : ℤ) {member : μ}
    (hnew : member ∉ l.map Prod.fst) :
    ∃ db', db.zadd now k score member = some db' ∧
      db'.Shows now k ((member, score) :: l) ∧ ∀ k' ≠ k, db' k' = db k' := by
  rcases h with ⟨hfind, rfl⟩ | ⟨z, expires, hfind, rfl⟩
  · refine ⟨_, by rw [Keyspace.zadd, hfind], ?_, fun _ => put_of_ne⟩
    exact shows_put (by simp)
  · refine ⟨_, by rw [Keyspace.zadd, hfind], ?_, fun _ => put_of_ne⟩
    rw [← SortedSet.entries_add hnew]
    exact shows_put (le_of_find hfind)

theorem Shows.pexpire (h : db.Shows now k l) (hne : l ≠ []) {ttl : ℤ} (httl : 0 < ttl) :
    (∃ z, db.pexpire now k ttl k = some ⟨.sortedSet z, some (now + ttl)⟩ ∧ z.entries = l) ∧
      ∀ k' ≠ k, db.pexpire now k ttl k' = db k' := by
  rcases h with ⟨hfind, rfl⟩ | ⟨z, expires, hfind, rfl⟩
  · exact absurd rfl hne
  · have hset : db.pexpire now k ttl =
        Function.update db k (some ⟨.sortedSet z, some (now + ttl)⟩) := by
      rw [Keyspace.pexpire, hfind]
      exact if_neg (by omega)
    rw [hset]
    exact ⟨⟨z, Function.update_self .., rfl⟩, fun k' hk' => Function.update_of_ne hk' ..⟩

/-! ## Other keys -/

theorem del_other (db : Keyspace κ μ ν) {k' : κ} (hne : k' ≠ k) : db.del k k' = db k' :=
  Function.update_of_ne hne ..

theorem zremrangebyscore_other {db' : Keyspace κ μ ν} {max : ℤ} {k' : κ}
    (h : db.zremrangebyscore now k max = some db') (hne : k' ≠ k) : db' k' = db k' := by
  rw [Keyspace.zremrangebyscore] at h
  split at h
  · exact Option.some.inj h ▸ put_of_ne hne
  · exact Option.some.inj h ▸ put_of_ne hne
  · cases h

theorem zadd_other [DecidableEq μ] {db' : Keyspace κ μ ν} {score : ℤ} {member : μ} {k' : κ}
    (h : db.zadd now k score member = some db') (hne : k' ≠ k) : db' k' = db k' := by
  rw [Keyspace.zadd] at h
  split at h
  · exact Option.some.inj h ▸ put_of_ne hne
  · exact Option.some.inj h ▸ put_of_ne hne
  · cases h

theorem pexpire_other (db : Keyspace κ μ ν) (now ttl : ℤ) {k' : κ} (hne : k' ≠ k) :
    db.pexpire now k ttl k' = db k' := by
  have hset : db.pexpire now k ttl = db.del k ∨
      ∃ slot, db.pexpire now k ttl = Function.update db k slot := by
    cases hfind : db.find now k with
    | none => exact .inl (by rw [Keyspace.pexpire, hfind])
    | some slot =>
        rw [Keyspace.pexpire, hfind]
        by_cases httl : ttl ≤ 0
        · exact .inl (if_pos httl)
        · exact .inr ⟨_, if_neg httl⟩
  rcases hset with hset | ⟨slot, hset⟩ <;> rw [hset]
  · exact del_other db hne
  · exact Function.update_of_ne hne ..

theorem setPx_other (db : Keyspace κ μ ν) (now : ℤ) (s : ν) (ttl : ℤ) {k' : κ} (hne : k' ≠ k) :
    db.setPx now k s ttl k' = db k' := Function.update_of_ne hne ..

end Keyspace

end Lib
