import ErrorAbuse.Config.Statuses
import ErrorAbuse.Lib.Logged
import Mathlib.Data.Finset.Insert

/-!
# Directives

The handlers of `error_abuse_zone` and `error_abuse_redis` read their arguments in a loop of one
shape: an argument that begins with no known `name=` is invalid, one whose name has been seen is a
duplicate, and any other is parsed and its value kept. `Options` is what the two loops differ in.
A handler logs as it goes, so it is a `Conf`; the texts of its messages are those of the source,
each with what is printed in it.

What nginx core supplies is `ConfCore`: the parsers of sizes, times, variables and addresses, the
names of files and of shared memory, and whether each of the handler's allocations succeeds.
-/

namespace ErrorAbuse

open Lib

/-! ## Logging -/

inductive LogLevel
  | emerg
  | warn
  deriving DecidableEq, Repr

/-- What a message prints: `%V`, `%s`, or `%d` and `%uz`. -/
inductive LogArg
  | str (value : List UInt8)
  | cstr (value : String)
  | num (value : ℕ)
  deriving DecidableEq, Repr

/-- A call of `ngx_conf_log_error`. -/
structure LogLine where
  level : LogLevel
  format : String
  args : List LogArg
  deriving DecidableEq, Repr

/-- How a handler refuses: `NGX_CONF_ERROR`, or a text that nginx reports. -/
inductive Refusal
  | confError
  | message (text : String)
  deriving DecidableEq, Repr

abbrev Conf := Logged LogLine Refusal

section

variable {α : Type}

/-- Log and return `NGX_CONF_ERROR`. -/
def emerg (format : String) (args : List LogArg) : Conf α :=
  .fail [⟨.emerg, format, args⟩] .confError

/-- Return `NGX_CONF_ERROR` without a message of the module's own. -/
def confError : Conf α := .fail [] .confError

def refuseIf (bad : Bool) (format : String) (args : List LogArg) : Conf Unit :=
  if bad then emerg format args else pure ()

/-- What has to succeed silently. -/
def require (ok : Bool) : Conf Unit := if ok then pure () else confError

/-- The value, or what is done without one. -/
def orElse (value : Option α) (otherwise : Conf α) : Conf α :=
  match value with
  | none => otherwise
  | some a => pure a

@[simp] theorem accepted_emerg (format : String) (args : List LogArg) :
    (emerg format args : Conf α).accepted = none := rfl

@[simp] theorem accepted_confError : (confError : Conf α).accepted = none := rfl

@[simp] theorem accepted_refuseIf (bad : Bool) (format : String) (args : List LogArg) (u : Unit) :
    (refuseIf bad format args).accepted = some u ↔ bad = false := by
  cases bad <;> simp [refuseIf]

@[simp] theorem accepted_require (ok : Bool) (u : Unit) :
    (require ok).accepted = some u ↔ ok = true := by
  cases ok <;> simp [require]

@[simp] theorem accepted_orElse {value : Option α} {otherwise : Conf α}
    (h : otherwise.accepted = none) :
    (orElse value otherwise).accepted = value := by
  cases value with
  | none => exact h
  | some a => rfl

end

/-! ## What nginx supplies -/

/-- The allocations of the two handlers. -/
inductive AllocSite
  | zone
  | persistSecret
  | persist
  | slot
  | sni
  | host
  | keyPrefix
  | user
  | password
  deriving DecidableEq, Repr

/-- What `ngx_parse_url` does: what it logs, the first address in numbers if it found one, and
the error it reports. -/
structure Url where
  log : List LogLine
  addr : Option (List UInt8)
  err : Option String

structure ConfCore (κ : Type) where
  plat : Platform
  alloc : AllocSite → Bool
  /-- `ngx_parse_size`; `none` is `NGX_ERROR` -/
  parseSize : List UInt8 → Option ℕ
  parseSize_lt : ∀ line size, parseSize line = some size → size < 2 ^ 63
  /-- `ngx_parse_time`, in seconds or milliseconds; `none` is `NGX_ERROR` -/
  parseTime : List UInt8 → Bool → Option ℕ
  compileComplexValue : List UInt8 → Conf κ
  /-- `ngx_conf_full_name` -/
  fullName : List UInt8 → Option (List UInt8)
  fullName_ne_nil : ∀ path full, path ≠ [] → fullName path = some full → full ≠ []
  /-- `ngx_shared_memory_add`, and whether the memory has an owner already -/
  sharedMemoryAdd : List UInt8 → ℕ → Conf Bool
  parseUrl : List UInt8 → ℕ → Url

/-- A core for concrete runs: sizes in bytes, times in seconds, paths that are absolute, values
without variables and hosts that are addresses. -/
def ConfCore.sample : ConfCore (List UInt8) where
  plat := .lp64
  alloc _ := true
  parseSize line := (ngxAtoi Platform.lp64.intMax line).filter (· < 2 ^ 63)
  parseSize_lt line size h := by simpa using (Option.filter_eq_some_iff.mp h).2
  parseTime line isSec := (ngxAtoi Platform.lp64.intMax line).map fun n =>
    if isSec then n else n * 1000
  compileComplexValue value := pure value
  fullName path := some path
  fullName_ne_nil path full hne h := Option.some.inj h ▸ hne
  sharedMemoryAdd _ _ := pure false
  parseUrl host _ := ⟨[], some host, none⟩

variable {κ : Type}

/-! ## Texts -/

/-- The bytes of a text in the source. -/
def ascii (text : String) : List UInt8 := text.toList.map fun c => c.toNat.toUInt8

/-- What a C string function sees of a text that a NUL follows. -/
def cString (text : List UInt8) : List UInt8 := text.takeWhile (· ≠ 0)

/-- `ngx_strncmp` finds no difference in texts of one length. -/
def strncmpEq (text text' : List UInt8) : Bool :=
  text.length = text'.length && cString text = cString text'

/-- `ngx_strchr` -/
def ngxStrchr (c : UInt8) (text : List UInt8) : Option ℕ := ngxStrlchr c (cString text)

/-- `ngx_tolower` -/
def ngxTolower (c : UInt8) : UInt8 := if 65 ≤ c && c ≤ 90 then c ||| 0x20 else c

/-- `ngx_hextoi` of one digit. -/
def ngxHextoi (ch : UInt8) : Option ℕ :=
  if 48 ≤ ch && ch ≤ 57 then some (ch.toNat - 48)
  else
    let c := ch ||| 0x20
    if 97 ≤ c && c ≤ 102 then some (c.toNat - 97 + 10) else none

theorem ne_of_strncmpEq {text text' : List UInt8} (h : strncmpEq text text' = false) :
    text ≠ text' := by
  rintro rfl
  simp [strncmpEq] at h

/-- "persist_secret=" -/
def persistSecretToken : List UInt8 := ascii "persist_secret="

/-- "password=" -/
def passwordToken : List UInt8 := ascii "password="

/-- `log_safe_param`: how an argument is shown in a message. -/
def logSafeParam (param : List UInt8) : List UInt8 :=
  if 15 ≤ param.length && persistSecretToken.isPrefixOf param then
    ascii "persist_secret=<redacted>"
  else if 9 ≤ param.length && passwordToken.isPrefixOf param then ascii "password=<redacted>"
  else param

/-- The label `invalid` of a handler. -/
def invalid {α : Type} (directive : String) (param : List UInt8) : Conf α :=
  emerg ("invalid " ++ directive ++ " parameter \"%V\"") [.str (logSafeParam param)]

/-- The label `duplicate` of a handler. -/
def duplicate {α : Type} (directive : String) (param : List UInt8) : Conf α :=
  emerg ("duplicate " ++ directive ++ " parameter \"%V\"") [.str (logSafeParam param)]

@[simp] theorem accepted_invalid {α : Type} (directive : String) (param : List UInt8) :
    (invalid directive param : Conf α).accepted = none := rfl

@[simp] theorem accepted_duplicate {α : Type} (directive : String) (param : List UInt8) :
    (duplicate directive param : Conf α).accepted = none := rfl

@[simp] theorem accepted_ite_invalid {α : Type} {bad : Prop} [Decidable bad] {directive : String}
    {param : List UInt8} {x : Conf α} {a : α} :
    (if bad then invalid directive param else x).accepted = some a ↔
      ¬ bad ∧ x.accepted = some a := by
  split_ifs with h
  · simp [h]
  · simp [h]

/-! ## Options -/

/-- The options of a directive: `O` names them, `V` is one with its value, and `S` what a handler
has gathered of them. -/
structure Options (O V S : Type) where
  directive : String
  all : List O
  token : O → List UInt8
  /-- from the whole argument and what follows the token -/
  parse : O → List UInt8 → List UInt8 → Conf V
  kind : V → O
  set : V → S → S
  mem_all : ∀ o, o ∈ all
  eq_of_prefix : ∀ o o', token o <+: token o' → o = o'
  kind_parse : ∀ o param value v, (parse o param value).accepted = some v → kind v = o
  set_comm : ∀ v v' s, kind v ≠ kind v' → set v (set v' s) = set v' (set v s)

/-- The variables of the loop. -/
structure Gathered (O S : Type) where
  seen : Finset O
  values : S

namespace Options

variable {O V S : Type}

/-- The option an argument is for, by the ladder of comparisons. -/
def find (opts : Options O V S) (param : List UInt8) : Option O :=
  opts.all.find? fun o => (opts.token o).isPrefixOf param

/-- The body of the loop. -/
def step [DecidableEq O] (opts : Options O V S) (s : Gathered O S) (param : List UInt8) :
    Conf (Gathered O S) :=
  match opts.find param with
  | none => invalid opts.directive param
  | some o =>
    if o ∈ s.seen then duplicate opts.directive param
    else do
      let v ← opts.parse o param (param.drop (opts.token o).length)
      return ⟨insert o s.seen, opts.set v s.values⟩

def gather [DecidableEq O] (opts : Options O V S) (args : List (List UInt8)) (values : S) :
    Conf (Gathered O S) :=
  args.foldlM opts.step ⟨∅, values⟩

variable (opts : Options O V S)

/-- The comparisons exclude each other. -/
theorem find_eq_some {param : List UInt8} {o : O} :
    opts.find param = some o ↔ opts.token o <+: param := by
  constructor
  · intro h
    simpa using List.find?_some h
  · intro h
    cases hfind : opts.find param with
    | none =>
        have hno := List.find?_eq_none.mp hfind o (opts.mem_all o)
        simp [h] at hno
    | some o' =>
        have h' : opts.token o' <+: param := by simpa using List.find?_some hfind
        rcases List.prefix_or_prefix_of_prefix h h' with hle | hle
        · rw [opts.eq_of_prefix _ _ hle]
        · rw [opts.eq_of_prefix _ _ hle]

theorem find_append (o : O) (value : List UInt8) : opts.find (opts.token o ++ value) = some o :=
  opts.find_eq_some.mpr (List.prefix_append _ _)

theorem find_eq_none {param : List UInt8} :
    opts.find param = none ↔ ∀ o, ¬ opts.token o <+: param := by
  rw [Option.eq_none_iff_forall_ne_some]
  exact forall_congr' fun o => not_congr opts.find_eq_some

variable [DecidableEq O]

/-- What an argument that is accepted does. -/
theorem accepted_step {s s' : Gathered O S} {param : List UInt8} :
    (opts.step s param).accepted = some s' ↔
      ∃ o v, opts.find param = some o ∧ o ∉ s.seen ∧
        (opts.parse o param (param.drop (opts.token o).length)).accepted = some v ∧
        s' = ⟨insert o s.seen, opts.set v s.values⟩ := by
  rw [step]
  cases hfind : opts.find param with
  | none => simp
  | some o =>
      by_cases hseen : o ∈ s.seen
      · simp [hseen]
      · simp only [hseen, if_false, Logged.accepted_bind, Logged.accepted_pure,
          Option.bind_eq_some_iff, Option.some.injEq]
        constructor
        · rintro ⟨v, hparse, rfl⟩
          exact ⟨o, v, rfl, hseen, hparse, rfl⟩
        · rintro ⟨_, v, rfl, -, hparse, rfl⟩
          exact ⟨v, hparse, rfl⟩

/-- What a loop that accepts its arguments does. -/
theorem accepted_foldlM_step_cons {s s' : Gathered O S} {param : List UInt8}
    {args : List (List UInt8)} (h : ((param :: args).foldlM opts.step s).accepted = some s') :
    ∃ t, (opts.step s param).accepted = some t ∧ (args.foldlM opts.step t).accepted = some s' := by
  rw [List.foldlM_cons, Logged.accepted_bind] at h
  exact Option.bind_eq_some_iff.mp h

theorem step_comm (s : Gathered O S) (param param' : List UInt8) :
    ((opts.step s param).accepted.bind fun t => (opts.step t param').accepted) =
      (opts.step s param').accepted.bind fun t => (opts.step t param).accepted := by
  have hswap : ∀ (p p' : List UInt8) (s' : Gathered O S),
      ((opts.step s p).accepted.bind fun t => (opts.step t p').accepted) = some s' →
      ((opts.step s p').accepted.bind fun t => (opts.step t p).accepted) = some s' := by
    intro p p' s' h
    obtain ⟨t, ht, hs'⟩ := Option.bind_eq_some_iff.mp h
    obtain ⟨o, v, hfind, hseen, hparse, rfl⟩ := opts.accepted_step.mp ht
    obtain ⟨o', v', hfind', hseen', hparse', rfl⟩ := opts.accepted_step.mp hs'
    rw [Finset.mem_insert, not_or] at hseen'
    have hkind : opts.kind v' ≠ opts.kind v := by
      rw [opts.kind_parse _ _ _ _ hparse, opts.kind_parse _ _ _ _ hparse']
      exact hseen'.1
    refine Option.bind_eq_some_iff.mpr
      ⟨_, opts.accepted_step.mpr ⟨o', v', hfind', hseen'.2, hparse', rfl⟩, ?_⟩
    refine opts.accepted_step.mpr ⟨o, v, hfind, ?_, hparse, ?_⟩
    · rw [Finset.mem_insert, not_or]
      exact ⟨Ne.symm hseen'.1, hseen⟩
    · rw [Finset.insert_comm, opts.set_comm _ _ _ hkind]
  refine Option.ext fun s' => ⟨hswap param param' s', hswap param' param s'⟩

/-- The order of the arguments does not matter. -/
theorem gather_perm {args args' : List (List UInt8)} (h : args.Perm args') (values : S) :
    (opts.gather args values).accepted = (opts.gather args' values).accepted := by
  rw [gather, gather, Logged.accepted_foldlM, Logged.accepted_foldlM]
  exact foldlM_perm opts.step_comm h _

/-- Each argument is for an option, each option is given once at most, and none is given that had
been seen before. -/
theorem accepted_foldlM_step {s s' : Gathered O S} {args : List (List UInt8)}
    (h : (args.foldlM opts.step s).accepted = some s') :
    (∀ param ∈ args, ∃ o, opts.find param = some o ∧ o ∉ s.seen) ∧
      args.Pairwise (opts.find · ≠ opts.find ·) := by
  induction args generalizing s with
  | nil => exact ⟨by simp, List.Pairwise.nil⟩
  | cons param args ih =>
      obtain ⟨t, ht, hrest⟩ := opts.accepted_foldlM_step_cons h
      obtain ⟨o, v, hfind, hseen, -, rfl⟩ := opts.accepted_step.mp ht
      obtain ⟨hknown, honce⟩ := ih hrest
      refine ⟨List.forall_mem_cons.mpr ⟨⟨o, hfind, hseen⟩, ?_⟩, List.pairwise_cons.mpr ⟨?_, honce⟩⟩
      · intro param' hmem
        obtain ⟨o', hfind', hseen'⟩ := hknown param' hmem
        exact ⟨o', hfind', fun hold => hseen' (Finset.mem_insert_of_mem hold)⟩
      · intro param' hmem heq
        obtain ⟨o', hfind', hseen'⟩ := hknown param' hmem
        obtain rfl : o = o' := Option.some.inj (hfind.symm.trans (heq.trans hfind'))
        exact hseen' (Finset.mem_insert_self o s.seen)

/-- An option given twice is refused. -/
theorem gather_repeated (o : O) (l m r : List (List UInt8)) (value value' : List UInt8)
    (values : S) : (opts.gather (l ++ (opts.token o ++ value) :: (m ++
      (opts.token o ++ value') :: r)) values).accepted = none := by
  by_contra hsome
  obtain ⟨s', hs'⟩ := Option.ne_none_iff_exists'.mp hsome
  have honce := (opts.accepted_foldlM_step hs').2
  have htail := (List.pairwise_append.mp honce).2.1
  refine (List.pairwise_cons.mp htail).1 (opts.token o ++ value') (by simp) ?_
  rw [find_append, find_append]

/-- An argument for no option is refused. -/
theorem gather_unknown {param : List UInt8} (hno : ∀ o, ¬ opts.token o <+: param)
    {args : List (List UInt8)} (hmem : param ∈ args) (values : S) :
    (opts.gather args values).accepted = none := by
  by_contra hsome
  obtain ⟨s', hs'⟩ := Option.ne_none_iff_exists'.mp hsome
  obtain ⟨o, hfind, -⟩ := (opts.accepted_foldlM_step hs').1 param hmem
  exact hno o (opts.find_eq_some.mp hfind)

/-- What every value that is parsed keeps holds in the end. -/
theorem gather_invariant {I : S → Prop} {args : List (List UInt8)} {values : S} (h0 : I values)
    (hset : ∀ o value v s, opts.token o ++ value ∈ args →
      (opts.parse o (opts.token o ++ value) value).accepted = some v → I s → I (opts.set v s))
    {s' : Gathered O S} (h : (opts.gather args values).accepted = some s') : I s'.values := by
  rw [gather, Logged.accepted_foldlM] at h
  refine foldlM_invariant (I := fun s => I s.values) ?_ h0 h
  intro s t param hmem hI ht
  obtain ⟨o, v, hfind, -, hparse, rfl⟩ := opts.accepted_step.mp ht
  obtain ⟨value, rfl⟩ := opts.find_eq_some.mp hfind
  rw [List.drop_left] at hparse
  exact hset o value v s.values hmem hparse hI

/-- Two loops over arguments that are for the same options and shown alike. -/
theorem gather_alike {R : List UInt8 → List UInt8 → Prop} {W : V → V → Prop} {I : S → S → Prop}
    (hfind : ∀ p p', R p p' → opts.find p = opts.find p')
    (hshown : ∀ p p', R p p' → logSafeParam p = logSafeParam p')
    (hparse : ∀ p p' o, R p p' → opts.find p = some o →
      Logged.Alike W (opts.parse o p (p.drop (opts.token o).length))
        (opts.parse o p' (p'.drop (opts.token o).length)))
    (hset : ∀ v v' s s', W v v' → I s s' → I (opts.set v s) (opts.set v' s'))
    {args args' : List (List UInt8)} (h : List.Forall₂ R args args') {values values' : S}
    (h0 : I values values') :
    Logged.Alike (fun s s' => s.seen = s'.seen ∧ I s.values s'.values)
      (opts.gather args values) (opts.gather args' values') := by
  refine Logged.Alike.foldlM ?_ h ⟨rfl, h0⟩
  rintro ⟨seen, s⟩ ⟨_, s'⟩ p p' ⟨rfl, hI⟩ hp
  rw [step, step, ← hfind p p' hp]
  cases ho : opts.find p with
  | none =>
      simp only [invalid, hshown p p' hp]
      exact Logged.Alike.fail _ _
  | some o =>
      by_cases hseen : o ∈ seen
      · simp only [hseen, if_true, duplicate, hshown p p' hp]
        exact Logged.Alike.fail _ _
      · simp only [hseen, if_false]
        refine Logged.Alike.bind (hparse p p' o hp ho) fun v v' hv => ?_
        exact Logged.Alike.pure ⟨rfl, hset v v' s s' hv hI⟩

end Options

end ErrorAbuse
