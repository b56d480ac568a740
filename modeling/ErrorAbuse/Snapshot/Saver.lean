import ErrorAbuse.Lib.Handles
import ErrorAbuse.Lib.Run
import Mathlib.Data.List.Count

/-!
# Saving in the background

One worker saves the snapshot of one zone from a timer. `serialize` fills a buffer that the zone
keeps from tick to tick, and a thread of the pool writes it out while the event loop goes on; the
flag `busy` keeps the next tick from filling the buffer again. Where there is no pool, where the
queue is full and when the process exits, the event loop writes the buffer itself.

`Saver` is what the event loop, the pool and the heap hold between events. A running task reads the
buffer piece by piece, at the time of each event. Next to the state stand its history and two
alarms: `overlap` is raised when the buffer is filled or written by the event loop beside a task
that has not finished, and `fault` when a buffer is read that has been freed.
-/

namespace ErrorAbuse

open Lib

/-- What is settled when the process starts. -/
structure SaverSite where
  /-- whether `ngx_thread_pool_get` finds the pool -/
  pool : Bool
  /-- whether `persist_task` could be allocated -/
  task : Bool
  /-- the size of the buffer that `serialize` needs -/
  need : ℕ

/-- Whether ticks post tasks. -/
def SaverSite.async (site : SaverSite) : Bool := site.pool && site.task

/-- What happens inside a call of `serialize`: whether it can allocate, what it puts into the
buffer, and whether the MAC can be computed. -/
structure SerializeRun where
  allocOk : Bool
  bytes : List UInt8
  macOk : Bool

/-- `ngx_http_error_abuse_save_ctx_t` -/
structure SaveCtx where
  buffer : Option ℕ
  len : ℕ
  deriving DecidableEq, Repr

/-- Where a task is: in the queue, in `persist_thread` with its arguments and what it has written,
or waiting for its completion event. -/
inductive TaskPhase
  | queued
  | running (buffer : Option ℕ) (len : ℕ) (done : List UInt8)
  | finished
  deriving DecidableEq, Repr

/-- A task that was posted, with the number of the snapshot it was posted for. -/
structure SaveTask where
  phase : TaskPhase
  snapshot : ℕ
  deriving DecidableEq, Repr

def SaveTask.unfinished (t : SaveTask) : Bool := t.phase ≠ .finished

structure Saver where
  heap : Handles (List UInt8)
  /-- `persist_buf` -/
  buf : Option ℕ
  /-- `persist_buf_cap` -/
  cap : ℕ
  /-- `persist_busy` -/
  busy : Bool
  ctx : SaveCtx
  tasks : List SaveTask
  /-- whether `persist_event` is in the timer tree -/
  timer : Bool
  exited : Bool
  /-- what `serialize` has returned so far -/
  snapshots : List (List UInt8)
  /-- what has been put on disk so far, each with the number of its snapshot -/
  files : List (ℕ × List UInt8)
  overlap : Bool
  fault : Bool

namespace Saver

/-- After `init_process`. -/
def start : Saver where
  heap := .empty
  buf := none
  cap := 0
  busy := false
  ctx := ⟨none, 0⟩
  tasks := []
  timer := true
  exited := false
  snapshots := []
  files := []
  overlap := false
  fault := false

/-- How many tasks have been posted and not finished. -/
def inFlight (s : Saver) : ℕ := s.tasks.countP SaveTask.unfinished

/-- Note whether the event loop uses the buffer beside a task. -/
def watch (s : Saver) : Saver := { s with overlap := s.overlap || s.inFlight ≠ 0 }

/-! ## The buffer -/

/-- The buffer, allocated again if there is none or it is too small. -/
def grow (site : SaverSite) (allocOk : Bool) (s : Saver) : Option (Saver × ℕ) :=
  match s.buf with
  | none =>
    if allocOk then
      some ({ s with heap := s.heap.alloc [], buf := some s.heap.next, cap := site.need },
        s.heap.next)
    else none
  | some b =>
    if s.cap < site.need then
      if allocOk then
        some ({ s with heap := (s.heap.alloc []).free b, buf := some s.heap.next, cap := site.need },
          s.heap.next)
      else none
    else some (s, b)

/-- `serialize`: the buffer and the length, or `NULL`. -/
def serialize (site : SaverSite) (run : SerializeRun) (s : Saver) : Saver × Option (ℕ × ℕ) :=
  match s.watch.grow site run.allocOk with
  | none => (s.watch, none)
  | some (s, b) =>
    let s := { s with heap := s.heap.modify b fun _ => run.bytes }
    if run.macOk then
      ({ s with snapshots := s.snapshots ++ [run.bytes] }, some (b, run.bytes.length))
    else (s, none)

/-- `write_file` on the event loop, of the snapshot just taken. -/
def writeFile (ok : Bool) (b len : ℕ) (s : Saver) : Saver :=
  match s.heap.get b with
  | none => { s.watch with fault := true }
  | some data =>
    if ok then { s.watch with files := s.files ++ [(s.snapshots.length - 1, data.take len)] }
    else s.watch

/-- `save` -/
def save (site : SaverSite) (run : SerializeRun) (ok : Bool) (s : Saver) : Saver :=
  match s.serialize site run with
  | (s, none) => s
  | (s, some (b, len)) => s.writeFile ok b len

/-! ## Events -/

inductive Event
  /-- the timer fires; what `serialize` does, whether the task can be posted and whether a write
  on the event loop succeeds -/
  | tick (run : SerializeRun) (postOk ok : Bool)
  /-- a thread takes a task -/
  | threadStart (i : ℕ)
  /-- a `write` of a running task takes so many bytes -/
  | threadWrite (i n : ℕ)
  /-- the task's handler returns -/
  | threadEnd (i : ℕ) (ok : Bool)
  /-- the completion event of a task -/
  | complete (i : ℕ)
  /-- `exit_process`, with the pool drained -/
  | exit (run : SerializeRun) (ok : Bool)

/-- `persist_handler` with a pool and a task, up to the timer. -/
def post (site : SaverSite) (run : SerializeRun) (postOk ok : Bool) (s : Saver) : Saver :=
  if s.busy then s -- a previous save is still in flight
  else
    match s.serialize site run with
    | (s, none) => { s with ctx := { s.ctx with buffer := none } }
    | (s, some (b, len)) =>
      let s := { s with ctx := ⟨some b, len⟩, busy := true }
      if postOk then { s with tasks := s.tasks ++ [⟨.queued, s.snapshots.length - 1⟩] }
      else
        let s := { s with busy := false }.writeFile ok b len
        { s with ctx := { s.ctx with buffer := none } }

/-- `persist_handler`. nginx takes the event out of the timer tree first. -/
def persistHandler (site : SaverSite) (run : SerializeRun) (postOk ok : Bool) (s : Saver) : Saver :=
  let s := { s with timer := false }
  if site.async then { s.post site run postOk ok with timer := true }
  else { s.save site run ok with timer := true }

/-- `exit_process` -/
def exitProcess (site : SaverSite) (run : SerializeRun) (ok : Bool) (s : Saver) : Saver :=
  let s := s.save site run ok
  match s.buf with
  | none => { s with exited := true }
  | some b => { s with heap := s.heap.free b, buf := none, cap := 0, exited := true }

/-- What a running task does with its next bytes. -/
def readOn (i n snapshot : ℕ) (buffer : Option ℕ) (len : ℕ) (done : List UInt8) (s : Saver) :
    Saver :=
  match buffer.bind s.heap.get with
  | none => { s with fault := true }
  | some data =>
    let piece := (data.drop done.length).take (min n (len - done.length))
    { s with tasks := s.tasks.set i ⟨.running buffer len (done ++ piece), snapshot⟩ }

/-- One event; `none` if it cannot happen. -/
def step (site : SaverSite) (s : Saver) (e : Event) : Option Saver :=
  if s.exited then none
  else
    match e with
    | .tick run postOk ok => if s.timer then some (s.persistHandler site run postOk ok) else none
    | .threadStart i =>
      match s.tasks[i]? with
      | some ⟨.queued, snapshot⟩ =>
        some { s with tasks := s.tasks.set i ⟨.running s.ctx.buffer s.ctx.len [], snapshot⟩ }
      | _ => none
    | .threadWrite i n =>
      match s.tasks[i]? with
      | some ⟨.running buffer len done, snapshot⟩ =>
        if done.length < len then some (s.readOn i n snapshot buffer len done) else none
      | _ => none
    | .threadEnd i ok =>
      match s.tasks[i]? with
      | some ⟨.running _ len done, snapshot⟩ =>
        if !ok then some { s with tasks := s.tasks.set i ⟨.finished, snapshot⟩ }
        else if done.length = len then
          some { s with
            tasks := s.tasks.set i ⟨.finished, snapshot⟩
            files := s.files ++ [(snapshot, done)] }
        else none
      | _ => none
    | .complete i =>
      match s.tasks[i]? with
      | some ⟨.finished, _⟩ =>
        some { s with tasks := s.tasks.eraseIdx i, ctx := { s.ctx with buffer := none }, busy := false }
      | _ => none
    | .exit run ok => if s.inFlight = 0 then some (s.exitProcess site run ok) else none

/-! ## The history -/

/-- Every file on disk is a snapshot as `serialize` returned it, and they came in the order in which
they were taken. -/
structure History (snapshots : List (List UInt8)) (files : List (ℕ × List UInt8)) : Prop where
  exact : ∀ f ∈ files, snapshots[f.1]? = some f.2
  order : files.Pairwise (·.1 < ·.1)

section History

variable {snapshots : List (List UInt8)} {files : List (ℕ × List UInt8)} {k : ℕ}
  {bytes : List UInt8}

theorem History.nil : History [] [] := ⟨by simp, List.Pairwise.nil⟩

theorem History.lt_length (h : History snapshots files) : ∀ f ∈ files, f.1 < snapshots.length := by
  intro f hf
  exact (List.getElem?_eq_some_iff.mp (h.exact f hf)).1

/-- Another snapshot has been taken. -/
theorem History.snapshot (h : History snapshots files) (bytes : List UInt8) :
    History (snapshots ++ [bytes]) files := by
  refine ⟨fun f hf => ?_, h.order⟩
  rw [List.getElem?_append_left (h.lt_length f hf)]
  exact h.exact f hf

/-- A snapshot later than those on disk has been written. -/
theorem History.file (h : History snapshots files) (hk : snapshots[k]? = some bytes)
    (hlate : ∀ f ∈ files, f.1 < k) : History snapshots (files ++ [(k, bytes)]) := by
  constructor
  · rw [List.forall_mem_append, List.forall_mem_singleton]
    exact ⟨h.exact, hk⟩
  · rw [List.pairwise_append]
    refine ⟨h.order, List.pairwise_singleton _ _, fun f hf g hg => ?_⟩
    obtain rfl := List.mem_singleton.mp hg
    exact hlate f hf

end History

/-! ## The buffer between events -/

variable {site : SaverSite} {run : SerializeRun} {ok postOk : Bool} {s s' : Saver} {i b : ℕ}
  {t t' : SaveTask}

theorem watch_of_idle (h : s.inFlight = 0) : s.watch = s := by
  simp [watch, h]

/-- What `serialize` does when no task is under way. -/
theorem serialize_cases (site : SaverSite) (run : SerializeRun) (hidle : s.inFlight = 0)
    (hsole : s.heap.Sole s.buf) :
    (∃ heap buf cap, heap.Sole buf ∧ s.serialize site run =
      ({ s with heap := heap, buf := buf, cap := cap }, none)) ∨
    ∃ heap b cap, heap.Sole (some b) ∧ heap.get b = some run.bytes ∧ s.serialize site run =
      ({ s with heap := heap, buf := some b, cap := cap, snapshots := s.snapshots ++ [run.bytes] },
        some (b, run.bytes.length)) := by
  rw [serialize, watch_of_idle hidle]
  have hgrow : s.grow site run.allocOk = none ∨ ∃ heap b cap, heap.Sole (some b) ∧
      s.grow site run.allocOk = some ({ s with heap := heap, buf := some b, cap := cap }, b) := by
    rw [grow]
    cases hbuf : s.buf with
    | none =>
        cases run.allocOk with
        | false => exact .inl rfl
        | true => exact .inr ⟨_, _, _, Handles.Sole.alloc (hbuf ▸ hsole) [], rfl⟩
    | some b =>
        have hheld : s.heap.Sole (some b) := hbuf ▸ hsole
        by_cases hsmall : s.cap < site.need
        · cases run.allocOk with
          | false => exact .inl (by simp [hsmall])
          | true => exact .inr ⟨_, _, site.need, hheld.replace [], by simp [hsmall]⟩
        · have hsame : { s with heap := s.heap, buf := some b, cap := s.cap } = s := by rw [← hbuf]
          exact .inr ⟨s.heap, b, s.cap, hheld, by simp only [if_neg hsmall, hsame]⟩
  rcases hgrow with hnull | ⟨heap, b, cap, hheap, hgrow⟩
  · rw [hnull]
    exact .inl ⟨_, _, _, hsole, rfl⟩
  · rw [hgrow]
    have hfilled : (heap.modify b fun _ => run.bytes).get b = some run.bytes := by
      obtain ⟨old, hold⟩ := hheap.live
      rw [Handles.get_modify, if_pos rfl, hold]
      rfl
    have hsole' := hheap.modify b fun _ => run.bytes
    cases hmac : run.macOk with
    | false => exact .inl ⟨_, _, cap, hsole', by simp⟩
    | true => exact .inr ⟨_, _, cap, hsole', hfilled, by simp⟩

/-- The event loop writes what is in the buffer. -/
theorem writeFile_eq {data : List UInt8} (hidle : s.inFlight = 0) (hb : s.heap.get b = some data) :
    s.writeFile ok b data.length = { s with
      files := if ok then s.files ++ [(s.snapshots.length - 1, data)] else s.files } := by
  rw [writeFile, hb, watch_of_idle hidle]
  cases ok <;> simp

/-! ## The invariant -/

/-- What a task that has not finished relies on: the buffer is still there and holds the snapshot
that the task was posted for. -/
def Holds (s : Saver) (t : SaveTask) : Prop :=
  ∃ b data, s.buf = some b ∧ s.heap.get b = some data ∧ s.snapshots[t.snapshot]? = some data ∧
    s.ctx = ⟨some b, data.length⟩ ∧ ∀ buffer len done, t.phase = .running buffer len done →
      buffer = some b ∧ len = data.length ∧ done <+: data

structure Sound (site : SaverSite) (s : Saver) : Prop where
  sole : s.heap.Sole s.buf
  overlap : s.overlap = false
  fault : s.fault = false
  history : History s.snapshots s.files
  one : s.tasks.length ≤ 1
  busy : s.tasks ≠ [] → s.busy = true
  async : s.tasks ≠ [] → site.async = true
  holds : ∀ t ∈ s.tasks, t.unfinished = true → Holds s t
  later : ∀ t ∈ s.tasks, t.unfinished = true → ∀ f ∈ s.files, f.1 < t.snapshot

theorem Sound.start : Sound site start where
  sole := Handles.Sole.empty
  overlap := rfl
  fault := rfl
  history := History.nil
  one := Nat.zero_le _
  busy h := absurd rfl h
  async h := absurd rfl h
  holds t ht := by cases ht
  later t ht := by cases ht

theorem Sound.inFlight_le (h : Sound site s) : s.inFlight ≤ 1 := by
  rw [inFlight]
  exact Nat.le_trans List.countP_le_length h.one

theorem inFlight_of_nil (h : s.tasks = []) : s.inFlight = 0 := by
  rw [inFlight, h]
  rfl

theorem not_unfinished_of_idle (h : s.inFlight = 0) (ht : t ∈ s.tasks) : ¬ t.unfinished = true :=
  List.countP_eq_zero.mp h t ht

theorem Sound.tasks_eq (h : Sound site s) (hi : s.tasks[i]? = some t) : s.tasks = [t] ∧ i = 0 := by
  obtain ⟨hlt, -⟩ := List.getElem?_eq_some_iff.mp hi
  have hone := h.one
  obtain rfl : i = 0 := by omega
  obtain ⟨u, hu⟩ := List.length_eq_one_iff.mp (show s.tasks.length = 1 by omega)
  rw [hu] at hi
  obtain rfl : u = t := by simpa using hi
  exact ⟨hu, rfl⟩

/-- No task, no task that has not finished: a state that a save leads to. -/
theorem Sound.of_idle (h : Sound site s) (hidle : s.inFlight = 0) {heap : Handles (List UInt8)}
    {buf : Option ℕ} (hsole : heap.Sole buf) (cap : ℕ) (timer exited : Bool)
    {snapshots : List (List UInt8)} {files : List (ℕ × List UInt8)}
    (hhistory : History snapshots files) :
    Sound site { s with
      heap := heap, buf := buf, cap := cap, timer := timer, exited := exited,
      snapshots := snapshots, files := files } where
  sole := hsole
  overlap := h.overlap
  fault := h.fault
  history := hhistory
  one := h.one
  busy := h.busy
  async := h.async
  holds _ ht hopen := absurd hopen (not_unfinished_of_idle hidle ht)
  later _ ht hopen := absurd hopen (not_unfinished_of_idle hidle ht)

/-- A task moves on. -/
theorem Sound.set (h : Sound site s) (hi : s.tasks[i]? = some t)
    {files : List (ℕ × List UInt8)} (hhistory : History s.snapshots files)
    (hholds : t'.unfinished = true → Holds s t')
    (hlater : t'.unfinished = true → ∀ f ∈ files, f.1 < t'.snapshot) :
    Sound site { s with tasks := s.tasks.set i t', files := files } := by
  obtain ⟨htasks, rfl⟩ := h.tasks_eq hi
  have hne : s.tasks ≠ [] := by simp [htasks]
  have hset : s.tasks.set 0 t' = [t'] := by rw [htasks]; rfl
  have honly : ∀ u ∈ s.tasks.set 0 t', u = t' := by
    intro u hu
    rw [hset] at hu
    exact List.mem_singleton.mp hu
  exact {
    sole := h.sole
    overlap := h.overlap
    fault := h.fault
    history := hhistory
    one := by rw [List.length_set]; exact h.one
    busy := fun _ => h.busy hne
    async := fun _ => h.async hne
    holds := fun u hu hopen => by
      obtain rfl := honly u hu
      exact hholds hopen
    later := fun u hu hopen => by
      obtain rfl := honly u hu
      exact hlater hopen }

/-! ## The steps -/

/-- A snapshot that was just taken is the last one. -/
theorem last_snapshot (snapshots : List (List UInt8)) (bytes : List UInt8) :
    (snapshots ++ [bytes]).length - 1 = snapshots.length ∧
      (snapshots ++ [bytes])[snapshots.length]? = some bytes := by
  simp

theorem History.save {snapshots : List (List UInt8)} {files : List (ℕ × List UInt8)}
    (h : History snapshots files) (ok : Bool) (bytes : List UInt8) :
    History (snapshots ++ [bytes])
      (if ok then files ++ [(snapshots.length, bytes)] else files) := by
  cases ok with
  | false => exact h.snapshot bytes
  | true => exact (h.snapshot bytes).file (last_snapshot snapshots bytes).2 h.lt_length

/-- Saving on the event loop, when no task is under way. -/
theorem Sound.save (h : Sound site s) (run : SerializeRun) (ok : Bool) (hidle : s.inFlight = 0) :
    Sound site (s.save site run ok) ∧ (s.save site run ok).inFlight = 0 := by
  rw [Saver.save]
  rcases serialize_cases site run hidle h.sole with
    ⟨heap, buf, cap, hsole, hserialize⟩ | ⟨heap, b, cap, hsole, hb, hserialize⟩
  · rw [hserialize]
    exact ⟨h.of_idle hidle hsole cap s.timer s.exited h.history, hidle⟩
  · rw [hserialize]
    simp only []
    rw [writeFile_eq, (last_snapshot s.snapshots run.bytes).1]
    · exact ⟨h.of_idle hidle hsole cap s.timer s.exited (h.history.save ok run.bytes), hidle⟩
    · exact hidle
    · exact hb

theorem Sound.post (h : Sound site s) (hasync : site.async = true) :
    Sound site (s.post site run postOk ok) := by
  rw [Saver.post]
  by_cases hbusy : s.busy = true
  · rwa [if_pos hbusy]
  rw [if_neg hbusy]
  have hnil : s.tasks = [] := not_not.mp fun hne => hbusy (h.busy hne)
  have hidle := inFlight_of_nil hnil
  rcases serialize_cases site run hidle h.sole with
    ⟨heap, buf, cap, hsole, hserialize⟩ | ⟨heap, b, cap, hsole, hb, hserialize⟩
  · rw [hserialize]
    exact { h.of_idle hidle hsole cap s.timer s.exited h.history with
      holds := fun t ht hopen => absurd hopen (not_unfinished_of_idle hidle ht) }
  · rw [hserialize]
    cases postOk with
    | false =>
        simp only [Bool.false_eq_true, if_false]
        rw [writeFile_eq, (last_snapshot s.snapshots run.bytes).1]
        · exact { h.of_idle hidle hsole cap s.timer s.exited (h.history.save ok run.bytes) with
            busy := fun hne => absurd hnil hne
            holds := fun t ht hopen => absurd hopen (not_unfinished_of_idle hidle ht) }
        · exact hidle
        · exact hb
    | true =>
        have hlast := last_snapshot s.snapshots run.bytes
        simp only [if_true, hnil, List.nil_append, hlast.1]
        exact {
          sole := hsole
          overlap := h.overlap
          fault := h.fault
          history := h.history.snapshot run.bytes
          one := Nat.le_refl 1
          busy := fun _ => rfl
          async := fun _ => hasync
          holds := fun t ht _ => by
            obtain rfl := List.mem_singleton.mp ht
            exact ⟨b, run.bytes, rfl, hb, hlast.2, rfl, fun _ _ _ hphase => by cases hphase⟩
          later := fun t ht _ f hf => by
            obtain rfl := List.mem_singleton.mp ht
            exact h.history.lt_length f hf }

/-- The timer is not part of it. -/
theorem Sound.timer (h : Sound site s) (timer : Bool) : Sound site { s with timer := timer } :=
  { h with holds := h.holds }

theorem Sound.persistHandler (h : Sound site s) :
    Sound site (s.persistHandler site run postOk ok) := by
  rw [Saver.persistHandler]
  by_cases hasync : site.async = true
  · simp only [hasync, if_true]
    exact ((h.timer false).post hasync).timer true
  · have hnil : s.tasks = [] := not_not.mp fun hne => hasync (h.async hne)
    simp only [if_neg hasync]
    exact ((h.timer false).save run ok (inFlight_of_nil hnil)).1.timer true

theorem Sound.exitProcess (h : Sound site s) (hidle : s.inFlight = 0) :
    Sound site (s.exitProcess site run ok) := by
  obtain ⟨hsaved, hidle'⟩ := h.save run ok hidle
  rw [Saver.exitProcess]
  generalize s.save site run ok = s' at hsaved hidle'
  have hsole := hsaved.sole
  cases hbuf : s'.buf with
  | none =>
      rw [hbuf] at hsole
      exact hsaved.of_idle hidle' hsole s'.cap s'.timer true hsaved.history
  | some b =>
      rw [hbuf] at hsole
      exact hsaved.of_idle hidle' hsole.free 0 s'.timer true hsaved.history

/-- A running task reads the bytes of its snapshot. -/
theorem Sound.readOn (h : Sound site s) {n snapshot len : ℕ} {buffer : Option ℕ}
    {done : List UInt8} (hi : s.tasks[i]? = some ⟨.running buffer len done, snapshot⟩) :
    Sound site (s.readOn i n snapshot buffer len done) := by
  have hmem := List.mem_of_getElem? hi
  obtain ⟨b, data, hbuf, hdata, hsnapshot, hctx, hrunning⟩ := h.holds _ hmem rfl
  obtain ⟨rfl, rfl, hdone⟩ := hrunning buffer len done rfl
  have hread : (some b).bind s.heap.get = some data := hdata
  have hlater := h.later _ hmem rfl
  rw [Saver.readOn, hread]
  refine h.set hi h.history (fun _ => ?_) fun _ => hlater
  refine ⟨b, data, hbuf, hdata, hsnapshot, hctx, fun _ _ _ hphase => ?_⟩
  obtain ⟨rfl, rfl, rfl⟩ := TaskPhase.running.inj hphase
  refine ⟨rfl, rfl, ?_⟩
  obtain ⟨rest, rfl⟩ := hdone
  rw [List.drop_left, List.prefix_append_right_inj]
  exact List.take_prefix _ _

theorem step_sound (h : Sound site s) {e : Event} (hstep : s.step site e = some s') :
    Sound site s' := by
  cases e <;> simp only [step, Option.ite_none_left_eq_some] at hstep <;>
    obtain ⟨-, hstep⟩ := hstep
  case tick run postOk ok =>
    simp only [Option.ite_none_right_eq_some, Option.some.injEq] at hstep
    exact hstep.2 ▸ h.persistHandler
  case exit run ok =>
    simp only [Option.ite_none_right_eq_some, Option.some.injEq] at hstep
    exact hstep.2 ▸ h.exitProcess hstep.1
  case threadStart i =>
    split at hstep
    case h_2 => cases hstep
    case h_1 snapshot hi =>
      obtain rfl := Option.some.inj hstep
      have hmem := List.mem_of_getElem? hi
      obtain ⟨b, data, hbuf, hdata, hsnapshot, hctx, -⟩ := h.holds _ hmem rfl
      have hlater := h.later _ hmem rfl
      refine h.set hi h.history (fun _ => ?_) fun _ => hlater
      refine ⟨b, data, hbuf, hdata, hsnapshot, hctx, fun _ _ _ hphase => ?_⟩
      obtain ⟨rfl, rfl, rfl⟩ := TaskPhase.running.inj hphase
      rw [hctx]
      exact ⟨rfl, rfl, List.nil_prefix⟩
  case threadWrite i n =>
    split at hstep
    case h_2 => cases hstep
    case h_1 buffer len done snapshot hi =>
      simp only [Option.ite_none_right_eq_some, Option.some.injEq] at hstep
      exact hstep.2 ▸ h.readOn hi
  case threadEnd i ok =>
    split at hstep
    case h_2 => cases hstep
    case h_1 buffer len done snapshot hi =>
      have hmem := List.mem_of_getElem? hi
      obtain ⟨b, data, -, -, hsnapshot, -, hrunning⟩ := h.holds _ hmem rfl
      obtain ⟨-, rfl, hdone⟩ := hrunning _ _ _ rfl
      have hclosed : ¬ SaveTask.unfinished ⟨.finished, snapshot⟩ = true := by
        simp [SaveTask.unfinished]
      split_ifs at hstep with hfailed hall
      · obtain rfl := Option.some.inj hstep
        exact h.set hi h.history (fun hopen => absurd hopen hclosed) fun hopen =>
          absurd hopen hclosed
      · obtain rfl := Option.some.inj hstep
        obtain rfl : done = data := hdone.eq_of_length hall
        exact h.set hi (h.history.file hsnapshot (h.later _ hmem rfl))
          (fun hopen => absurd hopen hclosed) fun hopen => absurd hopen hclosed
  case complete i =>
    split at hstep
    case h_2 => cases hstep
    case h_1 snapshot hi =>
      obtain rfl := Option.some.inj hstep
      obtain ⟨htasks, rfl⟩ := h.tasks_eq hi
      have hnil : s.tasks.eraseIdx 0 = [] := by rw [htasks]; rfl
      rw [hnil]
      exact { h with
        one := Nat.zero_le _
        busy := fun hne => absurd rfl hne
        async := fun hne => absurd rfl hne
        holds := fun t ht => by cases ht
        later := fun t ht => by cases ht }

/-- **Saving in the background.** In every state of every run: the event loop has not filled or
written the buffer beside a task that had not finished, no buffer has been read after it was freed,
at most one task is under way, and what is on disk are snapshots as they were taken, in order. And
every tick leaves the timer armed. -/
theorem saver_safe (site : SaverSite) (events : List Event) :
    Always (step site) (fun s => s.overlap = false ∧ s.fault = false ∧ s.inFlight ≤ 1 ∧
      (∀ f ∈ s.files, s.snapshots[f.1]? = some f.2) ∧ s.files.Pairwise (·.1 < ·.1))
      start events ∧
    ∀ (s s' : Saver) (run : SerializeRun) (postOk ok : Bool),
      s.step site (.tick run postOk ok) = some s' → s'.timer = true := by
  constructor
  · have hsound : Always (step site) (Sound site) start events :=
      always_of_step (Sound site) (fun s e s' h => step_sound h) Sound.start events
    exact hsound.imp fun s h =>
      ⟨h.overlap, h.fault, h.inFlight_le, h.history.exact, h.history.order⟩
  · intro s s' run postOk ok hstep
    simp only [step, persistHandler, Option.ite_none_left_eq_some, Option.ite_none_right_eq_some,
      Option.some.injEq] at hstep
    obtain ⟨-, -, rfl⟩ := hstep
    split_ifs <;> rfl

end Saver

end ErrorAbuse
