import ErrorAbuse.Lib.Mutex

/-!
# Who saves the snapshot on Windows

On Windows every worker process has the persistence timer, and a named mutex settles which of them
saves. The name comes from the canonical path of the snapshot. A worker tries to own the mutex
when it starts and at every tick until it does, and gives it back after its last save, in
`exit_process`.

The system is any number of processes, numbered, that contend for the mutexes. A write of the
snapshot lasts from one event to a later one, on the event loop or on a thread of the pool, so that
the others take steps meanwhile. A process may end at any moment, and its mutex is then abandoned.
What is written is not looked at here; whether `serialize` returns a buffer, whether the task can
be posted and which system calls fail are part of the events.
-/

namespace ErrorAbuse

open Lib

/-! ## Ownership -/

/-- The UTF-16 units of a text in the source. -/
def wide (text : String) : List UInt16 := text.toList.map fun c => c.toNat.toUInt16

/-- What `mutex_name` writes for a canonical path. -/
def mutexName (sha256 : List UInt16 → List UInt8) (canonical : List UInt16) : List UInt16 :=
  let hex := wide "0123456789abcdef"
  wide "Global\\ngx_error_abuse_persist_" ++ (sha256 canonical).flatMap fun (b : UInt8) =>
    [hex.getD (b >>> 4).toNat 0, hex.getD (b &&& 0x0f).toNat 0]

/-- `ngx_http_error_abuse_win32_owner_t`; of the handle, whether there is one. -/
structure Win32Owner where
  mutex : Bool
  owned : Bool
  failed : Bool
  deriving DecidableEq, Repr

/-- Which calls of an attempt go through: `mutex_name`, `CreateMutexW` and
`WaitForSingleObject`. -/
structure OwnerCalls where
  nameOk : Bool
  createOk : Bool
  waitOk : Bool

/-- No call of the attempt fails. -/
def OwnerCalls.allOk (calls : OwnerCalls) : Bool := calls.nameOk && calls.createOk && calls.waitOk

inductive OwnerRc
  | ok
  | declined
  | error
  deriving DecidableEq, Repr

namespace Win32Owner

/-- `win32_owner_try` in process `i`. -/
def ownerTry (calls : OwnerCalls) (i : ℕ) (o : Win32Owner) (m : Mutex ℕ) :
    OwnerRc × Win32Owner × Mutex ℕ :=
  if o.owned then (.ok, o, m)
  else if o.failed then (.error, o, m)
  else if !o.mutex && !(calls.nameOk && calls.createOk) then (.error, { o with failed := true }, m)
  else
    let o := { o with mutex := true }
    if calls.waitOk then
      match m.wait i with
      | (.timeout, m) => (.declined, o, m)
      | (_, m) => (.ok, { o with owned := true }, m)
    else (.error, { o with failed := true }, m)

/-- `win32_owner_release` in process `i`. Where `ReleaseMutex` fails, the mutex stays with the
process. -/
def ownerRelease (releaseOk : Bool) (i : ℕ) (o : Win32Owner) (m : Mutex ℕ) :
    Win32Owner × Mutex ℕ :=
  ({ o with mutex := false, owned := false }, if o.owned && releaseOk then m.release i else m)

end Win32Owner

/-! ## Workers -/

inductive WorkerStage
  /-- before `init_process` -/
  | created
  | serving
  /-- after `exit_process` -/
  | exited
  | ended
  deriving DecidableEq, Repr

/-- What the event loop is writing. -/
inductive LoopWrite
  | idle
  | tick
  | exit
  deriving DecidableEq, Repr

inductive PoolTask
  | queued
  | running
  | finished
  deriving DecidableEq, Repr

/-- What is settled when a worker starts. -/
structure OwnerSite where
  /-- the canonical path of the snapshot -/
  canonical : List UInt16
  /-- whether `ngx_thread_pool_get` finds the pool -/
  pool : Bool

/-- One process, as far as saving its snapshot goes. -/
structure OwnerWorker where
  stage : WorkerStage
  /-- `persist_owner` -/
  owner : Win32Owner
  /-- whether `persist_event` is in the timer tree -/
  timer : Bool
  /-- `persist_task != NULL` -/
  persistTask : Bool
  /-- `persist_busy` -/
  busy : Bool
  /-- where the posted task is -/
  task : Option PoolTask
  loop : LoopWrite
  deriving DecidableEq, Repr

namespace OwnerWorker

def created : OwnerWorker := ⟨.created, ⟨false, false, false⟩, false, false, false, none, .idle⟩

/-- A process that is gone. -/
def ended : OwnerWorker := { created with stage := .ended }

/-- Whether a task has been posted that has not finished. -/
def inFlight (w : OwnerWorker) : Bool := w.task = some .queued || w.task = some .running

/-- Whether the snapshot is being written, or handed to the pool for it. -/
def writing (w : OwnerWorker) : Bool := w.loop ≠ .idle || w.inFlight

/-- `init_process` -/
def initProcess (calls : OwnerCalls) (taskOk : Bool) (i : ℕ) (w : OwnerWorker) (m : Mutex ℕ) :
    OwnerWorker × Mutex ℕ :=
  let w := { w with stage := .serving }
  match w.owner.ownerTry calls i m with
  | (.error, o, m) => ({ w with owner := o }, m)
  | (_, o, m) => ({ w with owner := o, persistTask := taskOk, timer := true }, m)

/-- What `persist_handler` does as the owner. A write on the event loop arms the timer when it is
over. -/
def saveTick (site : OwnerSite) (serializeOk postOk : Bool) (w : OwnerWorker) : OwnerWorker :=
  if site.pool && w.persistTask then
    if w.busy then { w with timer := true } -- a previous save is still in flight
    else if serializeOk then
      if postOk then { w with busy := true, task := some .queued, timer := true }
      else { w with loop := .tick }
    else { w with timer := true }
  else if serializeOk then { w with loop := .tick }
  else { w with timer := true }

/-- `persist_handler`. nginx takes the event out of the timer tree first. -/
def persistHandler (site : OwnerSite) (calls : OwnerCalls) (serializeOk postOk : Bool) (i : ℕ)
    (w : OwnerWorker) (m : Mutex ℕ) : OwnerWorker × Mutex ℕ :=
  let w := { w with timer := false }
  match w.owner.ownerTry calls i m with
  | (.ok, o, m) => ({ w with owner := o }.saveTick site serializeOk postOk, m)
  | (.declined, o, m) => ({ w with owner := o, timer := true }, m)
  | (.error, o, m) => ({ w with owner := o }, m)

/-- The end of `exit_process`: `owner_release`. -/
def leave (releaseOk : Bool) (i : ℕ) (w : OwnerWorker) (m : Mutex ℕ) : OwnerWorker × Mutex ℕ :=
  let (o, m) := w.owner.ownerRelease releaseOk i m
  ({ w with stage := .exited, owner := o, loop := .idle }, m)

/-- `exit_process`, up to the end of a write. -/
def exitProcess (serializeOk releaseOk : Bool) (i : ℕ) (w : OwnerWorker) (m : Mutex ℕ) :
    OwnerWorker × Mutex ℕ :=
  if !w.owner.owned then w.leave releaseOk i m
  else if serializeOk then ({ w with loop := .exit }, m)
  else w.leave releaseOk i m

/-! ## Events -/

inductive Event
  /-- the process starts to serve -/
  | init (calls : OwnerCalls) (taskOk : Bool)
  /-- the timer fires -/
  | tick (calls : OwnerCalls) (serializeOk postOk : Bool)
  /-- `write_file` returns in `persist_handler` -/
  | tickWritten
  /-- a thread takes the task -/
  | threadStart
  /-- `write_file` returns in `persist_thread` -/
  | threadEnd
  /-- the completion event of the task -/
  | complete
  /-- `exit_process` runs, with the pool drained -/
  | exit (serializeOk releaseOk : Bool)
  /-- `write_file` returns in `exit_process` -/
  | exitWritten (releaseOk : Bool)
  /-- the process ends, after `exit_process` or in a crash -/
  | die

/-- After the event, if it is the last step of the process, the mutex is given up: it is released
and `ReleaseMutex` does not fail, or it is abandoned. -/
def Event.givesUp : Event → Bool
  | .exit _ releaseOk | .exitWritten releaseOk => releaseOk
  | .die => true
  | _ => false

/-- A worker process between its start and its end, unless an attempt to own the mutex has failed
in it. -/
def trying (w : OwnerWorker) : Bool := w.stage = .serving && !w.owner.failed

/-- The event loop can turn to an event. -/
def ready (w : OwnerWorker) : Bool := w.stage = .serving && w.loop = .idle

/-- One event in process `i`; `none` if it cannot happen. -/
def step (site : OwnerSite) (i : ℕ) (w : OwnerWorker) (m : Mutex ℕ) :
    Event → Option (OwnerWorker × Mutex ℕ)
  | .init calls taskOk =>
    if w.stage = .created then some (w.initProcess calls taskOk i m) else none
  | .tick calls serializeOk postOk =>
    if w.ready && w.timer then some (w.persistHandler site calls serializeOk postOk i m) else none
  | .tickWritten =>
    if w.loop = .tick then some ({ w with loop := .idle, timer := true }, m) else none
  | .threadStart =>
    if w.task = some .queued then some ({ w with task := some .running }, m) else none
  | .threadEnd =>
    if w.task = some .running then some ({ w with task := some .finished }, m) else none
  | .complete =>
    if w.ready && w.task = some .finished then some ({ w with task := none, busy := false }, m)
    else none
  | .exit serializeOk releaseOk =>
    if w.ready && !w.inFlight then some (w.exitProcess serializeOk releaseOk i m) else none
  | .exitWritten releaseOk => if w.loop = .exit then some (w.leave releaseOk i m) else none
  | .die => if w.stage ≠ .ended then some (ended, m.die i) else none

end OwnerWorker

/-! ## The invariant -/

namespace Win32Owner

variable {calls : OwnerCalls} {i : ℕ} {o : Win32Owner} {m : Mutex ℕ}

/-- How an attempt of a process ends that holds the mutex only if it owns it. -/
theorem ownerTry_cases (calls : OwnerCalls) (howned : o.owned = true ↔ m = .held i) :
    (∃ o', o.ownerTry calls i m = (.ok, o', .held i) ∧ o'.owned = true ∧
      ∀ j, j ≠ i → m ≠ .held j) ∨
    (∃ o', o.ownerTry calls i m = (.declined, o', m) ∧ o'.owned = false ∧
      ∃ j, j ≠ i ∧ m = .held j) ∨
    (∃ o', o.ownerTry calls i m = (.error, o', m) ∧ o'.owned = false ∧ o'.failed = true ∧
      m ≠ .held i ∧ (o.failed = true ∨ calls.allOk = false)) := by
  rw [ownerTry]
  by_cases hown : o.owned = true
  · have hheld := howned.mp hown
    exact .inl ⟨o, by rw [if_pos hown, hheld], hown, Mutex.ne_held_of_held hheld⟩
  have hfree : m ≠ .held i := fun hheld => hown (howned.mpr hheld)
  have hnot : o.owned = false := Bool.not_eq_true _ ▸ hown
  rw [if_neg hown]
  by_cases hfailed : o.failed = true
  · exact .inr (.inr ⟨o, by rw [if_pos hfailed], hnot, hfailed, hfree, .inl hfailed⟩)
  rw [if_neg hfailed]
  by_cases hopen : (!o.mutex && !(calls.nameOk && calls.createOk)) = true
  · have hcalls : calls.allOk = false := by
      simp only [Bool.and_eq_true, Bool.not_eq_true'] at hopen
      rw [OwnerCalls.allOk, hopen.2, Bool.false_and]
    rw [if_pos hopen]
    exact .inr (.inr ⟨_, rfl, hnot, rfl, hfree, .inr hcalls⟩)
  rw [if_neg hopen]
  cases hwaitOk : calls.waitOk with
  | false =>
      have hcalls : calls.allOk = false := by rw [OwnerCalls.allOk, hwaitOk, Bool.and_false]
      exact .inr (.inr ⟨_, rfl, hnot, rfl, hfree, .inr hcalls⟩)
  | true =>
      rcases Mutex.wait_cases i m with ⟨r, hr, hwait, hothers⟩ | ⟨hwait, hother⟩
      · refine .inl ⟨{ o with mutex := true, owned := true }, ?_, rfl, hothers⟩
        simp only [hwait, if_true]
      · exact .inr (.inl ⟨{ o with mutex := true }, by simp only [hwait, if_true], hnot, hother⟩)

end Win32Owner

namespace OwnerWorker

/-- One process, given whether it holds the mutex. -/
structure Sound (w : OwnerWorker) (holds : Prop) : Prop where
  owned : w.owner.owned = true → holds
  holds : holds → w.owner.owned = true ∨ w.stage = .exited
  writing : w.writing = true → w.owner.owned = true
  serving : w.owner.owned = true → w.stage = .serving
  armed : w.trying = true → w.owner.owned = true ∨ w.timer = true
  drained : w.loop = .exit → w.inFlight = false

variable {site : OwnerSite} {calls : OwnerCalls} {serializeOk postOk releaseOk taskOk : Bool}
  {i : ℕ} {w w' : OwnerWorker} {m m' : Mutex ℕ} {holds : Prop}

theorem ready_iff : w.ready = true ↔ w.stage = .serving ∧ w.loop = .idle := by
  simp [ready]

theorem trying_iff : w.trying = true ↔ w.stage = .serving ∧ w.owner.failed = false := by
  simp [trying]

theorem writing_eq_false : w.writing = false ↔ w.loop = .idle ∧ w.inFlight = false := by
  simp [writing]

theorem writing_of_loop (h : w.loop ≠ .idle) : w.writing = true := by
  simp [writing, h]

theorem writing_of_inFlight (h : w.inFlight = true) : w.writing = true := by
  simp [writing, h]

/-- The owner at work. -/
theorem Sound.of_owned (hholds : holds) (hstage : w.stage = .serving)
    (howned : w.owner.owned = true) (hdrained : w.loop = .exit → w.inFlight = false) :
    Sound w holds where
  owned _ := hholds
  holds _ := .inl howned
  writing _ := howned
  serving _ := hstage
  armed _ := .inl howned
  drained := hdrained

/-- A write goes on or comes to its end. -/
theorem Sound.goes_on (h : Sound w holds) (hwriting : w.writing = true)
    (hstage : w'.stage = w.stage) (howner : w'.owner = w.owner)
    (hdrained : w'.loop = .exit → w'.inFlight = false) : Sound w' holds := by
  have howned := h.writing hwriting
  exact Sound.of_owned (h.owned howned) (hstage.trans (h.serving howned)) (howner ▸ howned)
    hdrained

/-- A process that does not own the mutex. -/
theorem Sound.of_not_owned (hholds : holds → w.stage = .exited) (hnot : w.owner.owned = false)
    (hwriting : w.writing = false)
    (harmed : w.trying = true → w.timer = true) : Sound w holds where
  owned h := absurd h (by simp [hnot])
  holds h := .inr (hholds h)
  writing h := absurd h (by simp [hwriting])
  serving h := absurd h (by simp [hnot])
  armed htrying := .inr (harmed htrying)
  drained _ := (writing_eq_false.mp hwriting).2

theorem Sound.created : Sound created False :=
  Sound.of_not_owned False.elim rfl rfl fun htrying => by cases htrying

theorem Sound.owned_iff (h : Sound w holds) (hstage : w.stage ≠ .exited) :
    w.owner.owned = true ↔ holds :=
  ⟨h.owned, fun hholds => (h.holds hholds).resolve_right hstage⟩

/-- A process that is not the owner writes nothing. -/
theorem Sound.not_writing (h : Sound w holds) (hnot : w.owner.owned = false) :
    w.writing = false := by
  rw [← Bool.not_eq_true]
  intro hwriting
  exact absurd (h.writing hwriting) (by simp [hnot])

/-! ## The steps -/

theorem Sound.initProcess (calls : OwnerCalls) (taskOk : Bool)
    (h : Sound w (m = .held i)) (hstage : w.stage = .created) :
    Sound (w.initProcess calls taskOk i m).1 ((w.initProcess calls taskOk i m).2 = .held i) ∧
      Mutex.Frame i m (w.initProcess calls taskOk i m).2 := by
  have hnot : w.owner.owned = false := by
    rw [← Bool.not_eq_true]
    intro howned
    exact absurd (h.serving howned) (by simp [hstage])
  have hidle := h.not_writing hnot
  have hloop := (writing_eq_false.mp hidle).1
  rw [OwnerWorker.initProcess]
  rcases Win32Owner.ownerTry_cases calls (h.owned_iff (by simp [hstage])) with
    ⟨o, htry, howned, hothers⟩ | ⟨o, htry, hnot', j, hj, rfl⟩ | ⟨o, htry, hnot', hfailed, hm, -⟩
  · simp only [htry]
    refine ⟨Sound.of_owned trivial rfl howned fun hexit => ?_, ?_⟩
    · exact absurd (hloop.symm.trans hexit) (by simp)
    · exact Mutex.Frame.of_ne hothers (Mutex.ne_held_of_held rfl)
  · simp only [htry]
    exact ⟨Sound.of_not_owned (fun hheld => absurd (Mutex.held.inj hheld) hj) hnot' hidle
      fun _ => rfl, Mutex.Frame.refl i _⟩
  · simp only [htry]
    exact ⟨Sound.of_not_owned (fun hheld => absurd hheld hm) hnot' hidle
      fun htrying => absurd htrying (by simp [trying, hfailed]), Mutex.Frame.refl i m⟩

theorem saveTick_spec (site : OwnerSite) (serializeOk postOk : Bool) (w : OwnerWorker) :
    (w.saveTick site serializeOk postOk).stage = w.stage ∧
      (w.saveTick site serializeOk postOk).owner = w.owner ∧
      (w.loop = .idle → (w.saveTick site serializeOk postOk).loop ≠ .exit) := by
  rw [saveTick]
  split_ifs <;> simp_all

theorem Sound.persistHandler (site : OwnerSite) (calls : OwnerCalls) (serializeOk postOk : Bool)
    (h : Sound w (m = .held i)) (hready : w.ready = true) :
    Sound (w.persistHandler site calls serializeOk postOk i m).1
        ((w.persistHandler site calls serializeOk postOk i m).2 = .held i) ∧
      Mutex.Frame i m (w.persistHandler site calls serializeOk postOk i m).2 := by
  obtain ⟨hstage, hloop⟩ := ready_iff.mp hready
  rw [OwnerWorker.persistHandler]
  rcases Win32Owner.ownerTry_cases calls (h.owned_iff (by simp [hstage])) with
    ⟨o, htry, howned, hothers⟩ | ⟨o, htry, hnot, j, hj, rfl⟩ | ⟨o, htry, hnot, hfailed, hm, -⟩
  · simp only [htry]
    obtain ⟨hstage', howner', hloop'⟩ :=
      saveTick_spec site serializeOk postOk { w with timer := false, owner := o }
    refine ⟨Sound.of_owned trivial (hstage'.trans hstage) (howner' ▸ howned) fun hexit => ?_, ?_⟩
    · exact absurd hexit (hloop' hloop)
    · exact Mutex.Frame.of_ne hothers (Mutex.ne_held_of_held rfl)
  · have hheld : ¬ Mutex.held j = .held i := fun hheld => hj (Mutex.held.inj hheld)
    have hidle := h.not_writing (Bool.not_eq_true _ ▸ fun howned => hheld (h.owned howned))
    simp only [htry]
    exact ⟨Sound.of_not_owned (fun hholds => absurd hholds hheld) hnot hidle fun _ => rfl,
      Mutex.Frame.refl i _⟩
  · have hidle := h.not_writing (Bool.not_eq_true _ ▸ fun howned => hm (h.owned howned))
    simp only [htry]
    exact ⟨Sound.of_not_owned (fun hholds => absurd hholds hm) hnot hidle
      fun htrying => absurd htrying (by simp [trying, hfailed]), Mutex.Frame.refl i m⟩

theorem sound_leave (releaseOk : Bool) (i : ℕ) (m : Mutex ℕ) (hdrained : w.inFlight = false) :
    Sound (w.leave releaseOk i m).1 ((w.leave releaseOk i m).2 = .held i) ∧
      Mutex.Frame i m (w.leave releaseOk i m).2 := by
  rw [leave, Win32Owner.ownerRelease]
  constructor
  · have hidle : ∀ o, { w with stage := .exited, owner := o, loop := .idle }.writing = false :=
      fun o => writing_eq_false.mpr ⟨rfl, hdrained⟩
    exact Sound.of_not_owned (fun _ => rfl) rfl (hidle _) fun htrying => by cases htrying
  · by_cases hrelease : (w.owner.owned && releaseOk) = true
    · simp only [if_pos hrelease]
      exact Mutex.frame_release i m
    · simp only [if_neg hrelease]
      exact Mutex.Frame.refl i m

theorem Sound.exitProcess (serializeOk releaseOk : Bool) (h : Sound w (m = .held i))
    (hstage : w.stage = .serving) (hdrained : w.inFlight = false) :
    Sound (w.exitProcess serializeOk releaseOk i m).1
        ((w.exitProcess serializeOk releaseOk i m).2 = .held i) ∧
      Mutex.Frame i m (w.exitProcess serializeOk releaseOk i m).2 := by
  rw [OwnerWorker.exitProcess]
  by_cases hnot : (!w.owner.owned) = true
  · rw [if_pos hnot]
    exact sound_leave releaseOk i m hdrained
  have howned : w.owner.owned = true := by simpa using hnot
  rw [if_neg hnot]
  cases serializeOk with
  | false => exact sound_leave releaseOk i m hdrained
  | true =>
      exact ⟨Sound.of_owned (h.owned howned) hstage howned fun _ => hdrained,
        Mutex.Frame.refl i m⟩

theorem Sound.step {e : Event} (h : Sound w (m = .held i))
    (hstep : w.step site i m e = some (w', m')) :
    Sound w' (m' = .held i) ∧ Mutex.Frame i m m' := by
  cases e <;>
    simp only [OwnerWorker.step, Option.ite_none_right_eq_some, Option.some.injEq] at hstep <;>
    obtain ⟨hcan, hstep⟩ := hstep
  case init calls taskOk =>
    have hkept := h.initProcess calls taskOk hcan
    rwa [hstep] at hkept
  case tick calls serializeOk postOk =>
    obtain ⟨hready, -⟩ := Bool.and_eq_true_iff.mp hcan
    have hkept := h.persistHandler site calls serializeOk postOk hready
    rwa [hstep] at hkept
  case exit serializeOk releaseOk =>
    obtain ⟨hready, hdrained⟩ := Bool.and_eq_true_iff.mp hcan
    have hopen : w.inFlight = false := by simpa using hdrained
    have hkept := h.exitProcess serializeOk releaseOk (ready_iff.mp hready).1 hopen
    rwa [hstep] at hkept
  case exitWritten releaseOk =>
    have hkept := sound_leave releaseOk i m (h.drained hcan)
    rwa [hstep] at hkept
  case die =>
    obtain ⟨rfl, rfl⟩ := Prod.mk.inj hstep
    refine ⟨?_, Mutex.frame_die i m⟩
    exact Sound.of_not_owned (fun hheld => absurd hheld (Mutex.die_ne_held i m)) rfl rfl
      fun htrying => by cases htrying
  case tickWritten =>
    obtain ⟨rfl, rfl⟩ := Prod.mk.inj hstep
    have hwriting : w.writing = true := writing_of_loop (by simp [hcan])
    refine ⟨h.goes_on hwriting rfl rfl fun hexit => ?_, Mutex.Frame.refl i m⟩
    cases hexit
  case threadStart =>
    obtain ⟨rfl, rfl⟩ := Prod.mk.inj hstep
    have hopen : w.inFlight = true := by simp [inFlight, hcan]
    refine ⟨h.goes_on (writing_of_inFlight hopen) rfl rfl fun hexit => ?_, Mutex.Frame.refl i m⟩
    exact absurd hopen (by simp [h.drained hexit])
  case threadEnd =>
    obtain ⟨rfl, rfl⟩ := Prod.mk.inj hstep
    have hopen : w.inFlight = true := by simp [inFlight, hcan]
    exact ⟨h.goes_on (writing_of_inFlight hopen) rfl rfl fun _ => rfl, Mutex.Frame.refl i m⟩
  case complete =>
    obtain ⟨rfl, rfl⟩ := Prod.mk.inj hstep
    obtain ⟨hready, -⟩ := Bool.and_eq_true_iff.mp hcan
    have hidle : { w with task := none, busy := false }.writing = false :=
      writing_eq_false.mpr ⟨(ready_iff.mp hready).2, rfl⟩
    refine ⟨?_, Mutex.Frame.refl i m⟩
    exact { h with
      writing := fun hwriting => absurd hwriting (by simp [hidle])
      drained := fun _ => rfl }

/-! ## Giving up and taking over -/

theorem leave_ne_held (howned : w.owner.owned = true ↔ m = .held i) :
    (w.leave true i m).2 ≠ .held i := by
  rw [leave, Win32Owner.ownerRelease]
  cases hown : w.owner.owned with
  | false => exact fun hheld => absurd (howned.mpr hheld) (by simp [hown])
  | true => exact Mutex.release_ne_held i m

/-- A process that has given up does not hold the mutex. -/
theorem Sound.gives_up {e : Event} (h : Sound w (m = .held i)) (he : e.givesUp = true)
    (hstep : w.step site i m e = some (w', m')) (hstage : w'.stage ≠ .serving) :
    m' ≠ .held i := by
  cases e <;>
    simp only [OwnerWorker.step, Option.ite_none_right_eq_some, Option.some.injEq] at hstep <;>
    obtain ⟨hcan, hstep⟩ := hstep
  case exit serializeOk releaseOk =>
    obtain ⟨hready, -⟩ := Bool.and_eq_true_iff.mp hcan
    obtain ⟨hserving, -⟩ := ready_iff.mp hready
    obtain rfl : releaseOk = true := he
    have hleft := leave_ne_held (h.owned_iff (by simp [hserving]))
    rw [OwnerWorker.exitProcess] at hstep
    split_ifs at hstep
    · rwa [hstep] at hleft
    · obtain ⟨rfl, rfl⟩ := Prod.mk.inj hstep
      exact absurd hserving hstage
    · rwa [hstep] at hleft
  case exitWritten releaseOk =>
    obtain rfl : releaseOk = true := he
    have howned := h.writing (writing_of_loop (by simp [hcan]))
    have hleft := leave_ne_held (h.owned_iff (by simp [h.serving howned]))
    rwa [hstep] at hleft
  case die =>
    obtain ⟨rfl, rfl⟩ := Prod.mk.inj hstep
    exact Mutex.die_ne_held i m
  all_goals cases he

/-- The timer of a process that is not the owner fires, and the process tries again: it is the
owner then unless another process holds the mutex. -/
theorem Sound.retries (site : OwnerSite) (serializeOk postOk : Bool) (h : Sound w (m = .held i))
    (htrying : w.trying = true) (hnot : w.owner.owned = false) (hcalls : calls.allOk = true) :
    ∃ w' m', w.step site i m (.tick calls serializeOk postOk) = some (w', m') ∧
      (w'.owner.owned = true ∨ (∃ j, j ≠ i ∧ m = .held j) ∧ w'.timer = true) := by
  obtain ⟨hstage, hfailed⟩ := trying_iff.mp htrying
  have htimer : w.timer = true := (h.armed htrying).resolve_left (by simp [hnot])
  have hloop := (writing_eq_false.mp (h.not_writing hnot)).1
  have hcan : (w.ready && w.timer) = true := by rw [ready_iff.mpr ⟨hstage, hloop⟩, htimer]; rfl
  refine ⟨(w.persistHandler site calls serializeOk postOk i m).1, _, if_pos hcan, ?_⟩
  rw [OwnerWorker.persistHandler]
  rcases Win32Owner.ownerTry_cases calls (h.owned_iff (by simp [hstage])) with
    ⟨o, htry, howned, -⟩ | ⟨o, htry, -, hother⟩ | ⟨o, htry, -, -, -, herror⟩
  · simp only [htry]
    obtain ⟨-, howner, -⟩ :=
      saveTick_spec site serializeOk postOk { w with timer := false, owner := o }
    exact .inl (howner ▸ howned)
  · simp only [htry]
    exact .inr ⟨hother, trivial⟩
  · rcases herror with herror | herror
    · exact absurd herror (by simp [hfailed])
    · exact absurd herror (by simp [hcalls])

end OwnerWorker

/-! ## Every interleaving -/

/-- The name of the mutex of each process. -/
def ownerName (sha256 : List UInt16 → List UInt8) (site : ℕ → OwnerSite) (i : ℕ) : List UInt16 :=
  mutexName sha256 (site i).canonical

/-- The workers and the mutexes of the machine. -/
abbrev Owners := Contenders ℕ (List UInt16) OwnerWorker

namespace Owners

def start : Owners := Contenders.start .created

/-- An event in one of the processes. -/
def step (sha256 : List UInt16 → List UInt8) (site : ℕ → OwnerSite) (s : Owners)
    (e : ℕ × OwnerWorker.Event) : Option Owners :=
  Contenders.step (ownerName sha256 site) (fun i => OwnerWorker.step (site i) i) s e

variable {sha256 : List UInt16 → List UInt8} {site : ℕ → OwnerSite} {s s' : Owners} {i : ℕ}

/-- What holds of every state. -/
def Sound (sha256 : List UInt16 → List UInt8) (site : ℕ → OwnerSite) (s : Owners) : Prop :=
  s.Fits (ownerName sha256 site) fun _ => OwnerWorker.Sound

theorem Sound.start : Sound sha256 site start := Contenders.Fits.start fun _ => .created

theorem Sound.step {e : ℕ × OwnerWorker.Event} (h : Sound sha256 site s)
    (hstep : s.step sha256 site e = some s') : Sound sha256 site s' :=
  Contenders.Fits.step (fun _ _ _ _ _ _ hsound hact => hsound.step hact) h hstep

theorem Sound.single (h : Sound sha256 site s) {j : ℕ}
    (hpath : (site i).canonical = (site j).canonical) (hi : (s.procs i).writing = true)
    (hj : (s.procs j).writing = true) : i = j :=
  Contenders.Fits.exclusive (fun w => w.writing = true) h
    (fun _ _ _ hsound hwriting => hsound.owned (hsound.writing hwriting))
    (congrArg (mutexName sha256) hpath) hi hj

/-- **One writer, and the others take over.** In every state of every run, whatever the order of
the events in any number of processes: of those with one canonical path at most one is writing the
snapshot, and it owns the mutex; every process that serves and whose attempts have not failed owns
the mutex or has its timer armed; no process keeps a mutex that it has given up; and when the timer
of such a process fires, the process is the owner then, or another one holds the mutex and the
timer is armed again. -/
theorem single_writer (sha256 : List UInt16 → List UInt8) (site : ℕ → OwnerSite)
    (events : List (ℕ × OwnerWorker.Event)) :
    Always (step sha256 site) (fun s =>
      (∀ i j, (site i).canonical = (site j).canonical → (s.procs i).writing = true →
        (s.procs j).writing = true → i = j) ∧
      (∀ i, (s.procs i).writing = true → (s.procs i).owner.owned = true ∧
        s.mutexes (ownerName sha256 site i) = .held i) ∧
      (∀ i, (s.procs i).trying = true → (s.procs i).owner.owned = true ∨ (s.procs i).timer = true) ∧
      (∀ k i, s.mutexes k = .held i →
        (s.procs i).owner.owned = true ∨ (s.procs i).stage = .exited) ∧
      (∀ i e s', e.givesUp = true → s.step sha256 site (i, e) = some s' →
        (s'.procs i).stage ≠ .serving → ∀ k, s'.mutexes k ≠ .held i) ∧
      ∀ i calls serializeOk postOk, (s.procs i).trying = true → (s.procs i).owner.owned = false →
        calls.allOk = true → ∃ s',
          s.step sha256 site (i, .tick calls serializeOk postOk) = some s' ∧
          ((s'.procs i).owner.owned = true ∨
            (∃ j, j ≠ i ∧ s.mutexes (ownerName sha256 site i) = .held j) ∧
              (s'.procs i).timer = true))
      start events := by
  have hsound : Always (step sha256 site) (Sound sha256 site) start events :=
    always_of_step (Sound sha256 site) (fun s e s' h => h.step) Sound.start events
  refine hsound.imp fun s h => ⟨fun i j => h.single, fun i hwriting => ?_,
    fun i => (h.each i).armed, fun k i hheld => ?_, fun i e s' he hstep hstage k hheld => ?_,
    fun i calls serializeOk postOk htrying hnot hcalls => ?_⟩
  · have howned := (h.each i).writing hwriting
    exact ⟨howned, (h.each i).owned howned⟩
  · obtain rfl := h.name_eq k i hheld
    exact (h.each i).holds hheld
  · obtain rfl := (h.step hstep).name_eq k i hheld
    obtain ⟨w, m, hact, rfl⟩ := Contenders.step_eq_some.mp hstep
    simp only [Function.update_self] at hheld hstage
    exact (h.each i).gives_up he hact hstage hheld
  · obtain ⟨w, m, hact, hretry⟩ :=
      (h.each i).retries (site i) serializeOk postOk htrying hnot hcalls
    refine ⟨_, Contenders.step_eq_some.mpr ⟨w, m, hact, rfl⟩, ?_⟩
    simpa only [Function.update_self] using hretry

/-- The second process saves when the first one has ended. -/
example :
    let calls : OwnerCalls := ⟨true, true, true⟩
    (runOpt (step (fun l => l.map UInt16.toUInt8) fun _ => ⟨wide "c:\\s", true⟩) start
      [(0, .init calls true), (1, .init calls true), (0, .tick calls true true), (0, .die),
        (1, .tick calls true true)]).map (fun s => (s.procs 1).writing) = some true := by
  decide +kernel

end Owners

end ErrorAbuse
