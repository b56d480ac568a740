import ErrorAbuse.Config.Directive
import ErrorAbuse.Lib.Files

/-!
# Writing a snapshot

`write_file` writes a buffer to a temporary file of its own, flushes it, closes it and renames it
onto the path of the snapshot. `OsRun` is what the system makes of the calls: which names are
drawn, which calls fail, and how much each `write` takes. What comes out is the return code and the
operations that were carried out, so that the disk can be looked at after the call and between its
operations. Syncing the directory afterwards changes no file and is left out.
-/

namespace ErrorAbuse

open Lib

abbrev Path := List UInt8

/-- What a `write` returns: how much it took, `EINTR`, or another error. -/
inductive WriteOutcome
  | wrote (n : ℕ)
  | interrupted
  | failed
  deriving DecidableEq, Repr

/-- What the system makes of one call of `write_file`. -/
structure OsRun where
  alloc : Bool
  pid : ℕ
  /-- the numbers that `ngx_random` returns -/
  random : ℕ → UInt64
  /-- whether a file is created in an attempt whose name is free -/
  createOk : ℕ → Bool
  writes : List WriteOutcome
  flushOk : Bool
  closeOk : Bool
  renameOk : Bool
  unlinkOk : Bool

/-- `%xL` -/
def hexNumber (n : UInt64) : List UInt8 := (Nat.toDigits 16 n.toNat).map fun c => c.toNat.toUInt8

/-- The name drawn in an attempt: `%V.tmp.%P.%xL`. -/
def OsRun.tmpName (os : OsRun) (persist : Path) (i : ℕ) : Path :=
  persist ++ ascii ".tmp." ++ decimal os.pid ++ ascii "." ++
    hexNumber (os.random (2 * i) ^^^ (os.random (2 * i + 1) <<< 24) ^^^ (UInt64.ofNat i <<< 48))

/-- The loop over the attempts to create a file, from attempt `i` on. A name that is taken is
`EEXIST`, which is tried again; other errors are not. -/
def createTemp (os : OsRun) (persist : Path) (disk : Lib.Disk Path UInt8) : ℕ → ℕ → Option Path
  | 0, _ => none
  | left + 1, i =>
    if (disk (os.tmpName persist i)).isSome then createTemp os persist disk left (i + 1)
    else if os.createOk i then some (os.tmpName persist i)
    else none

/-- `write_all`: the return code and the pieces that were written; `none` while it waits for another
`write` to return. -/
def writeAll : List WriteOutcome → List UInt8 → Option (Rc × List (List UInt8))
  | [], data => if data.length = 0 then some (.ok, []) else none
  | outcome :: outcomes, data =>
    if data.length = 0 then some (.ok, [])
    else
      match outcome with
      | .wrote n =>
        if n = 0 then some (.error, [])
        else (writeAll outcomes (data.drop n)).map fun result => (result.1, data.take n :: result.2)
      | .interrupted => writeAll outcomes data
      | .failed => some (.error, [])

/-- `ngx_delete_file` on the way out. -/
def OsRun.deleteFile (os : OsRun) (tmp : Path) : List (FileOp Path UInt8) :=
  if os.unlinkOk then [.unlink tmp] else []

/-- `write_file`: the return code and the operations. -/
def writeFile (os : OsRun) (buffer : List UInt8) (persist : Path) (disk : Lib.Disk Path UInt8) :
    Option (Rc × List (FileOp Path UInt8)) :=
  if !os.alloc then some (.error, [])
  else
    match createTemp os persist disk 8 0 with
    | none => some (.error, [])
    | some tmp =>
      match writeAll os.writes buffer with
      | none => none
      | some (rc, pieces) =>
        let written := .create tmp :: pieces.map (FileOp.append tmp)
        if rc ≠ .ok then some (.error, written ++ .close tmp :: os.deleteFile tmp)
        else if !os.flushOk then some (.error, written ++ .close tmp :: os.deleteFile tmp)
        else if !os.closeOk then some (.error, written ++ .flush tmp :: os.deleteFile tmp)
        else if !os.renameOk then some (.error, written ++ .flush tmp :: .close tmp :: os.deleteFile tmp)
        else some (.ok, written ++ [.flush tmp, .close tmp, .rename tmp persist])

variable {os : OsRun} {buffer : List UInt8} {persist : Path} {disk : Lib.Disk Path UInt8}

/-! ## The loops -/

theorem tmpName_ne (os : OsRun) (persist : Path) (i : ℕ) : os.tmpName persist i ≠ persist := by
  intro h
  have hlength := congrArg List.length h
  have htmp : (ascii ".tmp.").length = 5 := by decide
  simp only [OsRun.tmpName, List.length_append, htmp] at hlength
  omega

/-- A temporary file gets a name that was free. -/
theorem createTemp_eq_some {left i : ℕ} {tmp : Path}
    (h : createTemp os persist disk left i = some tmp) : disk tmp = none ∧ tmp ≠ persist := by
  induction left generalizing i with
  | zero => simp [createTemp] at h
  | succ left ih =>
      rw [createTemp] at h
      split_ifs at h with htaken
      · exact ih h
      · obtain rfl := Option.some.inj h
        exact ⟨by simpa using htaken, tmpName_ne os persist i⟩

/-- What has been written is all there is to write, if that is what is reported. -/
theorem writeAll_ok {outcomes : List WriteOutcome} {data : List UInt8}
    {pieces : List (List UInt8)} (h : writeAll outcomes data = some (.ok, pieces)) :
    pieces.flatten = data := by
  have hdone : ∀ {data : List UInt8} {pieces : List (List UInt8)}, data.length = 0 →
      some (Rc.ok, []) = some (Rc.ok, pieces) → pieces.flatten = data := by
    intro data pieces hlength heq
    obtain rfl : [] = pieces := by simpa using heq
    exact (List.length_eq_zero_iff.mp hlength).symm
  induction outcomes generalizing data pieces with
  | nil =>
      rw [writeAll] at h
      split_ifs at h with hlength
      exact hdone hlength h
  | cons outcome outcomes ih =>
      unfold writeAll at h
      by_cases hlength : data.length = 0
      · rw [if_pos hlength] at h
        exact hdone hlength h
      rw [if_neg hlength] at h
      cases outcome with
      | wrote n =>
          by_cases hzero : n = 0
          · simp [hzero] at h
          · simp only [if_neg hzero] at h
            obtain ⟨⟨rc, rest⟩, hrest, heq⟩ := Option.map_eq_some_iff.mp h
            obtain ⟨rfl, rfl⟩ := Prod.mk.inj heq
            rw [List.flatten_cons, ih hrest, List.take_append_drop]
      | interrupted => exact ih h
      | failed => simp at h

/-- It ends once as many writes as there are bytes have not been interrupted. -/
theorem writeAll_isSome {outcomes : List WriteOutcome} {data : List UInt8}
    (h : data.length ≤ outcomes.countP (· ≠ .interrupted)) :
    (writeAll outcomes data).isSome = true := by
  induction outcomes generalizing data with
  | nil =>
      rw [writeAll, if_pos (by simpa using h)]
      rfl
  | cons outcome outcomes ih =>
      unfold writeAll
      by_cases hlength : data.length = 0
      · rw [if_pos hlength]
        rfl
      rw [if_neg hlength]
      cases outcome with
      | wrote n =>
          by_cases hzero : n = 0
          · simp [hzero]
          · simp only [if_neg hzero, Option.isSome_map]
            refine ih ?_
            rw [List.countP_cons_of_pos (by simp)] at h
            rw [List.length_drop]
            omega
      | interrupted =>
          rw [List.countP_cons_of_neg (by decide)] at h
          exact ih h
      | failed => rfl

/-! ## The outcomes of a call -/

/-- How a call of `write_file` goes: nothing is written, or a file of its own is written and given
up again, or it takes the place of the snapshot. -/
inductive WriteFile (os : OsRun) (persist : Path) (buffer : List UInt8) (disk : Lib.Disk Path UInt8) :
    Rc → List (FileOp Path UInt8) → Prop
  | unwritten : WriteFile os persist buffer disk .error []
  | discarded (tmp : Path) (work : List (FileOp Path UInt8)) :
      disk tmp = none → tmp ≠ persist → (∀ op ∈ work, ∀ p, op.Concerns p → p = tmp) →
      WriteFile os persist buffer disk .error (work ++ os.deleteFile tmp)
  | replaced (tmp : Path) (pieces : List (List UInt8)) :
      disk tmp = none → tmp ≠ persist → pieces.flatten = buffer →
      WriteFile os persist buffer disk .ok
        (.create tmp :: pieces.map (FileOp.append tmp) ++
          [.flush tmp, .close tmp, .rename tmp persist])

/-- Creating and writing a file is about that file alone. -/
theorem written_concerns (tmp : Path) (pieces : List (List UInt8)) :
    ∀ op ∈ FileOp.create tmp :: pieces.map (FileOp.append tmp), ∀ p, op.Concerns p → p = tmp := by
  intro op hop p hp
  rcases List.mem_cons.mp hop with rfl | hop
  · exact hp
  · obtain ⟨piece, -, rfl⟩ := List.mem_map.mp hop
    exact hp

theorem writeFile_cases {rc : Rc} {ops : List (FileOp Path UInt8)}
    (h : writeFile os buffer persist disk = some (rc, ops)) :
    WriteFile os persist buffer disk rc ops := by
  rw [writeFile] at h
  by_cases halloc : os.alloc = true
  swap
  · obtain ⟨rfl, rfl⟩ : .error = rc ∧ [] = ops := by simpa [halloc] using h
    exact .unwritten
  cases hcreate : createTemp os persist disk 8 0 with
  | none =>
      obtain ⟨rfl, rfl⟩ : .error = rc ∧ [] = ops := by simpa [halloc, hcreate] using h
      exact .unwritten
  | some tmp =>
      obtain ⟨hfree, htmp⟩ := createTemp_eq_some hcreate
      cases hwrite : writeAll os.writes buffer with
      | none => simp [halloc, hcreate, hwrite] at h
      | some result =>
          obtain ⟨rc', pieces⟩ := result
          -- every exit with a file of its own, with what was done to it before it was deleted
          have hdiscarded : ∀ work : List (FileOp Path UInt8),
              (∀ op ∈ work, ∀ p, op.Concerns p → p = tmp) → WriteFile os persist buffer disk .error
                (.create tmp :: pieces.map (FileOp.append tmp) ++ (work ++ os.deleteFile tmp)) := by
            intro work hwork
            rw [← List.append_assoc]
            refine .discarded tmp _ hfree htmp ?_
            exact List.forall_mem_append.mpr ⟨written_concerns tmp pieces, hwork⟩
          have hflush : ∀ p, (FileOp.flush tmp : FileOp Path UInt8).Concerns p → p = tmp :=
            fun _ hp => hp
          have hclose : ∀ p, (FileOp.close tmp : FileOp Path UInt8).Concerns p → p = tmp :=
            fun _ hp => hp
          simp only [halloc, hcreate, hwrite, Bool.not_true, Bool.false_eq_true, if_false] at h
          split_ifs at h with hrc <;> obtain ⟨rfl, rfl⟩ := Prod.mk.inj (Option.some.inj h)
          · exact hdiscarded [.close tmp] (by simpa using hclose)
          · exact hdiscarded [.close tmp] (by simpa using hclose)
          · exact hdiscarded [.flush tmp] (by simpa using hflush)
          · exact hdiscarded [.flush tmp, .close tmp] (by simpa using ⟨hflush, hclose⟩)
          · obtain rfl : rc' = .ok := not_not.mp hrc
            exact .replaced tmp pieces hfree htmp (writeAll_ok hwrite)

/-- It returns, if the writes are not interrupted for ever. -/
theorem writeFile_isSome (h : buffer.length ≤ os.writes.countP (· ≠ .interrupted)) :
    (writeFile os buffer persist disk).isSome = true := by
  obtain ⟨⟨rc, pieces⟩, hwrite⟩ := Option.isSome_iff_exists.mp (writeAll_isSome h)
  rw [writeFile]
  cases os.alloc with
  | false => rfl
  | true =>
      cases createTemp os persist disk 8 0 with
      | none => rfl
      | some tmp =>
          simp only [hwrite, Bool.not_true, Bool.false_eq_true, if_false]
          split_ifs <;> rfl

/-! ## The disk -/

/-- What is done before the rename is about the temporary file alone. -/
theorem prepare_concerns (tmp : Path) (pieces : List (List UInt8)) :
    ∀ op ∈ FileOp.create tmp :: pieces.map (FileOp.append tmp) ++ [.flush tmp, .close tmp],
      ∀ p, op.Concerns p → p = tmp := by
  refine List.forall_mem_append.mpr ⟨written_concerns tmp pieces, ?_⟩
  intro op hop p hp
  simp only [List.mem_cons, List.not_mem_nil, or_false] at hop
  rcases hop with rfl | rfl
  · exact hp
  · exact hp

theorem deleteFile_concerns (os : OsRun) (tmp : Path) :
    ∀ op ∈ os.deleteFile tmp, ∀ p, op.Concerns p → p = tmp := by
  intro op hop p hp
  rw [OsRun.deleteFile] at hop
  split_ifs at hop
  · obtain rfl := List.mem_singleton.mp hop
    exact hp
  · cases hop

/-- Operations on one file leave the others alone. -/
theorem play_of_concerns_only {ops : List (FileOp Path UInt8)} {tmp p : Path} (hp : p ≠ tmp)
    (h : ∀ op ∈ ops, ∀ q, op.Concerns q → q = tmp) (disk : Lib.Disk Path UInt8) :
    play disk ops p = disk p :=
  play_of_not_concerns (fun op hop hconcerns => hp (h op hop p hconcerns)) disk

/-- A temporary file that is deleted has never been there. -/
theorem play_discarded {tmp : Path} {work : List (FileOp Path UInt8)} (hfree : disk tmp = none)
    (hwork : ∀ op ∈ work, ∀ p, op.Concerns p → p = tmp) (hunlink : os.unlinkOk = true) :
    play disk (work ++ os.deleteFile tmp) = disk := by
  funext p
  rw [OsRun.deleteFile, if_pos hunlink, play_append, play_cons, play_nil]
  by_cases hp : p = tmp
  · rw [hp, FileOp.apply_unlink, hfree]
  · have hother : ¬ (FileOp.unlink tmp : FileOp Path UInt8).Concerns p := hp
    rw [FileOp.apply_of_not_concerns _ hother, play_of_concerns_only hp hwork]

/-- **Replacing the snapshot.** If `write_file` succeeds, the path holds the buffer, flushed before
the rename, and no other path has changed; otherwise the path is as before, and so is every other
if the temporary file can be deleted. Nothing but the rename concerns a path at which there was a
file. And at no moment does the path hold anything else than its old file or the new one. -/
theorem write_file_atomic {rc : Rc} {ops : List (FileOp Path UInt8)}
    (h : writeFile os buffer persist disk = some (rc, ops)) :
    (rc = .ok → play disk ops persist = some ⟨buffer, true⟩ ∧
      (∀ p, p ≠ persist → play disk ops p = disk p) ∧
      ∃ tmp work, ops = work ++ [.flush tmp, .close tmp, .rename tmp persist]) ∧
    (rc ≠ .ok → play disk ops persist = disk persist ∧
      (os.unlinkOk = true → play disk ops = disk)) ∧
    (∀ op ∈ ops, ∀ p, op.Concerns p →
      disk p = none ∨ p = persist ∧ ∃ tmp, op = .rename tmp persist) ∧
    ∀ before, before <+: ops → play disk before persist = disk persist ∨
      play disk before persist = some ⟨buffer, true⟩ := by
  cases writeFile_cases h with
  | unwritten =>
      refine ⟨fun hok => absurd hok (by decide), fun _ => ⟨rfl, fun _ => rfl⟩, by simp, ?_⟩
      intro before hbefore
      obtain rfl := List.prefix_nil.mp hbefore
      exact .inl rfl
  | discarded tmp work hfree htmp hwork =>
      have honly : ∀ op ∈ work ++ os.deleteFile tmp, ∀ p, op.Concerns p → p = tmp :=
        List.forall_mem_append.mpr ⟨hwork, deleteFile_concerns os tmp⟩
      refine ⟨fun hok => absurd hok (by decide), fun _ => ⟨?_, play_discarded hfree hwork⟩, ?_, ?_⟩
      · exact play_of_concerns_only (Ne.symm htmp) honly disk
      · intro op hop p hp
        exact .inl (honly op hop p hp ▸ hfree)
      · intro before hbefore
        exact .inl (play_of_concerns_only (Ne.symm htmp)
          (fun op hop => honly op (hbefore.subset hop)) disk)
  | replaced tmp pieces hfree htmp hpieces =>
      have hwork := prepare_concerns tmp pieces
      have hops : FileOp.create tmp :: pieces.map (FileOp.append tmp) ++
          [.flush tmp, .close tmp, .rename tmp persist] =
          (.create tmp :: pieces.map (FileOp.append tmp) ++ [.flush tmp, .close tmp]) ++
            [.rename tmp persist] := by simp
      obtain ⟨hnew, hgone⟩ := play_rename (.create tmp :: pieces.map (FileOp.append tmp) ++
        [.flush tmp, .close tmp]) htmp disk
      rw [play_prepare, hpieces] at hnew
      refine ⟨fun _ => ⟨hops ▸ hnew, ?_, tmp, _, rfl⟩, fun hne => absurd rfl hne, ?_, ?_⟩
      · intro p hp
        rw [hops]
        by_cases hptmp : p = tmp
        · rw [hptmp, hgone, hfree]
        · have hother : ¬ (FileOp.rename tmp persist : FileOp Path UInt8).Concerns p :=
            not_or.mpr ⟨hptmp, hp⟩
          rw [play_append, play_cons, play_nil, FileOp.apply_of_not_concerns _ hother,
            play_of_concerns_only hptmp hwork]
      · intro op hop p hp
        rw [hops] at hop
        rcases List.mem_append.mp hop with hop | hop
        · exact .inl (hwork op hop p hp ▸ hfree)
        · obtain rfl := List.mem_singleton.mp hop
          rcases hp with rfl | rfl
          · exact .inl hfree
          · exact .inr ⟨rfl, tmp, rfl⟩
      · intro before hbefore
        rw [hops] at hbefore
        have hnot : ∀ op ∈ FileOp.create tmp :: pieces.map (FileOp.append tmp) ++
            [.flush tmp, .close tmp], ¬ op.Concerns persist :=
          fun op hop hconcerns => htmp (hwork op hop persist hconcerns).symm
        rcases play_prefix_rename hnot hbefore disk with hold | rfl
        · exact .inl hold
        · exact .inr hnew

/-- A system in which the second write of a call is interrupted. -/
def OsRun.interrupting : OsRun where
  alloc := true
  pid := 7
  random i := UInt64.ofNat i
  createOk _ := true
  writes := [.wrote 1, .interrupted, .wrote 9]
  flushOk := true
  closeOk := true
  renameOk := true
  unlinkOk := true

/-- There, where the first name that is drawn is taken. -/
theorem write_file_atomic_collision :
    let os := OsRun.interrupting
    let disk : Lib.Disk Path UInt8 := fun p =>
      if p = os.tmpName (ascii "s") 0 then some ⟨[2], true⟩ else none
    let tmp := os.tmpName (ascii "s") 1
    play disk [.create tmp, .append tmp [5], .append tmp [6], .flush tmp, .close tmp,
      .rename tmp (ascii "s")] (ascii "s") = some ⟨[5, 6], true⟩ := by
  intro os disk tmp
  have hrun : writeFile os [5, 6] (ascii "s") disk = some (.ok, [.create tmp, .append tmp [5],
      .append tmp [6], .flush tmp, .close tmp, .rename tmp (ascii "s")]) := by decide +kernel
  exact ((write_file_atomic hrun).1 rfl).1

end ErrorAbuse
