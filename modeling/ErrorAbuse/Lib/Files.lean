import Mathlib.Data.List.Infix
import Mathlib.Logic.Function.Basic

/-!
# Files

A disk holds a file at some of its paths; a file is its data and whether all of that is on stable
storage. `play` carries out operations one after the other. A path that no operation concerns keeps
its file, and a file that is prepared under a path of its own and then renamed onto another is
seen there in full or not at all, whatever is looked at in between.
-/

namespace Lib

variable {P α : Type*}

structure File (α : Type*) where
  data : List α
  /-- whether all of the data is on stable storage -/
  flushed : Bool
  deriving DecidableEq, Repr

/-- The file at each path. -/
abbrev Disk (P α : Type*) := P → Option (File α)

inductive FileOp (P α : Type*)
  | create (p : P)
  | append (p : P) (data : List α)
  | flush (p : P)
  | close (p : P)
  | rename (p q : P)
  | unlink (p : P)
  deriving DecidableEq, Repr

namespace FileOp

/-- The paths an operation is about. -/
def Concerns : FileOp P α → P → Prop
  | create q, p | append q _, p | flush q, p | close q, p | unlink q, p => p = q
  | rename q r, p => p = q ∨ p = r

variable [DecidableEq P]

def apply (d : Disk P α) : FileOp P α → Disk P α
  | create p => Function.update d p (some ⟨[], false⟩)
  | append p data => Function.update d p ((d p).map fun f => ⟨f.data ++ data, false⟩)
  | flush p => Function.update d p ((d p).map fun f => ⟨f.data, true⟩)
  | close _ => d
  | rename p q => Function.update (Function.update d p none) q (d p)
  | unlink p => Function.update d p none

@[simp] theorem apply_flush (d : Disk P α) (p : P) :
    apply d (.flush p) p = (d p).map fun f => ⟨f.data, true⟩ := Function.update_self ..
@[simp] theorem apply_close (d : Disk P α) (p : P) : apply d (.close p) = d := rfl
@[simp] theorem apply_unlink (d : Disk P α) (p : P) : apply d (.unlink p) p = none :=
  Function.update_self ..

theorem apply_of_not_concerns (d : Disk P α) {op : FileOp P α} {p : P} (h : ¬ op.Concerns p) :
    apply d op p = d p := by
  cases op with
  | create q | append q data | flush q | unlink q => exact Function.update_of_ne h _ _
  | close q => rfl
  | rename q r =>
      obtain ⟨hq, hr⟩ := not_or.mp h
      rw [apply, Function.update_of_ne hr, Function.update_of_ne hq]

end FileOp

variable [DecidableEq P]

/-- Carry out operations one after the other. -/
def play (d : Disk P α) (ops : List (FileOp P α)) : Disk P α := ops.foldl FileOp.apply d

@[simp] theorem play_nil (d : Disk P α) : play d [] = d := rfl
@[simp] theorem play_cons (d : Disk P α) (op : FileOp P α) (ops : List (FileOp P α)) :
    play d (op :: ops) = play (op.apply d) ops := rfl
@[simp] theorem play_append (d : Disk P α) (ops ops' : List (FileOp P α)) :
    play d (ops ++ ops') = play (play d ops) ops' := List.foldl_append

/-- What no operation concerns stays. -/
theorem play_of_not_concerns {ops : List (FileOp P α)} {p : P}
    (h : ∀ op ∈ ops, ¬ op.Concerns p) (d : Disk P α) : play d ops p = d p := by
  induction ops generalizing d with
  | nil => rfl
  | cons op ops ih =>
      obtain ⟨hop, hops⟩ := List.forall_mem_cons.mp h
      rw [play_cons, ih hops, FileOp.apply_of_not_concerns d hop]

/-- Appending in pieces. -/
theorem play_appends {t : P} {data : List α} (pieces : List (List α)) {d : Disk P α}
    (h : d t = some ⟨data, false⟩) :
    play d (pieces.map (FileOp.append t)) t = some ⟨data ++ pieces.flatten, false⟩ := by
  induction pieces generalizing d data with
  | nil => simpa using h
  | cons piece pieces ih =>
      have hpiece : FileOp.apply d (.append t piece) t = some ⟨data ++ piece, false⟩ := by
        rw [FileOp.apply, Function.update_self, h]
        rfl
      rw [List.map_cons, play_cons, ih hpiece, List.flatten_cons, List.append_assoc]

/-- A file that has been written and flushed. -/
theorem play_prepare (t : P) (pieces : List (List α)) (d : Disk P α) :
    play d (.create t :: pieces.map (FileOp.append t) ++ [.flush t, .close t]) t =
      some ⟨pieces.flatten, true⟩ := by
  have hcreated : FileOp.apply d (.create t) t = some ⟨[], false⟩ := Function.update_self ..
  have hwritten := play_appends pieces hcreated
  rw [List.nil_append] at hwritten
  simp [hwritten]

/-- What is left of the files when the machine stops: those on stable storage, and something at
the paths of the others. -/
def outlast (lost : P → List α) (d : Disk P α) : Disk P α := fun p =>
  (d p).map fun f => if f.flushed then f else ⟨lost p, true⟩

omit [DecidableEq P] in
theorem outlast_of_flushed (lost : P → List α) {d : Disk P α} {p : P}
    (h : ∀ f ∈ d p, f.flushed = true) : outlast lost d p = d p := by
  cases hf : d p with
  | none => rw [outlast, hf]; rfl
  | some f => rw [outlast, hf, Option.map_some, if_pos (h f hf)]

/-- The operation puts another file at the path. -/
def FileOp.replaces (p : P) : FileOp P α → Bool
  | rename _ q => decide (q = p)
  | _ => false

theorem FileOp.concerns_of_replaces {op : FileOp P α} {p : P} (h : op.replaces p = true) :
    op.Concerns p := by
  cases op with
  | rename q r => exact .inr (of_decide_eq_true h).symm
  | _ => exact nomatch h

/-- After a rename the file is at the new path only. -/
theorem play_rename (work : List (FileOp P α)) {t p : P} (htp : t ≠ p) (d : Disk P α) :
    play d (work ++ [.rename t p]) p = play d work t ∧ play d (work ++ [.rename t p]) t = none := by
  rw [play_append, play_cons, play_nil, FileOp.apply, Function.update_self,
    Function.update_of_ne htp, Function.update_self]
  exact ⟨rfl, rfl⟩

/-- Up to the rename, the path that is replaced keeps its file. -/
theorem play_prefix_rename {work before : List (FileOp P α)} {t p : P}
    (hwork : ∀ op ∈ work, ¬ op.Concerns p) (h : before <+: work ++ [.rename t p]) (d : Disk P α) :
    play d before p = d p ∨ before = work ++ [.rename t p] := by
  rcases List.prefix_concat_iff.mp h with rfl | hbefore
  · exact .inr rfl
  · exact .inl (play_of_not_concerns (fun op hop => hwork op (hbefore.subset hop)) d)

end Lib
