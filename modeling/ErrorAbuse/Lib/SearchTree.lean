import Mathlib.Data.List.Basic
import Mathlib.Data.List.Nodup
import Mathlib.Order.Defs.LinearOrder

/-!
# Binary search trees up to rebalancing

A `Tree` carries elements whose order is read off through a key function, so the
tree may hold handles into a memory that is not part of it. Searching and leaf
insertion walk the tree; nothing here balances. A balancing scheme is any pair of
functions that respects the in-order sequence, and everything a client observes
is a statement about that sequence.

## Main definitions

* `Tree.inorder` — the in-order sequence.
* `Tree.search`, `Tree.insertLeaf`, `Tree.erase` — three-way search, insertion of
  a leaf, and removal of one element.
* `Tree.Ordered` — the in-order sequence is strictly increasing in the keys.
-/

namespace Lib

universe u v

/-- A binary tree with elements at its internal nodes. -/
inductive Tree (α : Type u) where
  | nil
  | node (l : Tree α) (a : α) (r : Tree α)

namespace Tree

variable {α : Type u} {κ : Type v}

/-- The in-order sequence of the elements. -/
def inorder : Tree α → List α
  | nil => []
  | node l a r => l.inorder ++ a :: r.inorder

@[simp] theorem inorder_nil : (nil : Tree α).inorder = [] := rfl
@[simp] theorem inorder_node (l : Tree α) (a : α) (r : Tree α) :
    (node l a r).inorder = l.inorder ++ a :: r.inorder := rfl

/-- Three-way search; `c a` compares the target with the element `a`. -/
def search (c : α → Ordering) : Tree α → Option α
  | nil => none
  | node l a r =>
    match c a with
    | .lt => l.search c
    | .eq => some a
    | .gt => r.search c

/-- Hang a new leaf, descending left exactly where the new element is smaller. -/
def insertLeaf (c : α → Ordering) (x : α) : Tree α → Tree α
  | nil => node nil x nil
  | node l a r =>
    match c a with
    | .lt => node (l.insertLeaf c x) a r
    | _ => node l a (r.insertLeaf c x)

/-- Put the second tree behind the first one's last element. -/
def join : Tree α → Tree α → Tree α
  | nil, t => t
  | node l a r, t => node l a (r.join t)

/-- Remove the first occurrence of an element. -/
def erase [DecidableEq α] (x : α) : Tree α → Tree α
  | nil => nil
  | node l a r =>
    if x ∈ l.inorder then node (l.erase x) a r
    else if a = x then l.join r
    else node l a (r.erase x)

@[simp] theorem inorder_join (s t : Tree α) : (s.join t).inorder = s.inorder ++ t.inorder := by
  induction s with
  | nil => rfl
  | node l a r _ ihr => simp [join, ihr]

@[simp] theorem inorder_erase [DecidableEq α] (x : α) (t : Tree α) :
    (t.erase x).inorder = t.inorder.erase x := by
  induction t with
  | nil => rfl
  | node l a r ihl ihr =>
      by_cases hl : x ∈ l.inorder
      · simp [erase, hl, ihl, List.erase_append]
      · by_cases ha : a = x
        · subst ha
          simp [erase, hl, List.erase_append]
        · simp [erase, hl, ha, ihr, List.erase_append]

/-- A new leaf adds its element and nothing else. -/
theorem inorder_insertLeaf_perm (c : α → Ordering) (x : α) (t : Tree α) :
    (t.insertLeaf c x).inorder.Perm (x :: t.inorder) := by
  induction t with
  | nil => exact .refl _
  | node l a r ihl ihr =>
      have hright : (l.inorder ++ a :: (r.insertLeaf c x).inorder).Perm
          (x :: (l.inorder ++ a :: r.inorder)) :=
        ((ihr.cons a).append_left l.inorder).trans
          (((List.Perm.swap x a r.inorder).append_left l.inorder).trans List.perm_middle)
      cases h : c a with
      | lt => simpa [insertLeaf, h] using ihl.append_right (a :: r.inorder)
      | eq => simpa [insertLeaf, h] using hright
      | gt => simpa [insertLeaf, h] using hright

section Ordered

variable (cmp : κ → κ → Ordering) (key : α → κ)

/-- The in-order sequence is strictly increasing in the keys. -/
def Ordered (t : Tree α) : Prop :=
  t.inorder.Pairwise fun a b => cmp (key a) (key b) = .lt

variable {cmp key}

theorem Ordered.node_iff {l r : Tree α} {a : α} :
    Ordered cmp key (node l a r) ↔
      Ordered cmp key l ∧ Ordered cmp key r ∧
        (∀ b ∈ l.inorder, cmp (key b) (key a) = .lt) ∧
        (∀ b ∈ r.inorder, cmp (key a) (key b) = .lt) ∧
        ∀ b ∈ l.inorder, ∀ d ∈ r.inorder, cmp (key b) (key d) = .lt := by
  simp only [Ordered, inorder_node, List.pairwise_append, List.pairwise_cons, List.mem_cons,
    forall_eq_or_imp]
  constructor
  · rintro ⟨hl, ⟨har, hr⟩, hx⟩
    exact ⟨hl, hr, fun b hb => (hx b hb).1, har, fun b hb => (hx b hb).2⟩
  · rintro ⟨hl, hr, hla, har, hlr⟩
    exact ⟨hl, ⟨har, hr⟩, fun b hb => ⟨hla b hb, hlr b hb⟩⟩

/-- Order depends on the keys of the elements present, and on nothing else. -/
theorem Ordered.congr {key' : α → κ} {t : Tree α} (h : Ordered cmp key t)
    (hkey : ∀ a ∈ t.inorder, key' a = key a) : Ordered cmp key' t := by
  refine List.Pairwise.imp_of_mem ?_ h
  intro a b ha hb hab
  rw [hkey a ha, hkey b hb]
  exact hab

/-- Removing elements without reordering the rest keeps the order. -/
theorem Ordered.of_sublist {s t : Tree α} (h : Ordered cmp key t)
    (hsub : s.inorder.Sublist t.inorder) : Ordered cmp key s :=
  List.Pairwise.sublist hsub h

variable [Std.TransCmp cmp]

/-- In an ordered tree distinct positions hold distinct keys. -/
theorem Ordered.eq_of_key_eq {t : Tree α} (h : Ordered cmp key t) {a b : α}
    (ha : a ∈ t.inorder) (hb : b ∈ t.inorder) (hab : key a = key b) : a = b := by
  by_contra hne
  have hor : cmp (key a) (key b) = .lt ∨ cmp (key b) (key a) = .lt :=
    List.Pairwise.forall_of_forall_of_flip (R := fun a b => a ≠ b →
        cmp (key a) (key b) = .lt ∨ cmp (key b) (key a) = .lt)
      (fun x _ hx => absurd rfl hx)
      (List.Pairwise.imp (fun hxy _ => Or.inl hxy) h)
      (List.Pairwise.imp (fun hxy _ => Or.inr hxy) h) ha hb hne
  have hrefl : cmp (key b) (key b) = .eq := Std.ReflCmp.compare_self
  rw [hab] at hor
  rcases hor with h | h <;> rw [hrefl] at h <;> cases h

/-- **Search is exact on an ordered tree**: it returns an element precisely when
that element is present and its key compares equal to the target. -/
theorem Ordered.search_eq_some_iff {t : Tree α} (h : Ordered cmp key t) (k : κ) (a : α) :
    t.search (fun b => cmp k (key b)) = some a ↔ a ∈ t.inorder ∧ cmp k (key a) = .eq := by
  induction t with
  | nil => simp [search]
  | node l b r ihl ihr =>
      obtain ⟨hl, hr, hlb, hbr, -⟩ := Ordered.node_iff.mp h
      simp only [inorder_node, List.mem_append, List.mem_cons]
      cases hc : cmp k (key b) with
      | lt =>
          have hright : ∀ d ∈ r.inorder, cmp k (key d) = .lt := fun d hd =>
            Std.TransCmp.lt_trans hc (hbr d hd)
          simp only [search, hc, ihl hl]
          constructor
          · rintro ⟨ha, he⟩
            exact ⟨.inl ha, he⟩
          · rintro ⟨ha | rfl | ha, he⟩
            · exact ⟨ha, he⟩
            · rw [hc] at he; cases he
            · rw [hright a ha] at he; cases he
      | eq =>
          simp only [search, hc, Option.some.injEq]
          constructor
          · rintro rfl
            exact ⟨.inr (.inl rfl), hc⟩
          · rintro ⟨ha | rfl | ha, he⟩
            · have := Std.TransCmp.lt_of_lt_of_eq (hlb a ha) (Std.OrientedCmp.eq_symm hc)
              rw [Std.OrientedCmp.gt_of_lt this] at he; cases he
            · rfl
            · rw [Std.TransCmp.lt_of_eq_of_lt hc (hbr a ha)] at he; cases he
      | gt =>
          have hleft : ∀ d ∈ l.inorder, cmp k (key d) = .gt := fun d hd =>
            Std.TransCmp.gt_trans hc (Std.OrientedCmp.gt_of_lt (hlb d hd))
          simp only [search, hc, ihr hr]
          constructor
          · rintro ⟨ha, he⟩
            exact ⟨.inr (.inr ha), he⟩
          · rintro ⟨ha | rfl | ha, he⟩
            · rw [hleft a ha] at he; cases he
            · rw [hc] at he; cases he
            · exact ⟨ha, he⟩

/-- Inserting an element whose key is new keeps the tree ordered. -/
theorem Ordered.insertLeaf {t : Tree α} (h : Ordered cmp key t) {x : α}
    (hnew : ∀ a ∈ t.inorder, cmp (key x) (key a) ≠ .eq) :
    Ordered cmp key (t.insertLeaf (fun a => cmp (key x) (key a)) x) := by
  induction t with
  | nil => simp [Ordered, Tree.insertLeaf]
  | node l a r ihl ihr =>
      obtain ⟨hl, hr, hla, har, hlr⟩ := Ordered.node_iff.mp h
      have hnl : ∀ b ∈ l.inorder, cmp (key x) (key b) ≠ .eq := fun b hb => hnew b (by simp [hb])
      have hnr : ∀ b ∈ r.inorder, cmp (key x) (key b) ≠ .eq := fun b hb => hnew b (by simp [hb])
      have hmem : ∀ (s : Tree α) {b : α},
          b ∈ (s.insertLeaf (fun a => cmp (key x) (key a)) x).inorder ↔ b = x ∨ b ∈ s.inorder :=
        fun s b => by rw [(inorder_insertLeaf_perm _ x s).mem_iff, List.mem_cons]
      cases hc : cmp (key x) (key a) with
      | eq => exact absurd hc (hnew a (by simp))
      | lt =>
          simp only [Tree.insertLeaf, hc]
          refine Ordered.node_iff.mpr ⟨ihl hl hnl, hr, ?_, har, ?_⟩
          · intro b hb
            rcases (hmem l).mp hb with rfl | hb
            · exact hc
            · exact hla b hb
          · intro b hb d hd
            rcases (hmem l).mp hb with rfl | hb
            · exact Std.TransCmp.lt_trans hc (har d hd)
            · exact hlr b hb d hd
      | gt =>
          have hax : cmp (key a) (key x) = .lt := Std.OrientedCmp.lt_of_gt hc
          simp only [Tree.insertLeaf, hc]
          refine Ordered.node_iff.mpr ⟨hl, ihr hr hnr, hla, ?_, ?_⟩
          · intro b hb
            rcases (hmem r).mp hb with rfl | hb
            · exact hax
            · exact har b hb
          · intro b hb d hd
            rcases (hmem r).mp hd with rfl | hd
            · exact Std.TransCmp.lt_trans (hla b hb) hax
            · exact hlr b hb d hd

end Ordered

end Tree

end Lib
