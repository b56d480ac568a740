import ErrorAbuse.Lib.Bitmap
import ErrorAbuse.Request.Handlers

/-!
# The status list

A zone names the statuses it counts in a list such as `403,404,500-599`. `parseStatuses` reads
the list from left to right and sets the bits of an element before it looks at the next one, so
that a list that is rejected may have left bits behind. A number that `ngx_atoi` does not take
is -1 and falls to the comparison of the bounds, which is all that guards the bitmap.

`Parsed` is the loop over the elements of the list in place of its bytes. What is accepted, which
defect is reported and what becomes of the bitmap are read off it.
-/

namespace ErrorAbuse

open Lib

/-- `ngx_http_error_abuse_statuses_rc_t` -/
inductive StatusesRc
  | ok
  | emptyElement
  | trailingComma
  | range
  deriving DecidableEq, Repr

def statusBytes : ℕ := 75

/-- The bitmap of a zone. -/
structure Bitmap where
  bytes : List UInt8
  length_eq : bytes.length = statusBytes

namespace Bitmap

/-- Set the bit of a status; `none` is a byte outside the bitmap. -/
def set (bitmap : Bitmap) (status : ℕ) : Option Bitmap :=
  if status >>> 3 < statusBytes then
    some ⟨setBit bitmap.bytes status, length_setBit.trans bitmap.length_eq⟩
  else none

/-- Set the bits from `first` to `final`. -/
def setRange (bitmap : Bitmap) (first final : ℕ) : Option Bitmap :=
  (List.range' first (final + 1 - first)).foldlM set bitmap

/-- The statuses in the bitmap. -/
def statuses (bitmap : Bitmap) : Set ℕ := members bitmap.bytes

end Bitmap

/-- The offset of the first `c`. -/
def ngxStrlchr (c : UInt8) : List UInt8 → Option ℕ
  | [] => none
  | b :: p => if b = c then some 0 else (ngxStrlchr c p).map (· + 1)

/-- What `ngx_atoi` returns, where -1 is `NGX_ERROR`. -/
def atoi (plat : Platform) (line : List UInt8) : ℤ :=
  match ngxAtoi plat.intMax line with
  | none => -1
  | some value => value

/-- `first` and `final` of an element. -/
def elementBounds (plat : Platform) (element : List UInt8) : ℤ × ℤ :=
  match ngxStrlchr 45 element with
  | none => (atoi plat element, atoi plat element)
  | some dash => (atoi plat (element.take dash), atoi plat (element.drop (dash + 1)))

/-- The comparison that guards the bitmap. -/
def badBounds (bounds : ℤ × ℤ) : Bool :=
  bounds.1 < 100 || bounds.2 < bounds.1 || bounds.2 > maxStatus

/-- `parse_statuses`; `none` is a write outside the bitmap. -/
def parseStatuses (plat : Platform) (p : List UInt8) (bitmap : Bitmap) :
    Option (StatusesRc × Bitmap) :=
  if p.length = 0 then some (.ok, bitmap)
  else
    let stop := (ngxStrlchr 44 p).getD p.length
    if stop = 0 then some (.emptyElement, bitmap)
    else
      let bounds := elementBounds plat (p.take stop)
      if badBounds bounds then some (.range, bitmap)
      else
        match bitmap.setRange bounds.1.toNat bounds.2.toNat with
        | none => none
        | some bitmap =>
          if stop = p.length then some (.ok, bitmap)
          else if (p.drop (stop + 1)).length = 0 then some (.trailingComma, bitmap)
          else parseStatuses plat (p.drop (stop + 1)) bitmap
termination_by p.length
decreasing_by
  rw [List.length_drop]
  omega

/-! ## The grammar -/

/-- A text that is a number: decimal digits, any leading zeros, nothing too large. -/
def Numeral (plat : Platform) (text : List UInt8) (n : ℕ) : Prop :=
  text ≠ [] ∧ (∀ b ∈ text, 48 ≤ b.toNat ∧ b.toNat ≤ 57) ∧ ofDecimal text = n ∧ n ≤ plat.intMax

/-- A text that is a status, or a range of statuses. -/
structure Element (plat : Platform) (text : List UInt8) (first final : ℕ) : Prop where
  text_eq : (Numeral plat text first ∧ final = first) ∨
    ∃ l r, text = l ++ 45 :: r ∧ Numeral plat l first ∧ Numeral plat r final
  ge : 100 ≤ first
  le : first ≤ final
  le_max : final ≤ maxStatus

def IsElement (plat : Platform) (text : List UInt8) : Prop :=
  ∃ first final, Element plat text first final

/-- Nothing, or elements separated by commas. -/
def StatusList (plat : Platform) (text : List UInt8) : Prop :=
  text = [] ∨ ∀ element ∈ text.splitOn 44, IsElement plat element

/-- The statuses that some elements list. -/
def listed (plat : Platform) (elements : List (List UInt8)) : Set ℕ :=
  {status | ∃ element ∈ elements, ∃ first final,
    Element plat element first final ∧ first ≤ status ∧ status ≤ final}

/-- What is reported for an element that is none, with those `after` it. An empty last element
comes after a comma. -/
def defect (element : List UInt8) (after : List (List UInt8)) : StatusesRc :=
  if element = [] then if after = [] then .trailingComma else .emptyElement else .range

variable {first final : ℕ}

/-! ## Numbers -/

/-- A digit is taken in as long as the number stays within bounds. -/
theorem atoiStep_eq_some {max value n : ℕ} {b : UInt8} :
    atoiStep max value b = some n ↔
      (48 ≤ b.toNat ∧ b.toNat ≤ 57) ∧ value * 10 + (b.toNat - 48) = n ∧ n ≤ max := by
  have hlow : b < 48 ↔ b.toNat < 48 := UInt8.lt_iff_toNat_lt
  have hhigh : b > 57 ↔ 57 < b.toNat := UInt8.lt_iff_toNat_lt
  simp only [atoiStep, hlow, hhigh]
  split_ifs with hdigit hover
  · simp only [false_iff]
    omega
  · simp only [false_iff]
    omega
  · rw [Option.some.injEq]
    constructor
    · rintro rfl
      omega
    · exact fun h => h.2.1

theorem foldlM_atoiStep_eq_some {max : ℕ} (text : List UInt8) (n : ℕ) :
    text.foldlM (atoiStep max) 0 = some n ↔
      (∀ b ∈ text, 48 ≤ b.toNat ∧ b.toNat ≤ 57) ∧ ofDecimal text = n ∧ n ≤ max := by
  induction text using List.reverseRecOn generalizing n with
  | nil => simp [ofDecimal]; omega
  | append_singleton text b ih =>
      rw [List.foldlM_append, List.forall_mem_append, ofDecimal_append_singleton]
      simp only [List.foldlM_cons, List.foldlM_nil, List.forall_mem_singleton, Option.bind_eq_bind,
        Option.bind_eq_some_iff, ih]
      constructor
      · rintro ⟨m, ⟨hdigits, rfl, -⟩, n', hstep, heq⟩
        obtain rfl : n' = n := by simpa using heq
        obtain ⟨hb, heq, hn⟩ := atoiStep_eq_some.mp hstep
        exact ⟨⟨hdigits, hb⟩, heq, hn⟩
      · rintro ⟨⟨hdigits, hb⟩, heq, hn⟩
        have hle : ofDecimal text ≤ max := by omega
        exact ⟨_, ⟨hdigits, rfl, hle⟩, n, atoiStep_eq_some.mpr ⟨hb, heq, hn⟩, rfl⟩

/-- `ngx_atoi` takes the numbers that fit. -/
theorem ngxAtoi_eq_some {n : ℕ} : ngxAtoi plat.intMax text = some n ↔ Numeral plat text n := by
  rw [ngxAtoi, Numeral]
  split_ifs with hnil
  · simp [List.length_eq_zero_iff.mp hnil]
  · rw [foldlM_atoiStep_eq_some]
    simp [List.length_eq_zero_iff.not.mp hnil]

theorem atoi_of_numeral {n : ℕ} (h : Numeral plat text n) : atoi plat text = n := by
  rw [atoi, ngxAtoi_eq_some.mpr h]

/-- A text that is no number is taken for -1. -/
theorem numeral_of_atoi (h : 0 ≤ atoi plat text) :
    Numeral plat text (atoi plat text).toNat := by
  rw [atoi] at h ⊢
  cases hatoi : ngxAtoi plat.intMax text with
  | none => simp [hatoi] at h
  | some n => simpa using ngxAtoi_eq_some.mp hatoi

/-! ## Elements -/

theorem ngxStrlchr_of_not_mem {c : UInt8} {p : List UInt8} (h : c ∉ p) : ngxStrlchr c p = none := by
  induction p with
  | nil => rfl
  | cons b p ih =>
      rw [List.mem_cons, not_or] at h
      rw [ngxStrlchr, if_neg (Ne.symm h.1), ih h.2]
      rfl

theorem ngxStrlchr_append {c : UInt8} {l : List UInt8} (h : c ∉ l) (r : List UInt8) :
    ngxStrlchr c (l ++ c :: r) = some l.length := by
  induction l with
  | nil => simp [ngxStrlchr]
  | cons b l ih =>
      rw [List.mem_cons, not_or] at h
      rw [List.cons_append, ngxStrlchr, if_neg (Ne.symm h.1), ih h.2]
      rfl

/-- There is no dash in a number. -/
theorem Numeral.dash_not_mem {n : ℕ} (h : Numeral plat text n) : 45 ∉ text := by
  intro hmem
  have hdigit := h.2.1 45 hmem
  simp at hdigit

theorem elementBounds_of_not_mem (h : 45 ∉ text) :
    elementBounds plat text = (atoi plat text, atoi plat text) := by
  rw [elementBounds, ngxStrlchr_of_not_mem h]

theorem elementBounds_append {l : List UInt8} (h : 45 ∉ l) (r : List UInt8) :
    elementBounds plat (l ++ 45 :: r) = (atoi plat l, atoi plat r) := by
  have hdrop : (l ++ 45 :: r).drop (l.length + 1) = r := by simp
  rw [elementBounds, ngxStrlchr_append h]
  simp only [List.take_left', hdrop]

theorem Element.bounds_eq (h : Element plat text first final) :
    elementBounds plat text = (↑first, ↑final) := by
  rcases h.text_eq with ⟨hn, rfl⟩ | ⟨l, r, rfl, hl, hr⟩
  · rw [elementBounds_of_not_mem hn.dash_not_mem, atoi_of_numeral hn]
  · rw [elementBounds_append hl.dash_not_mem, atoi_of_numeral hl, atoi_of_numeral hr]

/-- An element passes the comparison. -/
theorem Element.badBounds_eq_false (h : Element plat text first final) :
    badBounds (elementBounds plat text) = false := by
  have hge := h.ge
  have hle := h.le
  have hmax := h.le_max
  rw [h.bounds_eq]
  simp [badBounds]
  omega

/-- What passes it is an element. -/
theorem element_of_badBounds (h : badBounds (elementBounds plat text) = false) :
    Element plat text (elementBounds plat text).1.toNat (elementBounds plat text).2.toNat := by
  simp only [badBounds, Bool.or_eq_false_iff, decide_eq_false_iff_not, not_lt] at h
  obtain ⟨⟨hge, hle⟩, hmax⟩ := h
  refine ⟨?_, by omega, by omega, by omega⟩
  by_cases hdash : 45 ∈ text
  · obtain ⟨l, r, rfl, hl⟩ := List.eq_append_cons_of_mem hdash
    rw [elementBounds_append hl] at hge hle ⊢
    have hfirst : 0 ≤ atoi plat l := (by decide : (0 : ℤ) ≤ 100).trans hge
    have hfinal : 0 ≤ atoi plat r := hfirst.trans hle
    exact .inr ⟨l, r, rfl, numeral_of_atoi hfirst, numeral_of_atoi hfinal⟩
  · rw [elementBounds_of_not_mem hdash] at hge ⊢
    have hfirst : 0 ≤ atoi plat text := (by decide : (0 : ℤ) ≤ 100).trans hge
    exact .inl ⟨numeral_of_atoi hfirst, rfl⟩

/-! ## The bitmap -/

namespace Bitmap

theorem set_eq_some (bitmap : Bitmap) {status : ℕ} (h : status ≤ maxStatus) :
    ∃ bitmap', bitmap.set status = some bitmap' ∧
      bitmap'.statuses = insert status bitmap.statuses := by
  have hbyte : status >>> 3 < statusBytes := by
    have hmax : maxStatus = 599 := rfl
    have hbytes : statusBytes = 75 := rfl
    rw [shiftRight_three]
    omega
  refine ⟨_, if_pos hbyte, ?_⟩
  exact members_setBit (bitmap.length_eq ▸ hbyte)

theorem foldlM_set_eq_some (bitmap : Bitmap) {statuses : List ℕ}
    (h : ∀ s ∈ statuses, s ≤ maxStatus) : ∃ bitmap', statuses.foldlM set bitmap = some bitmap' ∧
      bitmap'.statuses = bitmap.statuses ∪ {s | s ∈ statuses} := by
  induction statuses generalizing bitmap with
  | nil => exact ⟨bitmap, rfl, by simp⟩
  | cons s statuses ih =>
      obtain ⟨hs, hrest⟩ := List.forall_mem_cons.mp h
      obtain ⟨bitmap₁, hset, hmembers⟩ := bitmap.set_eq_some hs
      obtain ⟨bitmap', hfold, hmembers'⟩ := ih bitmap₁ hrest
      refine ⟨bitmap', ?_, ?_⟩
      · rw [List.foldlM_cons, hset]
        exact hfold
      · rw [hmembers', hmembers]
        ext status
        simp only [Set.mem_union, Set.mem_insert_iff, Set.mem_ofPred_eq, List.mem_cons]
        tauto

/-- The bits from `first` to `final` are within the bitmap. -/
theorem setRange_eq_some (bitmap : Bitmap) {first final : ℕ} (hle : first ≤ final)
    (hmax : final ≤ maxStatus) : ∃ bitmap', bitmap.setRange first final = some bitmap' ∧
      bitmap'.statuses = bitmap.statuses ∪ Set.Icc first final := by
  have hrange : ∀ s, s ∈ List.range' first (final + 1 - first) ↔ first ≤ s ∧ s ≤ final := by
    intro s
    rw [List.mem_range'_1]
    omega
  obtain ⟨bitmap', hfold, hmembers⟩ := bitmap.foldlM_set_eq_some
    fun s hs => ((hrange s).mp hs).2.trans hmax
  refine ⟨bitmap', hfold, ?_⟩
  rw [hmembers]
  ext status
  simp only [Set.mem_union, Set.mem_ofPred_eq, Set.mem_Icc, hrange]

end Bitmap

/-! ## The loop -/

/-- The loop over the elements: it adds each, up to one that is none. -/
inductive Parsed (plat : Platform) : List (List UInt8) → Bitmap → StatusesRc → Bitmap → Prop
  | ok (bitmap : Bitmap) : Parsed plat [] bitmap .ok bitmap
  | rejected (element : List UInt8) (after : List (List UInt8)) (bitmap : Bitmap) :
      ¬ IsElement plat element → Parsed plat (element :: after) bitmap (defect element after) bitmap
  | added (element : List UInt8) (after : List (List UInt8)) (first final : ℕ) (rc : StatusesRc)
      (bitmap bitmap₁ bitmap' : Bitmap) : Element plat element first final →
      bitmap₁.statuses = bitmap.statuses ∪ Set.Icc first final →
      Parsed plat after bitmap₁ rc bitmap' → Parsed plat (element :: after) bitmap rc bitmap'

theorem not_isElement_nil (plat : Platform) : ¬ IsElement plat [] := by
  rintro ⟨first, final, h⟩
  rcases h.text_eq with ⟨hn, -⟩ | ⟨l, r, heq, -⟩
  · exact hn.1 rfl
  · simp at heq

/-- The search for a comma finds the end of the first element. -/
theorem stop_cases (p : List UInt8) :
    ∃ element, (ngxStrlchr 44 p).getD p.length = element.length ∧
      (p = element ∧ p.splitOn 44 = [element] ∨
        ∃ after, p = element ++ 44 :: after ∧ p.splitOn 44 = element :: after.splitOn 44) := by
  by_cases hcomma : 44 ∈ p
  · obtain ⟨element, after, rfl, helement⟩ := List.eq_append_cons_of_mem hcomma
    refine ⟨element, ?_, .inr ⟨after, rfl, ?_⟩⟩
    · rw [ngxStrlchr_append helement, Option.getD_some]
    · exact List.splitOn_append_cons_self_of_not_mem helement after
  · refine ⟨p, ?_, .inl ⟨rfl, List.splitOn_eq_singleton hcomma⟩⟩
    rw [ngxStrlchr_of_not_mem hcomma, Option.getD_none]

/-- The loop over the bytes is the loop over the elements, and keeps to the bitmap. -/
theorem parseStatuses_parsed (plat : Platform) {p : List UInt8} (hp : p ≠ []) (bitmap : Bitmap) :
    ∃ rc bitmap', parseStatuses plat p bitmap = some (rc, bitmap') ∧
      Parsed plat (p.splitOn 44) bitmap rc bitmap' := by
  induction hn : p.length using Nat.strong_induction_on generalizing p bitmap with
  | _ n ih =>
      obtain ⟨element, hstop, hcases⟩ := stop_cases p
      rw [parseStatuses, if_neg (List.length_eq_zero_iff.not.mpr hp)]
      have htake : p.take element.length = element := by
        rcases hcases with ⟨rfl, -⟩ | ⟨after, rfl, -⟩ <;> simp
      have helements : ∃ rest, p.splitOn 44 = element :: rest ∧
          (rest = [] → element ≠ []) := by
        rcases hcases with ⟨rfl, hsplit⟩ | ⟨after, -, hsplit⟩
        · exact ⟨[], hsplit, fun _ => hp⟩
        · exact ⟨_, hsplit, fun hnil => absurd hnil (List.splitOn_ne_nil 44 after)⟩
      obtain ⟨rest, hsplit, hlast⟩ := helements
      simp only [hstop, htake]
      by_cases hempty : element.length = 0
      · obtain rfl : element = [] := List.length_eq_zero_iff.mp hempty
        have hdefect : defect [] rest = .emptyElement := by
          rw [defect, if_pos rfl, if_neg fun hnil => hlast hnil rfl]
        refine ⟨_, _, rfl, ?_⟩
        rw [hsplit, ← hdefect]
        exact .rejected [] rest bitmap (not_isElement_nil plat)
      rw [if_neg hempty]
      by_cases hbounds : badBounds (elementBounds plat element) = true
      · have hne : element ≠ [] := fun hnil => hempty (List.length_eq_zero_iff.mpr hnil)
        have hdefect : defect element rest = .range := if_neg hne
        refine ⟨_, _, if_pos hbounds, ?_⟩
        rw [hsplit, ← hdefect]
        refine .rejected element rest bitmap ?_
        rintro ⟨first, final, h⟩
        cases h.badBounds_eq_false.symm.trans hbounds
      have helement := element_of_badBounds (Bool.eq_false_iff.mpr hbounds)
      obtain ⟨bitmap₁, hset, hmembers⟩ := bitmap.setRange_eq_some helement.le helement.le_max
      rw [if_neg hbounds, hset]
      rcases hcases with ⟨rfl, hsingle⟩ | ⟨after, rfl, hafter⟩
      · refine ⟨_, _, if_pos rfl, ?_⟩
        rw [hsingle]
        exact .added _ _ _ _ _ _ _ _ helement hmembers (.ok bitmap₁)
      · have hdrop : (element ++ 44 :: after).drop (element.length + 1) = after := by simp
        have hmore : ¬ element.length = (element ++ 44 :: after).length := by simp
        simp only [if_neg hmore, hdrop, hafter]
        by_cases hend : after.length = 0
        · obtain rfl : after = [] := List.length_eq_zero_iff.mp hend
          refine ⟨_, _, rfl, .added _ _ _ _ _ _ _ _ helement hmembers ?_⟩
          exact .rejected [] [] bitmap₁ (not_isElement_nil plat)
        · have hshort : after.length < n := by
            simp only [List.length_append, List.length_cons] at hn
            omega
          obtain ⟨rc, bitmap', hparse, hparsed⟩ :=
            ih after.length hshort (List.length_eq_zero_iff.not.mp hend) bitmap₁ rfl
          rw [if_neg hend]
          exact ⟨rc, bitmap', hparse, .added _ _ _ _ _ _ _ _ helement hmembers hparsed⟩

/-! ## What the loop leaves -/

/-- The bounds of an element are determined. -/
theorem Element.unique {first' final' : ℕ}
    (h : Element plat text first final) (h' : Element plat text first' final') :
    first = first' ∧ final = final' := by
  have heq := h.bounds_eq.symm.trans h'.bounds_eq
  simpa using heq

theorem listed_nil (plat : Platform) : listed plat [] = ∅ := by
  ext status
  simp [listed]

theorem listed_singleton_nil (plat : Platform) : listed plat [[]] = ∅ := by
  apply Set.eq_empty_of_forall_notMem
  rintro status ⟨element, hmem, first, final, h, -⟩
  obtain rfl := List.mem_singleton.mp hmem
  exact not_isElement_nil plat ⟨first, final, h⟩

theorem listed_cons {element : List UInt8}
    (h : Element plat element first final) (elements : List (List UInt8)) :
    listed plat (element :: elements) = Set.Icc first final ∪ listed plat elements := by
  ext status
  simp only [listed, Set.mem_union, Set.mem_ofPred_eq, Set.mem_Icc, List.mem_cons, exists_eq_or_imp]
  apply or_congr_left
  constructor
  · rintro ⟨first', final', h', hbetween⟩
    obtain ⟨rfl, rfl⟩ := h.unique h'
    exact hbetween
  · intro hbetween
    exact ⟨first, final, h, hbetween⟩

theorem listed_subset (plat : Platform) (elements : List (List UInt8)) :
    listed plat elements ⊆ Set.Icc 100 maxStatus := by
  rintro status ⟨element, -, first, final, h, hfirst, hfinal⟩
  exact ⟨h.ge.trans hfirst, hfinal.trans h.le_max⟩

/-- The elements before the first one that is none have been added, and no others. -/
theorem Parsed.split {elements : List (List UInt8)} {bitmap bitmap' : Bitmap}
    {rc : StatusesRc} (h : Parsed plat elements bitmap rc bitmap') :
    ∃ before rest, elements = before ++ rest ∧ (∀ e ∈ before, IsElement plat e) ∧
      bitmap'.statuses = bitmap.statuses ∪ listed plat before ∧
      (rest = [] ∧ rc = .ok ∨
        ∃ element after, rest = element :: after ∧ ¬ IsElement plat element ∧
          rc = defect element after) := by
  induction h with
  | ok bitmap => exact ⟨[], [], rfl, by simp, by simp [listed_nil], .inl ⟨rfl, rfl⟩⟩
  | rejected element after bitmap hnone =>
      exact ⟨[], element :: after, rfl, by simp, by simp [listed_nil],
        .inr ⟨element, after, rfl, hnone, rfl⟩⟩
  | added element after first final rc bitmap bitmap₁ bitmap' helement hadded _ ih =>
      obtain ⟨before, rest, rfl, hbefore, hstatuses, hrest⟩ := ih
      refine ⟨element :: before, rest, rfl, ?_, ?_, hrest⟩
      · exact List.forall_mem_cons.mpr ⟨⟨first, final, helement⟩, hbefore⟩
      · rw [hstatuses, hadded, listed_cons helement, Set.union_assoc]

theorem defect_ne_ok (element : List UInt8) (after : List (List UInt8)) :
    defect element after ≠ .ok := by
  rw [defect]
  split_ifs <;> simp

/-- Whether a status is counted is up to the bitmap. -/
theorem statusMatches_iff {zone : ZoneConf} {bitmap : Bitmap} (h : zone.statuses = bitmap.bytes)
    (status : ℕ) : statusMatches zone status = true ↔ status ∈ bitmap.statuses := by
  have hbit : statusMatches zone status =
      if status > maxStatus then false else bitOf bitmap.bytes status := by
    rw [statusMatches, h, bitOf]
  rw [hbit, Bitmap.statuses]
  split_ifs with hlarge
  · constructor
    · exact False.elim
    · intro hmem
      have hlt := lt_of_mem_members hmem
      rw [bitmap.length_eq] at hlt
      have hmax : maxStatus = 599 := rfl
      have hbytes : statusBytes = 75 := rfl
      omega
  · exact mem_members.symm

/-- **The status list.** Every text is read without leaving the bitmap. It is accepted if and
only if it is a list of statuses and ranges, or empty; otherwise the first of its elements that is
neither is reported. If it is accepted, the statuses counted are those counted before and
those listed. In any case no bit is cleared, and none outside of 100 to 599 is set. -/
theorem parse_statuses_exact (plat : Platform) (data : List UInt8) (bitmap : Bitmap) :
    ∃ rc bitmap', parseStatuses plat data bitmap = some (rc, bitmap') ∧
      (rc = .ok ↔ StatusList plat data) ∧
      (rc ≠ .ok → ∃ before element after, data.splitOn 44 = before ++ element :: after ∧
        (∀ e ∈ before, IsElement plat e) ∧ ¬ IsElement plat element ∧ rc = defect element after) ∧
      (rc = .ok → bitmap'.statuses = bitmap.statuses ∪ listed plat (data.splitOn 44) ∧
        ∀ (zone : ZoneConf) (status : ℕ),
          statusMatches { zone with statuses := bitmap'.bytes } status = true ↔
            statusMatches { zone with statuses := bitmap.bytes } status = true ∨
              status ∈ listed plat (data.splitOn 44)) ∧
      (∀ (zone : ZoneConf) (status : ℕ), 599 < status →
        statusMatches { zone with statuses := bitmap'.bytes } status = false) ∧
      bitmap.statuses ⊆ bitmap'.statuses ∧
      bitmap'.statuses \ bitmap.statuses ⊆ Set.Icc 100 599 := by
  have hlarge : ∀ (zone : ZoneConf) (status : ℕ), 599 < status →
      statusMatches zone status = false := fun zone status hlt => if_pos hlt
  by_cases hdata : data = []
  · subst hdata
    refine ⟨.ok, bitmap, by rw [parseStatuses]; rfl, ?_, ?_, ?_, ?_, subset_rfl, ?_⟩
    · simp [StatusList]
    · exact fun hne => absurd rfl hne
    · simp [listed_singleton_nil]
    · exact fun zone status hlt => hlarge _ status hlt
    · simp
  · obtain ⟨rc, bitmap', hparse, hparsed⟩ := parseStatuses_parsed plat hdata bitmap
    obtain ⟨before, rest, hsplit, hbefore, hstatuses, hrest⟩ := hparsed.split
    refine ⟨rc, bitmap', hparse, ?_, ?_, ?_, fun zone status hlt => hlarge _ status hlt, ?_, ?_⟩
    · rw [StatusList, or_iff_right hdata, hsplit]
      rcases hrest with ⟨rfl, rfl⟩ | ⟨element, after, rfl, hnone, rfl⟩
      · simpa using hbefore
      · refine iff_of_false (defect_ne_ok element after) fun hall => hnone (hall element ?_)
        simp
    · intro hne
      rcases hrest with ⟨rfl, rfl⟩ | ⟨element, after, rfl, hnone, rfl⟩
      · exact absurd rfl hne
      · exact ⟨before, element, after, hsplit, hbefore, hnone, rfl⟩
    · intro hok
      have hnothing : rest = [] := by
        rcases hrest with ⟨hnil, -⟩ | ⟨element, after, -, -, hdefect⟩
        · exact hnil
        · exact absurd (hdefect.symm.trans hok) (defect_ne_ok element after)
      rw [hsplit, hnothing, List.append_nil]
      refine ⟨hstatuses, fun zone status => ?_⟩
      rw [statusMatches_iff rfl, statusMatches_iff rfl, hstatuses]
      rfl
    · rw [hstatuses]
      exact Set.subset_union_left
    · rintro status ⟨hmem, hnew⟩
      rw [hstatuses] at hmem
      exact listed_subset plat before (hmem.resolve_left hnew)

/-- "404,": the comma is reported and the bit stays. -/
example : (parseStatuses .lp64 [52, 48, 52, 44] ⟨List.replicate 75 0, rfl⟩).map (fun result =>
    (result.1, bitOf result.2.bytes 404)) = some (.trailingComma, true) := by decide +kernel

end ErrorAbuse
