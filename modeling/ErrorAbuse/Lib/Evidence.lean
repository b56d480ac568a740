import ErrorAbuse.Lib.Limiter

/-!
# What a limiter's entry rests on

An entry is `Grounded` in a list of hits if all that can be observed of it stems from them:
the times that it counts are among the hits, and a ban is one that as many hits as the
threshold says have brought about, within one window. A limiter that starts with empty entries
and is told of every hit keeps its entries grounded; so does an implementation that forgets
events, since fewer events count for less.
-/

namespace Lib.Limiter

universe u

variable {τ : Type u} [LinearOrder τ] {P : Policy τ} {hits hits' : List τ} {e e' : Entry τ}
  {now now' d : τ}

/-- A ban until `d` that the last of these hits imposes, together with those before it in its
window. -/
def Grounds (P : Policy τ) (hits : List τ) (d : τ) : Prop :=
  ∃ (ts : List τ) (now : τ), (ts ++ [now]).Sublist hits ∧ P.threshold ≤ ts.length + 1 ∧
    (∀ x ∈ ts, P.cutoff now < x ∧ x ≤ now) ∧ d = P.ban now

theorem Grounds.mono (hsub : hits.Sublist hits') (h : Grounds P hits d) : Grounds P hits' d := by
  obtain ⟨ts, now, hts, hlen, hin, hd⟩ := h
  exact ⟨ts, now, hts.trans hsub, hlen, hin, hd⟩

/-- A standing that stems from these hits. -/
def Standing.Grounded (P : Policy τ) (hits : List τ) : Standing τ → Prop
  | .banned d => Grounds P hits d
  | .counting ts => ts.Sublist hits

theorem Standing.Grounded.mono {s : Standing τ} (hsub : hits.Sublist hits')
    (h : s.Grounded P hits) : s.Grounded P hits' := by
  cases s with
  | banned d => exact Grounds.mono hsub h
  | counting ts => exact h.trans hsub

/-- From `now` on, the entry stands as these hits make it stand. -/
def Grounded (P : Policy τ) (now : τ) (hits : List τ) (e : Entry τ) : Prop :=
  ∀ t, now ≤ t → (e.standing P t).Grounded P hits

namespace Grounded

theorem empty (P : Policy τ) (now : τ) (hits : List τ) : Grounded P now hits .empty :=
  fun _ _ => List.nil_sublist hits

theorem mono (h : Grounded P now hits e) (hle : now ≤ now') (hsub : hits.Sublist hits') :
    Grounded P now' hits' e :=
  fun t ht => (h t (hle.trans ht)).mono hsub

theorem congr (h : Grounded P now hits e) (hsame : SameFrom P now e' e) :
    Grounded P now hits e' :=
  fun t ht => hsame t ht ▸ h t ht

/-- A hit is one more hit for its entry to rest on. -/
theorem hit (h : Grounded P now hits e) (hlast : ∀ x ∈ hits, x ≤ now) :
    Grounded P now (hits ++ [now]) (e.hit P now).1 := by
  have hsub : hits.Sublist (hits ++ [now]) := List.sublist_append_left hits [now]
  cases hs : e.standing P now with
  | banned d =>
      rw [Entry.hit, hs]
      exact h.mono le_rfl hsub
  | counting ts =>
      have hts : (Standing.counting ts).Grounded P hits := hs ▸ h now le_rfl
      replace hts : ts.Sublist hits := hts
      rw [Entry.hit_of_counting hs]
      intro t ht
      by_cases hth : P.threshold ≤ ts.length + 1
      · have hwindow : ts = window (P.cutoff now) (e.lift now).times :=
          Standing.counting.inj (hs.symm.trans (Entry.standing_of_counting hs le_rfl))
        have hgrounds : Grounds P (hits ++ [now]) (P.ban now) := by
          refine ⟨ts, now, hts.append_right [now], hth, fun x hx => ⟨?_, ?_⟩, rfl⟩
          · rw [hwindow] at hx
            exact (mem_window.mp hx).2
          · exact hlast x (hts.subset hx)
        simp only [if_pos hth, Entry.standing]
        split_ifs
        · exact hgrounds
        · exact List.nil_sublist _
      · have hlater := h t ht
        rw [Entry.standing_of_counting hs ht] at hlater
        simp only [if_neg hth, Entry.standing, window_append]
        exact hlater.append List.filter_sublist

/-- A look adds nothing. -/
theorem check (h : Grounded P now hits e) : Grounded P now hits (e.check P now).1 :=
  h.congr (SameFrom.check e now)

/-- A ban in force has its grounds. -/
theorem grounds (h : Grounded P now hits e) (hb : e.standing P now = .banned d) :
    Grounds P hits d := by
  have hs : (Standing.banned d).Grounded P hits := hb ▸ h now le_rfl
  exact hs

end Grounded

end Lib.Limiter
