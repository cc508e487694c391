import Mathlib.Logic.Basic

/-! # Holders

Things that pass from hand to hand. If a thing has one holder at most, and one
that is passed on has its receiver as its only holder, then every thing has
one holder at most ever after.
-/

namespace ChatServer.Library

variable {η γ : Type*} {holds holds' : η → γ → Prop} {c : γ} {dest : Option η} {g k : η}

/-- No thing has two holders. -/
def Sole (holds : η → γ → Prop) : Prop := ∀ c h h', holds h c → holds h' c → h = h'

/-- One thing is passed on to a holder, or to nobody, and nothing else is. -/
structure Passes (holds holds' : η → γ → Prop) (c : γ) (dest : Option η) : Prop where
  others : ∀ h d, d ≠ c → (holds' h d ↔ holds h d)
  passed : ∀ h, holds' h c ↔ dest = some h

theorem Sole.passes (hs : Sole holds) (hp : Passes holds holds' c dest) : Sole holds' := by
  intro d h h' hd hd'
  by_cases hne : d = c
  · subst hne
    have hdest := (hp.passed h).mp hd
    rw [(hp.passed h').mp hd'] at hdest
    exact (Option.some.inj hdest).symm
  · exact hs d h h' ((hp.others h d hne).mp hd) ((hp.others h' d hne).mp hd')

theorem Passes.give (hfree : ∀ h, ¬ holds h c) (hto : ∀ d, holds' k d ↔ d = c ∨ holds k d)
    (hrest : ∀ h, h ≠ k → ∀ d, (holds' h d ↔ holds h d)) : Passes holds holds' c (some k) where
  others h d hne := by
    by_cases hk : h = k
    · subst hk
      rw [hto, or_iff_right hne]
    · exact hrest h hk d
  passed h := by
    rw [Option.some.injEq]
    by_cases hk : h = k
    · subst hk
      simp [hto]
    · rw [hrest h hk]
      exact iff_of_false (hfree h) fun hkh => hk hkh.symm

theorem Passes.keep (hfree : ∀ h, ¬ holds h c) (hsame : ∀ h d, holds' h d ↔ holds h d) :
    Passes holds holds' c none where
  others h d _ := hsame h d
  passed h := iff_of_false (fun hh => hfree h ((hsame h c).mp hh)) (by simp)

theorem Sole.drop (hs : Sole holds) (hg : holds g c) (hfrom : ∀ d, holds' g d ↔ d ≠ c ∧ holds g d)
    (hrest : ∀ h, h ≠ g → ∀ d, (holds' h d ↔ holds h d)) : Passes holds holds' c none where
  others h d hne := by
    by_cases hk : h = g
    · subst hk
      rw [hfrom, and_iff_right hne]
    · exact hrest h hk d
  passed h := by
    refine iff_of_false (fun hh => ?_) (by simp)
    by_cases hk : h = g
    · subst hk
      exact ((hfrom c).mp hh).1 rfl
    · exact hk (hs c h g ((hrest h hk c).mp hh) hg)

theorem Sole.move (hs : Sole holds) (hg : holds g c) (hgk : g ≠ k)
    (hfrom : ∀ d, holds' g d ↔ d ≠ c ∧ holds g d) (hto : ∀ d, holds' k d ↔ d = c ∨ holds k d)
    (hrest : ∀ h, h ≠ g → h ≠ k → ∀ d, (holds' h d ↔ holds h d)) :
    Passes holds holds' c (some k) where
  others h d hne := by
    by_cases hk : h = k
    · subst hk
      rw [hto, or_iff_right hne]
    by_cases hh : h = g
    · subst hh
      rw [hfrom, and_iff_right hne]
    · exact hrest h hh hk d
  passed h := by
    rw [Option.some.injEq]
    by_cases hk : h = k
    · subst hk
      simp [hto]
    refine iff_of_false (fun hheld => ?_) fun hkh => hk hkh.symm
    by_cases hh : h = g
    · subst hh
      exact ((hfrom c).mp hheld).1 rfl
    · exact hh (hs c h g ((hrest h hh hk c).mp hheld) hg)

theorem Passes.held_iff (hp : Passes holds holds' c dest) {d : γ} :
    (∃ h, holds' h d) ↔ (d = c ∧ dest ≠ none) ∨ (d ≠ c ∧ ∃ h, holds h d) := by
  by_cases hne : d = c
  · subst hne
    simp only [hp.passed, true_and, ne_eq, not_true_eq_false, false_and, or_false]
    exact Option.ne_none_iff_exists'.symm
  · simp only [hne, hp.others _ d hne, false_and, false_or, ne_eq, not_false_eq_true, true_and]

end ChatServer.Library
