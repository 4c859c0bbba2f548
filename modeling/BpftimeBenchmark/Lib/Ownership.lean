import Mathlib.Logic.Function.Basic

/-!
Resources with owners. A table gives the resources that are in use with what they stand
for, and every owner holds at most one of them. The table is owned if what is held is in
use, nothing is held twice and nothing in use is lost.
-/

namespace BpftimeBenchmark.Ownership

variable {R V O : Type*}

structure Owned (table : R → Option V) (holds : O → Option (R × V)) : Prop where
  live : ∀ o r v, holds o = some (r, v) → table r = some v
  unique : ∀ o o' r v v', holds o = some (r, v) → holds o' = some (r, v') → o = o'
  covered : ∀ r v, table r = some v → ∃ o, holds o = some (r, v)

theorem owned_empty : Owned (fun _ : R => (none : Option V)) (fun _ : O => none) where
  live := fun _ _ _ h => by cases h
  unique := fun _ _ _ _ _ h => by cases h
  covered := fun _ _ h => by cases h

section

variable {table : R → Option V} {holds holds' : O → Option (R × V)} {o o' : O} {r : R} {v : V}

theorem Owned.congr (h : Owned table holds) (hsame : ∀ o, holds' o = holds o) :
    Owned table holds' := by
  obtain rfl : holds' = holds := funext hsame
  exact h

/-- One owner hands its resource to another that holds none. -/
theorem Owned.transfer (h : Owned table holds) (hholds : holds o = some (r, v))
    (hidle : holds o' = none) (hnone : holds' o = none) (hgiven : holds' o' = some (r, v))
    (hothers : ∀ p, p ≠ o → p ≠ o' → holds' p = holds p) : Owned table holds' := by
  -- who holds what now is known from who held it before
  have hbefore : ∀ p q u, holds' p = some (q, u) →
      (p = o' ∧ q = r ∧ u = v) ∨ (p ≠ o ∧ p ≠ o' ∧ holds p = some (q, u)) := by
    intro p q u hp
    by_cases hpo : p = o
    · subst hpo
      rw [hnone] at hp
      cases hp
    · by_cases hpo' : p = o'
      · subst hpo'
        obtain ⟨rfl, rfl⟩ := Prod.mk.inj (Option.some.inj (hgiven.symm.trans hp))
        exact Or.inl ⟨rfl, rfl, rfl⟩
      · exact Or.inr ⟨hpo, hpo', (hothers p hpo hpo').symm.trans hp⟩
  constructor
  · intro p q u hp
    rcases hbefore p q u hp with ⟨-, rfl, rfl⟩ | ⟨-, -, hold⟩
    · exact h.live o q u hholds
    · exact h.live p q u hold
  · intro p p' q u u' hp hp'
    rcases hbefore p q u hp with ⟨rfl, rfl, -⟩ | ⟨hpo, -, hold⟩
    · rcases hbefore p' q u' hp' with ⟨rfl, -, -⟩ | ⟨hpo', -, hold'⟩
      · rfl
      · exact absurd (h.unique p' o q u' v hold' hholds) hpo'
    · rcases hbefore p' q u' hp' with ⟨-, rfl, -⟩ | ⟨-, -, hold'⟩
      · exact absurd (h.unique p o q u v hold hholds) hpo
      · exact h.unique p p' q u u' hold hold'
  · intro q u hq
    obtain ⟨p, hp⟩ := h.covered q u hq
    by_cases hpo : p = o
    · subst hpo
      obtain ⟨rfl, rfl⟩ := Prod.mk.inj (Option.some.inj (hp.symm.trans hholds))
      exact ⟨o', hgiven⟩
    · have hpo' : p ≠ o' := by
        rintro rfl
        rw [hidle] at hp
        cases hp
      exact ⟨p, (hothers p hpo hpo').trans hp⟩

variable [DecidableEq R]

/-- An owner that holds nothing takes a resource that is not in use. -/
theorem Owned.acquire (h : Owned table holds) (hfree : table r = none) (hidle : holds o = none)
    (hholds : holds' o = some (r, v)) (hothers : ∀ p, p ≠ o → holds' p = holds p) :
    Owned (Function.update table r (some v)) holds' := by
  have hnew : ∀ p u, p ≠ o → holds p ≠ some (r, u) := by
    intro p u _ hp
    rw [h.live p r u hp] at hfree
    cases hfree
  constructor
  · intro p q u hp
    by_cases hpo : p = o
    · subst hpo
      obtain ⟨rfl, rfl⟩ := Prod.mk.inj (Option.some.inj (hholds.symm.trans hp))
      exact Function.update_self ..
    · rw [hothers p hpo] at hp
      have hq : q ≠ r := by
        rintro rfl
        exact hnew p u hpo hp
      rw [Function.update_of_ne hq]
      exact h.live p q u hp
  · intro p p' q u u' hp hp'
    by_cases hpo : p = o
    · by_cases hpo' : p' = o
      · rw [hpo, hpo']
      · subst hpo
        obtain ⟨rfl, rfl⟩ := Prod.mk.inj (Option.some.inj (hholds.symm.trans hp))
        rw [hothers p' hpo'] at hp'
        exact absurd hp' (hnew p' u' hpo')
    · rw [hothers p hpo] at hp
      by_cases hpo' : p' = o
      · subst hpo'
        obtain ⟨rfl, rfl⟩ := Prod.mk.inj (Option.some.inj (hholds.symm.trans hp'))
        exact absurd hp (hnew p u hpo)
      · rw [hothers p' hpo'] at hp'
        exact h.unique p p' q u u' hp hp'
  · intro q u hq
    by_cases hqr : q = r
    · subst hqr
      rw [Function.update_self] at hq
      obtain rfl := Option.some.inj hq
      exact ⟨o, hholds⟩
    · rw [Function.update_of_ne hqr] at hq
      obtain ⟨p, hp⟩ := h.covered q u hq
      have hpo : p ≠ o := by
        rintro rfl
        rw [hidle] at hp
        cases hp
      exact ⟨p, (hothers p hpo).trans hp⟩

/-- An owner gives its resource up, which is out of use then. -/
theorem Owned.release (h : Owned table holds) (hholds : holds o = some (r, v))
    (hnone : holds' o = none) (hothers : ∀ p, p ≠ o → holds' p = holds p) :
    Owned (Function.update table r none) holds' := by
  have hkept : ∀ p q u, holds' p = some (q, u) → p ≠ o ∧ holds p = some (q, u) := by
    intro p q u hp
    have hpo : p ≠ o := by
      rintro rfl
      rw [hnone] at hp
      cases hp
    exact ⟨hpo, (hothers p hpo).symm.trans hp⟩
  constructor
  · intro p q u hp
    obtain ⟨hpo, hold⟩ := hkept p q u hp
    have hq : q ≠ r := by
      rintro rfl
      exact hpo (h.unique p o q u v hold hholds)
    rw [Function.update_of_ne hq]
    exact h.live p q u hold
  · intro p p' q u u' hp hp'
    exact h.unique p p' q u u' (hkept p q u hp).2 (hkept p' q u' hp').2
  · intro q u hq
    by_cases hqr : q = r
    · subst hqr
      rw [Function.update_self] at hq
      cases hq
    · rw [Function.update_of_ne hqr] at hq
      obtain ⟨p, hp⟩ := h.covered q u hq
      have hpo : p ≠ o := by
        rintro rfl
        exact hqr (congrArg Prod.fst (Option.some.inj (hp.symm.trans hholds)))
      exact ⟨p, (hothers p hpo).trans hp⟩

end

end BpftimeBenchmark.Ownership
