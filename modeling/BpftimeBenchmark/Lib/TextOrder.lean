import BpftimeBenchmark.Lib.Text
import Mathlib.Data.List.Dedup

/-!
The order of texts by their code points, and `sorted` of a set of them.
-/

namespace BpftimeBenchmark.Text

/-- `s <= t`. -/
def precedes : Text → Text → Bool
  | [], _ => true
  | _ :: _, [] => false
  | a :: s, b :: t => decide (a.toNat < b.toNat) || (decide (a = b) && precedes s t)

theorem precedes_total (s t : Text) : (precedes s t || precedes t s) = true := by
  induction s, t using precedes.induct with
  | case1 t => rfl
  | case2 a s => rfl
  | case3 a s b t ih =>
      rcases Nat.lt_trichotomy a.toNat b.toNat with h | h | h
      · simp [precedes, h]
      · simpa [precedes, Char.toNat_inj.mp h] using ih
      · simp [precedes, h]

theorem precedes_trans {s t u : Text} (hst : precedes s t = true) (htu : precedes t u = true) :
    precedes s u = true := by
  induction s, t using precedes.induct generalizing u with
  | case1 t => rfl
  | case2 a s => cases hst
  | case3 a s b t ih =>
      cases u with
      | nil => cases htu
      | cons c u =>
          simp only [precedes, Bool.or_eq_true, Bool.and_eq_true, decide_eq_true_eq] at hst htu ⊢
          rcases hst with hab | ⟨rfl, hst⟩ <;> rcases htu with hbc | ⟨rfl, htu⟩
          · exact .inl (hab.trans hbc)
          · exact .inl hab
          · exact .inl hbc
          · exact .inr ⟨rfl, ih hst htu⟩

/-- `sorted(set(texts))`. -/
def sortedSet (texts : List Text) : List Text := texts.dedup.mergeSort precedes

theorem mem_sortedSet {texts : List Text} {s : Text} : s ∈ sortedSet texts ↔ s ∈ texts := by
  rw [sortedSet, List.mem_mergeSort, List.mem_dedup]

/-- Each text stands once, before all that are greater. -/
theorem pairwise_sortedSet (texts : List Text) :
    (sortedSet texts).Pairwise fun s t => s ≠ t ∧ precedes s t = true := by
  have hnodup : (sortedSet texts).Nodup :=
    (List.mergeSort_perm _ _).nodup_iff.mpr (List.nodup_dedup texts)
  have hsorted : (sortedSet texts).Pairwise (precedes · ·) :=
    @List.pairwise_mergeSort _ precedes (fun _ _ _ => precedes_trans) precedes_total _
  exact List.Pairwise.and hnodup hsorted

end BpftimeBenchmark.Text
