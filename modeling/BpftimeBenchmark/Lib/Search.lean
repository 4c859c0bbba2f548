import Mathlib.Data.List.Perm.Subperm
import Mathlib.Logic.Relation

/-!
Breadth-first search with a queue and no record of the nodes it has met: the levels
below the queue, the order in which the search meets them, and its end when no node
lies below itself.
-/

namespace BpftimeBenchmark.Search

variable {α : Type} (next : α → List α) (test : α → Bool)

/-- Tests the first node of the queue and puts the next ones at the end; without fuel
there is no answer. -/
def search : Nat → List α → Option (Option α)
  | 0, _ => none
  | _ + 1, [] => some none
  | fuel + 1, a :: queue => if test a then some (some a) else search fuel (queue ++ next a)

def level : List α → Nat → List α
  | queue, 0 => queue
  | queue, n + 1 => level (queue.flatMap next) n

/-- The nodes of the first levels, one level after the other. -/
def order : List α → Nat → List α
  | _, 0 => []
  | queue, n + 1 => queue ++ order (queue.flatMap next) n

/-- One node can come right after another. -/
def Next (a b : α) : Prop := b ∈ next a

variable {next test} {queue nodes : List α} {a b : α} {n : Nat}

theorem mem_level_succ : b ∈ level next queue (n + 1) ↔ ∃ a ∈ level next queue n, b ∈ next a := by
  induction n generalizing queue with
  | zero => exact List.mem_flatMap
  | succ n ih => exact ih

/-- The search deals with the nodes at the front before any other. -/
theorem search_append (fuel : Nat) (front back : List α) :
    search next test (front.length + fuel) (front ++ back) =
      match front.find? test with
      | some a => some (some a)
      | none => search next test fuel (back ++ front.flatMap next) := by
  induction front generalizing back with
  | nil => simp
  | cons a front ih =>
      have hfuel : (a :: front).length + fuel = (front.length + fuel) + 1 := by
        rw [List.length_cons]
        omega
      rw [hfuel, List.cons_append, search, List.find?_cons]
      cases ha : test a with
      | true => rfl
      | false =>
          simp only [Bool.false_eq_true, if_false]
          rw [List.append_assoc, ih, List.flatMap_cons, List.append_assoc]

/-- With enough fuel the search finds the first node of the order that passes the
test. -/
theorem search_eq {fuel : Nat} (hend : level next queue n = [])
    (hfuel : (order next queue n).length < fuel) :
    search next test fuel queue = some ((order next queue n).find? test) := by
  induction n generalizing queue fuel with
  | zero =>
      obtain rfl : queue = [] := hend
      cases fuel with
      | zero => cases hfuel
      | succ fuel => rfl
  | succ n ih =>
      rw [order, List.length_append] at hfuel
      have hsplit : fuel = queue.length + (fuel - queue.length) := by omega
      have hsearch := @search_append _ next test (fuel - queue.length) queue []
      rw [List.append_nil, List.nil_append, ← hsplit] at hsearch
      rw [hsearch, order, List.find?_append]
      cases queue.find? test with
      | some a => rfl
      | none => exact ih hend (by omega)

/-- What comes first in the order lies in the first level that has such a node. -/
theorem find?_order (h : (order next queue n).find? test = some a) :
    ∃ i < n, a ∈ level next queue i ∧ test a = true ∧
      ∀ j < i, ∀ b ∈ level next queue j, test b = false := by
  induction n generalizing queue with
  | zero => cases h
  | succ n ih =>
      rw [order, List.find?_append] at h
      cases hqueue : queue.find? test with
      | some b =>
          rw [hqueue] at h
          obtain rfl := Option.some.inj h
          exact ⟨0, Nat.succ_pos n, List.mem_of_find?_eq_some hqueue,
            List.find?_some hqueue, fun j hj => absurd hj (Nat.not_lt_zero j)⟩
      | none =>
          rw [hqueue] at h
          obtain ⟨i, hi, hmem, htest, hearlier⟩ := ih h
          refine ⟨i + 1, Nat.succ_lt_succ hi, hmem, htest, ?_⟩
          intro j hj b hb
          cases j with
          | zero => simpa using List.find?_eq_none.mp hqueue b hb
          | succ j => exact hearlier j (Nat.lt_of_succ_lt_succ hj) b hb

theorem mem_order : a ∈ order next queue n ↔ ∃ i < n, a ∈ level next queue i := by
  induction n generalizing queue with
  | zero => simp [order]
  | succ n ih =>
      rw [order, List.mem_append, ih]
      constructor
      · rintro (hmem | ⟨i, hi, hmem⟩)
        · exact ⟨0, Nat.succ_pos n, hmem⟩
        · exact ⟨i + 1, Nat.succ_lt_succ hi, hmem⟩
      · rintro ⟨i, hi, hmem⟩
        cases i with
        | zero => exact Or.inl hmem
        | succ i => exact Or.inr ⟨i, Nat.lt_of_succ_lt_succ hi, hmem⟩

/-- A node of a level has as many nodes above it as the level is deep. -/
theorem exists_path (hqueue : ∀ a ∈ queue, a ∈ nodes) (hnext : ∀ a b, b ∈ next a → b ∈ nodes)
    (h : a ∈ level next queue n) :
    ∃ path : List α, path.length = n ∧ (a :: path) ⊆ nodes ∧
      (a :: path).Pairwise fun b c => Relation.TransGen (Next next) c b := by
  induction n generalizing a with
  | zero => exact ⟨[], rfl, by simpa using hqueue a h, List.pairwise_singleton _ a⟩
  | succ n ih =>
      obtain ⟨b, hb, hab⟩ := mem_level_succ.mp h
      obtain ⟨path, hlength, hsubset, hpath⟩ := ih hb
      refine ⟨b :: path, by rw [List.length_cons, hlength],
        List.cons_subset.mpr ⟨hnext b a hab, hsubset⟩, List.pairwise_cons.mpr ⟨?_, hpath⟩⟩
      intro c hc
      rcases List.mem_cons.mp hc with rfl | hc
      · exact .single hab
      · exact .tail ((List.pairwise_cons.mp hpath).1 c hc) hab

section Acyclic

variable (hqueue : ∀ a ∈ queue, a ∈ nodes) (hnext : ∀ a b, b ∈ next a → b ∈ nodes)
  (hacyclic : ∀ a, ¬ Relation.TransGen (Next next) a a)

include hqueue hnext hacyclic

/-- Where no node lies below itself there are no more levels than nodes. -/
theorem lt_of_mem_level (h : a ∈ level next queue n) : n < nodes.length := by
  obtain ⟨path, hlength, hsubset, hpath⟩ := exists_path hqueue hnext h
  have hnodup : (a :: path).Nodup := by
    refine hpath.imp ?_
    rintro b c hbelow rfl
    exact hacyclic b hbelow
  have hle := (hnodup.subperm hsubset).length_le
  rw [List.length_cons, hlength] at hle
  omega

theorem level_eq_nil : level next queue nodes.length = [] := by
  rw [List.eq_nil_iff_forall_not_mem]
  intro a ha
  exact absurd (lt_of_mem_level hqueue hnext hacyclic ha) (Nat.lt_irrefl _)

theorem mem_order_nodes :
    a ∈ order next queue nodes.length ↔ ∃ i, a ∈ level next queue i := by
  rw [mem_order]
  constructor
  · rintro ⟨i, -, hmem⟩
    exact ⟨i, hmem⟩
  · rintro ⟨i, hmem⟩
    exact ⟨i, lt_of_mem_level hqueue hnext hacyclic hmem, hmem⟩

end Acyclic

end BpftimeBenchmark.Search
