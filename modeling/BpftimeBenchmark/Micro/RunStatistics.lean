import BpftimeBenchmark.Lib.Dict
import BpftimeBenchmark.Lib.PyStatistics
import BpftimeBenchmark.Lib.Text
import Mathlib.Data.Rat.Sqrt

/-!
`handle_result` of the micro-benchmarks: maximum, minimum, average and standard deviation
of the times of each benchmark. What it does with numbers is a parameter; on rational
numbers it is exact, and `math.sqrt` stays a parameter.
-/

namespace BpftimeBenchmark.Micro

open Averages

/-- What `handle_result` does with the times. -/
structure Numbers (ν : Type) where
  zero : ν
  sum : List ν → ν
  square : ν → ν
  divide : ν → Nat → Except PyError ν
  sub : ν → ν → ν
  lt : ν → ν → Bool
  sqrt : ν → ν
  greatest : List ν → Except PyError ν
  least : List ν → Except PyError ν

structure Summary (ν : Type) where
  max : ν
  min : ν
  avg : ν
  stdDev : ν
  rawValues : List ν

section Code

variable {ν : Type} (N : Numbers ν)

/-- `sqr_diff`. -/
def sqrDiff (v : List ν) (avg : ν) : Except PyError ν := do
  let sqrSum := N.sum (v.map N.square)
  let meanSquare ← N.divide sqrSum v.length
  return N.sub meanSquare (N.square avg)

/-- The body of the loop over the benchmarks. -/
def summarize (v : List ν) : Except PyError (Summary ν) := do
  let avg ← N.divide (N.sum v) v.length
  let diff ← sqrDiff N v avg
  let stdDev := if N.lt N.zero diff then N.sqrt diff else N.zero
  let greatest ← N.greatest v
  let least ← N.least v
  return ⟨greatest, least, avg, stdDev, v⟩

/-- `handle_result` of `uprobe/benchmark.py`. -/
def Uprobe.handleResult (result : Dict Text (List ν)) :
    Except PyError (Dict Text (Summary ν)) :=
  result.entries.foldlM (fun newResult e => do
    let val ← summarize N e.2
    return newResult.set e.1 val) Dict.empty

/-- `handle_result` of `mpk/benchmark.py`, which skips a benchmark without times. -/
def Mpk.handleResult (result : Dict Text (List ν)) :
    Except PyError (Dict Text (Summary ν)) :=
  result.entries.foldlM (fun newResult e => do
    if e.2.isEmpty then return newResult
    let val ← summarize N e.2
    return newResult.set e.1 val) Dict.empty

/-- Where every list of times has a summary, both copies of `handle_result` collect them. -/
theorem handleResult_eq {summary : List ν → Summary ν}
    (hsummary : ∀ v ≠ [], summarize N v = .ok (summary v)) {result : Dict Text (List ν)}
    (h : ∀ k v, result.get? k = some v → v ≠ []) :
    Uprobe.handleResult N result = .ok (result.mapValues summary) ∧
      Mpk.handleResult N result = .ok (result.mapValues summary) := by
  have hne : ∀ e ∈ result.entries, e.2 ≠ [] := fun e he => h e.1 e.2 (Dict.mem_entries.mp he)
  rw [← Dict.foldl_set_eq_mapValues]
  constructor
  · apply foldlM_ok
    intro newResult e he
    simp only [hsummary e.2 (hne e he)]
    rfl
  · apply foldlM_ok
    intro newResult e he
    have hempty : ¬ e.2.isEmpty = true := fun hnil => hne e he (List.isEmpty_iff.mp hnil)
    rw [if_neg hempty]
    simp only [hsummary e.2 (hne e he)]
    rfl

end Code

/-- Exact numbers. -/
def rational (sqrt : ℚ → ℚ) : Numbers ℚ where
  zero := 0
  sum := List.sum
  square q := q ^ 2
  divide q n := divide q n
  sub p q := p - q
  lt p q := decide (p < q)
  sqrt := sqrt
  greatest := PyStatistics.maximum
  least := PyStatistics.minimum

/-- What the numbers of a summary are. -/
structure Summarizes (sqrt : ℚ → ℚ) (v : List ℚ) (s : Summary ℚ) : Prop where
  rawValues : s.rawValues = v
  avg : s.avg = v.sum / v.length
  least : s.min ∈ v ∧ ∀ x ∈ v, s.min ≤ x
  greatest : s.max ∈ v ∧ ∀ x ∈ v, x ≤ s.max
  between : s.min ≤ s.avg ∧ s.avg ≤ s.max
  deviation : ∃ diff, sqrDiff (rational sqrt) v s.avg = .ok diff ∧
    diff = (v.map fun x => (x - s.avg) ^ 2).sum / v.length ∧ 0 ≤ diff ∧
    (diff = 0 ↔ ∀ x ∈ v, ∀ y ∈ v, x = y) ∧
    diff ≤ (s.max - s.avg) * (s.avg - s.min) ∧
    (∀ c, sqrDiff (rational sqrt) (v.map (· + c)) (mean (v.map (· + c))) = .ok diff) ∧
    s.stdDev = if diff = 0 then 0 else sqrt diff

variable {sqrt : ℚ → ℚ} {v : List ℚ}

theorem divide_length (a : ℚ) (h : v ≠ []) : divide a v.length = .ok (a / v.length) :=
  divide_of_ne_zero (length_ne_zero h) a

theorem sqrDiff_mean (sqrt : ℚ → ℚ) (h : v ≠ []) :
    sqrDiff (rational sqrt) v (mean v) = .ok (spread v) := by
  have hdivide : ∀ q, (rational sqrt).divide q v.length = .ok (q / v.length) :=
    fun q => divide_length q h
  rw [sqrDiff, hdivide]
  rfl

/-- What a summary holds when there are times. -/
def summaryOf (sqrt : ℚ → ℚ) (v : List ℚ) : Summary ℚ :=
  ⟨v.max?.getD 0, v.min?.getD 0, mean v, if 0 < spread v then sqrt (spread v) else 0, v⟩

theorem summarize_eq (h : v ≠ []) : summarize (rational sqrt) v = .ok (summaryOf sqrt v) := by
  have havg : (rational sqrt).divide v.sum v.length = .ok (mean v) := divide_length _ h
  have hmax : (rational sqrt).greatest v = .ok (v.max?.getD 0) := PyStatistics.maximum_ok h
  have hmin : (rational sqrt).least v = .ok (v.min?.getD 0) := PyStatistics.minimum_ok h
  have hsum : (rational sqrt).sum v = v.sum := rfl
  rw [summarize, hsum, havg, ok_bind, sqrDiff_mean sqrt h, ok_bind, hmax, ok_bind, hmin, ok_bind,
    summaryOf]
  simp only [rational, decide_eq_true_eq]
  rfl

theorem summarizes_summaryOf (h : v ≠ []) : Summarizes sqrt v (summaryOf sqrt v) := by
  have hleast : (summaryOf sqrt v).min ∈ v ∧ ∀ x ∈ v, (summaryOf sqrt v).min ≤ x := by
    cases hm : v.min? with
    | none => exact absurd (List.min?_eq_none_iff.mp hm) h
    | some m =>
        obtain ⟨hmem, hle⟩ := List.min?_eq_some_iff.mp hm
        simp only [summaryOf, hm, Option.getD_some]
        exact ⟨hmem, hle⟩
  have hgreatest : (summaryOf sqrt v).max ∈ v ∧ ∀ x ∈ v, x ≤ (summaryOf sqrt v).max := by
    cases hm : v.max? with
    | none => exact absurd (List.max?_eq_none_iff.mp hm) h
    | some m =>
        obtain ⟨hmem, hle⟩ := List.max?_eq_some_iff.mp hm
        simp only [summaryOf, hm, Option.getD_some]
        exact ⟨hmem, hle⟩
  refine ⟨rfl, rfl, hleast, hgreatest, ⟨le_mean h hleast.2, mean_le h hgreatest.2⟩,
    spread v, sqrDiff_mean sqrt h, ?_, spread_nonneg h, spread_eq_zero_iff h, ?_, ?_, ?_⟩
  · have hspread := spread_eq h
    rwa [mean, List.length_map] at hspread
  · exact spread_le h fun x hx => ⟨hleast.2 x hx, hgreatest.2 x hx⟩
  · intro c
    have hne : v.map (· + c) ≠ [] := by simpa using h
    rw [sqrDiff_mean sqrt hne, spread_shift h]
  · show (if 0 < spread v then sqrt (spread v) else 0) = _
    rcases (spread_nonneg h).lt_or_eq with hpos | hzero
    · rw [if_pos hpos, if_neg hpos.ne']
    · rw [← hzero, if_neg (lt_irrefl _), if_pos rfl]

/-- Both copies of `handle_result` report true averages and variances. -/
theorem handleResult_summarizes (sqrt : ℚ → ℚ) (result : Dict Text (List ℚ))
    (h : ∀ k v, result.get? k = some v → v ≠ []) :
    ∃ newResult, Uprobe.handleResult (rational sqrt) result = .ok newResult ∧
      Mpk.handleResult (rational sqrt) result = .ok newResult ∧ newResult.keys = result.keys ∧
      ∀ k v, result.get? k = some v →
        ∃ s, newResult.get? k = some s ∧ Summarizes sqrt v s := by
  obtain ⟨huprobe, hmpk⟩ :=
    handleResult_eq (rational sqrt) (fun _ hne => @summarize_eq sqrt _ hne) h
  refine ⟨_, huprobe, hmpk, Dict.keys_mapValues _ _, ?_⟩
  intro k v hv
  refine ⟨summaryOf sqrt v, ?_, summarizes_summaryOf (h k v hv)⟩
  rw [Dict.get?_mapValues, hv, Option.map_some]

/-- Two runs of one benchmark. -/
def twoRuns : Dict Text (List ℚ) := Dict.empty.set "__bench_read".toList [1, 3]

theorem handleResult_summarizes_twoRuns :
    ∃ newResult, Uprobe.handleResult (rational Rat.sqrt) twoRuns = .ok newResult ∧
      Mpk.handleResult (rational Rat.sqrt) twoRuns = .ok newResult ∧
      newResult.keys = twoRuns.keys ∧ ∀ k v, twoRuns.get? k = some v →
        ∃ s, newResult.get? k = some s ∧ Summarizes Rat.sqrt v s := by
  apply handleResult_summarizes Rat.sqrt twoRuns
  intro k v hv
  rw [twoRuns, Dict.get?_set, Dict.get?_empty] at hv
  split at hv
  · rw [← Option.some.inj hv]
    decide
  · cases hv

end BpftimeBenchmark.Micro
