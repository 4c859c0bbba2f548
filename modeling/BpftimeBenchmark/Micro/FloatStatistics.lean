import BpftimeBenchmark.Lib.FloatArithmetic
import BpftimeBenchmark.Micro.RunStatistics

/-!
`handle_result` of the micro-benchmarks on floats as they come, infinities and `nan`
among them. On finite times it computes what it computes on numbers.
-/

namespace BpftimeBenchmark.Micro

/-- `math.sqrt`. -/
def rootOf (sqrt : ℚ → ℚ) : PyFloat → PyFloat
  | .finite q => .finite (sqrt q)
  | x => x

/-- Floats. -/
def floats (sqrt : ℚ → ℚ) : Numbers PyFloat where
  zero := .finite 0
  sum := PyFloat.sum
  square := PyFloat.square
  divide := PyFloat.divide
  sub := PyFloat.sub
  lt := PyFloat.lt
  sqrt := rootOf sqrt
  greatest := PyFloat.greatest
  least := PyFloat.least

abbrev FloatSummary := Summary PyFloat

def Summary.map {α β : Type} (φ : α → β) (s : Summary α) : Summary β :=
  ⟨φ s.max, φ s.min, φ s.avg, φ s.stdDev, s.rawValues.map φ⟩

/-- What a summary says about the times, finite or not. -/
structure SummaryOf (sqrt : ℚ → ℚ) (v : List PyFloat) (s : FloatSummary) : Prop where
  rawValues : s.rawValues = v
  greatest : s.max ∈ v ∧ ∀ x ∈ v, s.max.lt x = false
  least : s.min ∈ v ∧ ∀ x ∈ v, x.lt s.min = false
  exact : ∀ q : List ℚ, v = q.map .finite → ∃ e, Summarizes sqrt q e ∧ s = e.map .finite
  infinite : ∀ negative, s.avg = .infinite negative ↔
    .nan ∉ v ∧ .infinite negative ∈ v ∧ .infinite (!negative) ∉ v
  undefined : s.avg = .nan ↔ .nan ∈ v ∨ (.infinite true ∈ v ∧ .infinite false ∈ v)
  flat : (∃ x ∈ v, ¬x.IsFinite) → s.stdDev = .finite 0

section Model

variable {α β : Type} {N : Numbers α} {M : Numbers β} {φ : α → β}

/-- Some of the numbers of the one are those of the other. -/
structure Numbers.Model (N : Numbers α) (M : Numbers β) (φ : α → β) : Prop where
  zero : M.zero = φ N.zero
  sum : ∀ v, M.sum (v.map φ) = φ (N.sum v)
  square : ∀ x, M.square (φ x) = φ (N.square x)
  divide : ∀ x n, M.divide (φ x) n = (N.divide x n).map φ
  sub : ∀ x y, M.sub (φ x) (φ y) = φ (N.sub x y)
  lt : ∀ x y, M.lt (φ x) (φ y) = N.lt x y
  sqrt : ∀ x, M.sqrt (φ x) = φ (N.sqrt x)
  greatest : ∀ v, M.greatest (v.map φ) = (N.greatest v).map φ
  least : ∀ v, M.least (v.map φ) = (N.least v).map φ

variable (h : N.Model M φ)

include h

theorem sqrDiff_map (v : List α) (avg : α) :
    sqrDiff M (v.map φ) (φ avg) = (sqrDiff N v avg).map φ := by
  have hsquares : (v.map φ).map M.square = (v.map N.square).map φ := by
    rw [List.map_map, List.map_map]
    exact List.map_congr_left fun x _ => h.square x
  rw [sqrDiff, sqrDiff, hsquares, h.sum, List.length_map, h.divide, h.square]
  cases N.divide (N.sum (v.map N.square)) v.length with
  | error e => rfl
  | ok meanSquare => exact congrArg Except.ok (h.sub _ _)

/-- They are summarized alike. -/
theorem summarize_map (v : List α) :
    summarize M (v.map φ) = (summarize N v).map (Summary.map φ) := by
  rw [summarize, summarize, h.sum, List.length_map, h.divide]
  cases N.divide (N.sum v) v.length with
  | error e => rfl
  | ok avg =>
      have hdiff := sqrDiff_map h v avg
      simp only [Except.map, ok_bind, hdiff, h.greatest, h.least]
      cases sqrDiff N v avg with
      | error e => rfl
      | ok diff =>
          cases N.greatest v with
          | error e => rfl
          | ok greatest =>
              cases N.least v with
              | error e => rfl
              | ok least =>
                  have hstdDev : (if M.lt M.zero (φ diff) then M.sqrt (φ diff) else M.zero) =
                      φ (if N.lt N.zero diff then N.sqrt diff else N.zero) := by
                    rw [h.zero, h.lt, h.sqrt, apply_ite φ]
                  simp only [ok_bind, hstdDev]
                  rfl

end Model

variable {sqrt : ℚ → ℚ} {v : List PyFloat}

theorem greatest_map_finite (q : List ℚ) :
    PyFloat.greatest (q.map .finite) = (PyStatistics.maximum q).map .finite := by
  by_cases h : q = []
  · rw [h]
    rfl
  · obtain ⟨m, hm, hmem, hbound⟩ := PyFloat.greatest_spec (v := q.map .finite) (by simpa using h)
    obtain ⟨p, hp, rfl⟩ := List.mem_map.mp hmem
    have hmax : q.max? = some p := by
      refine List.max?_eq_some_iff.mpr ⟨hp, fun x hx => ?_⟩
      have hx := hbound _ (List.mem_map_of_mem hx)
      exact le_of_not_gt (of_decide_eq_false hx)
    rw [hm, PyStatistics.maximum, hmax]
    rfl

theorem least_map_finite (q : List ℚ) :
    PyFloat.least (q.map .finite) = (PyStatistics.minimum q).map .finite := by
  by_cases h : q = []
  · rw [h]
    rfl
  · obtain ⟨m, hm, hmem, hbound⟩ := PyFloat.least_spec (v := q.map .finite) (by simpa using h)
    obtain ⟨p, hp, rfl⟩ := List.mem_map.mp hmem
    have hmin : q.min? = some p := by
      refine List.min?_eq_some_iff.mpr ⟨hp, fun x hx => ?_⟩
      have hx := hbound _ (List.mem_map_of_mem hx)
      exact le_of_not_gt (of_decide_eq_false hx)
    rw [hm, PyStatistics.minimum, hmin]
    rfl

/-- The finite floats are the rational numbers. -/
theorem model_finite (sqrt : ℚ → ℚ) : (rational sqrt).Model (floats sqrt) .finite where
  zero := rfl
  sum := PyFloat.sum_map_finite
  square _ := rfl
  divide q n := by
    by_cases hn : n = 0 <;> simp [floats, rational, PyFloat.divide, PyFloat.divided, divide, hn,
      Except.map]
  sub _ _ := rfl
  lt _ _ := rfl
  sqrt _ := rfl
  greatest := greatest_map_finite
  least := least_map_finite

theorem divide_floats (x : PyFloat) (h : v ≠ []) :
    (floats sqrt).divide x v.length = .ok (x.divided v.length) :=
  if_neg (List.length_eq_zero_iff.not.mpr h)

theorem sqrDiff_floats (h : v ≠ []) (avg : PyFloat) :
    sqrDiff (floats sqrt) v avg =
      .ok (((PyFloat.sum (v.map PyFloat.square)).divided v.length).sub avg.square) := by
  rw [sqrDiff, divide_floats _ h]
  rfl

/-- Where the times are not all finite, neither is their average, and no number remains of
the difference of the squares. -/
theorem sqrDiff_of_not_finite {x : PyFloat} (hx : x ∈ v) (h : ¬x.IsFinite) :
    sqrDiff (floats sqrt) v ((PyFloat.sum v).divided v.length) = .ok .nan := by
  rw [sqrDiff_floats (List.ne_nil_of_mem hx)]
  have hsum := PyFloat.sumOf_sum v
  cases htotal : PyFloat.sum v with
  | nan => cases PyFloat.sum (v.map PyFloat.square) <;> rfl
  | infinite s =>
      rw [htotal] at hsum
      obtain ⟨hnan, hmem, -⟩ := hsum
      have hsquares : PyFloat.sum (v.map PyFloat.square) = .infinite false := by
        refine PyFloat.sum_eq_infinite.mpr ⟨PyFloat.mem_map_square_nan.not.mpr hnan,
          PyFloat.mem_map_square_infinite.mpr ⟨rfl, s, hmem⟩, fun hother => ?_⟩
        exact absurd (PyFloat.mem_map_square_infinite.mp hother).1 (by decide)
      rw [hsquares]
      rfl
  | finite q =>
      rw [htotal] at hsum
      exact absurd (hsum x hx) h

theorem divided_eq_infinite {x : PyFloat} {n : Nat} {s : Bool} :
    x.divided n = .infinite s ↔ x = .infinite s := by
  cases x <;> simp [PyFloat.divided]

theorem divided_eq_nan {x : PyFloat} {n : Nat} : x.divided n = .nan ↔ x = .nan := by
  cases x <;> simp [PyFloat.divided]

/-- Whatever the times, the summary is the right one. -/
theorem summarize_floats (h : v ≠ []) :
    ∃ s, summarize (floats sqrt) v = .ok s ∧ SummaryOf sqrt v s := by
  obtain ⟨greatest, hgreatest, hmax⟩ := PyFloat.greatest_spec h
  obtain ⟨least, hleast, hmin⟩ := PyFloat.least_spec h
  obtain ⟨diff, hdiff⟩ : ∃ diff,
      sqrDiff (floats sqrt) v ((PyFloat.sum v).divided v.length) = .ok diff :=
    ⟨_, sqrDiff_floats h _⟩
  have hsummary : summarize (floats sqrt) v =
      .ok ⟨greatest, least, (PyFloat.sum v).divided v.length,
        if (PyFloat.finite 0).lt diff then rootOf sqrt diff else .finite 0, v⟩ := by
    rw [summarize, divide_floats _ h, ok_bind]
    change (do let diff ← sqrDiff (floats sqrt) v ((PyFloat.sum v).divided v.length); _) = _
    rw [hdiff, ok_bind]
    simp only [floats, hgreatest, hleast]
    rfl
  refine ⟨_, hsummary, rfl, hmax, hmin, ?_, fun negative => ?_, ?_, ?_⟩
  · rintro q rfl
    have hq : q ≠ [] := by simpa using h
    rw [summarize_map (model_finite sqrt), summarize_eq hq] at hsummary
    exact ⟨_, summarizes_summaryOf hq, (Except.ok.inj hsummary).symm⟩
  · exact divided_eq_infinite.trans PyFloat.sum_eq_infinite
  · exact divided_eq_nan.trans PyFloat.sum_eq_nan
  · rintro ⟨x, hx, hinfinite⟩
    rw [sqrDiff_of_not_finite hx hinfinite] at hdiff
    rw [← Except.ok.inj hdiff]
    rfl

/-- Both copies of `handle_result` summarize every list of times. -/
theorem handleResult_floats (sqrt : ℚ → ℚ) :
    ∃ summary : List PyFloat → FloatSummary, (∀ v ≠ [], SummaryOf sqrt v (summary v)) ∧
      ∀ result : Dict Text (List PyFloat), (∀ k v, result.get? k = some v → v ≠ []) →
        Uprobe.handleResult (floats sqrt) result = .ok (result.mapValues summary) ∧
        Mpk.handleResult (floats sqrt) result = .ok (result.mapValues summary) := by
  have hexists : ∀ v : List PyFloat, ∃ s,
      v ≠ [] → summarize (floats sqrt) v = .ok s ∧ SummaryOf sqrt v s := by
    intro v
    by_cases h : v = []
    · exact ⟨⟨.nan, .nan, .nan, .nan, []⟩, fun hne => absurd h hne⟩
    · obtain ⟨s, hs⟩ := @summarize_floats sqrt v h
      exact ⟨s, fun _ => hs⟩
  choose summary hsummary using hexists
  exact ⟨summary, fun v hv => (hsummary v hv).2,
    fun result h => handleResult_eq (floats sqrt) (fun v hv => (hsummary v hv).1) h⟩

end BpftimeBenchmark.Micro
