import BpftimeBenchmark.Deepflow.Table
import BpftimeBenchmark.Lib.Dict
import BpftimeBenchmark.Lib.Mean
import Mathlib.Data.List.MinMax
import Mathlib.Data.List.Sort
import Mathlib.Data.Rat.Sqrt

/-!
How `collect_data.py` sums the runs of deepflow's benchmark up and how `plot.py`
averages them again. Numbers are exact; `float` and the square root are parameters.
-/

namespace BpftimeBenchmark.Deepflow

open Text Averages

inductive Protocol where
  | https
  | http
  deriving DecidableEq

inductive TestType where
  | kernelUprobe
  | noProbe
  | noUprobe
  | userUprobe
  deriving DecidableEq

inductive Key where
  | request
  | transfer
  deriving DecidableEq

abbrev Slot := Protocol × TestType

def TestType.name : TestType → Text
  | .kernelUprobe => "kernel-uprobe".toList
  | .noProbe => "no-probe".toList
  | .noUprobe => "no-uprobe".toList
  | .userUprobe => "user-uprobe".toList

/-- `entry_2[key]`. -/
def Record.get {ν : Type} (r : Record ν) : Key → ν
  | .request => r.request
  | .transfer => r.transfer

/-- The list of `data` that a file of this name belongs to. -/
def slotOf (file : Text) : Except PyError (Option Slot) :=
  if startsWith file "test-".toList && ".txt".toList.isSuffixOf file then do
    let stripped := (file.take (file.length - 4)).drop 5
    let protocol := if "--http".toList.isSuffixOf stripped then Protocol.http else .https
    let _idx ← orValueError (int ((((stripped.splitOn '_').headD []).splitOn '-').getLastD []))
    return ([TestType.kernelUprobe, .noUprobe, .noProbe, .userUprobe].find?
      (fun ty => startsWith stripped ty.name)).map (protocol, ·)
  else return none

/-- What is appended to `data` for a file of the directory. -/
def readRun {ν : Type} (float : Text → Option ν) (file : Text × Text) :
    Except PyError (Option (Slot × List (Record ν))) := do
  match ← slotOf file.1 with
  | none => return none
  | some slot =>
      let records ← parseFile float file.2
      return some (slot, records)

structure Stat where
  avg : ℚ
  min : WithTop ℚ
  max : WithBot ℚ
  stdDev : ℚ
  sqrDev : ℚ
  count : Nat
  deriving DecidableEq

/-- The default of `size_diff`. -/
def Stat.new : Stat := ⟨0, ⊤, ⊥, 0, 0, 0⟩

def Stat.add (t : Stat) (x : ℚ) : Stat :=
  { t with
    count := t.count + 1
    avg := t.avg + x
    min := Min.min t.min x
    max := Max.max t.max x
    sqrDev := t.sqrDev + x ^ 2 }

/-- The loop over `ty["details"]`. -/
def sizeDiff (key : Key) (details : List (List (Record ℚ))) : Dict Int Stat :=
  details.foldl (fun d entry =>
    entry.foldl (fun d r => d.accumulate Stat.new (fun t r => t.add (r.get key)) r.size r) d)
    Dict.empty

/-- The loop over `size_diff.values()`, with `sqrt` for the power `0.5`. -/
def Stat.finish (sqrt : ℚ → ℚ) (val : Stat) : Except PyError Stat := do
  let avg ← divide val.avg val.count
  let meanSquare ← divide val.sqrDev val.count
  let sqrDev := meanSquare - avg ^ 2
  return { val with avg, sqrDev, stdDev := sqrt sqrDev }

/-- `ty["statistics"][key]`. -/
def statisticsOf (sqrt : ℚ → ℚ) (key : Key) (details : List (List (Record ℚ))) :
    Except PyError (List (Int × Stat)) := do
  let stats ← (sizeDiff key details).entries.mapM (fun e => do
    let val ← e.2.finish sqrt
    return (e.1, val))
  return stats.mergeSort (fun a b => decide (a.1 ≤ b.1))

abbrev Details := Slot → List (List (Record ℚ))

/-- One turn of the loop over the directory. -/
def collect (float : Text → Option ℚ) (details : Details) (file : Text × Text) :
    Except PyError Details := do
  match ← readRun float file with
  | none => return details
  | some (slot, records) => return Function.update details slot (details slot ++ [records])

structure Data where
  details : Details
  statistics : Slot × Key → List (Int × Stat)

/-- The loops over `data` and the two keys. -/
def slots : List (Slot × Key) :=
  [Protocol.https, .http].flatMap fun protocol =>
    [TestType.kernelUprobe, .noProbe, .noUprobe, .userUprobe].flatMap fun ty =>
      [((protocol, ty), .request), ((protocol, ty), .transfer)]

/-- `main` of `collect_data.py` in a directory with these files, in the order in
which `os.listdir` names them. -/
def collectData (sqrt : ℚ → ℚ) (float : Text → Option ℚ) (dir : List (Text × Text)) :
    Except PyError Data := do
  let details ← dir.foldlM (collect float) (fun _ => [])
  let statistics ← slots.foldlM (fun statistics slot => do
    let stats ← statisticsOf sqrt slot.2 (details slot.1)
    return Function.update statistics slot stats) (fun _ => [])
  return ⟨details, statistics⟩

structure Average where
  request : ℚ
  transfer : ℚ

def Average.get (a : Average) : Key → ℚ
  | .request => a.request
  | .transfer => a.transfer

/-- One turn of the loop over the items in `calculate_averages`. -/
def addItem (sums : Dict Int Average × Dict Int Nat) (item : Record ℚ) :
    Except PyError (Dict Int Average × Dict Int Nat) := do
  let sizeSum := if item.size ∈ sums.1 then sums.1 else sums.1.set item.size ⟨0, 0⟩
  let sizeCount := if item.size ∈ sums.1 then sums.2 else sums.2.set item.size 0
  let sum ← sizeSum.get item.size
  let count ← sizeCount.get item.size
  return (sizeSum.set item.size ⟨sum.request + item.request, sum.transfer + item.transfer⟩,
    sizeCount.set item.size (count + 1))

/-- The loop of `calculate_averages` over the sizes. -/
def averaged (sizeSum : Dict Int Average) (sizeCount : Dict Int Nat) :
    Except PyError (Dict Int Average) :=
  sizeSum.entries.foldlM (fun averages e => do
    let count ← sizeCount.get e.1
    let request ← divide e.2.request count
    let transfer ← divide e.2.transfer count
    return averages.set e.1 ⟨request, transfer⟩) Dict.empty

/-- `averages[sub_key]` for the `details` of the key. -/
def averagesOf (details : List (List (Record ℚ))) : Except PyError (Dict Int Average) := do
  let sums ← details.foldlM (fun sums entryList => entryList.foldlM addItem sums)
    (Dict.empty, Dict.empty)
  averaged sums.1 sums.2

/-- `calculate_averages` of `plot.py`. -/
def calculateAverages (details : TestType → List (List (Record ℚ))) :
    Except PyError (TestType → Dict Int Average) :=
  [TestType.kernelUprobe, .noProbe, .noUprobe, .userUprobe].foldlM (fun averages subKey => do
    let a ← averagesOf (details subKey)
    return Function.update averages subKey a) (fun _ => Dict.empty)

/-- What `data` should hold for one slot. -/
def runs (float : Text → Option ℚ) (dir : List (Text × Text)) (slot : Slot) :
    List (List (Record ℚ)) :=
  dir.filterMap fun file =>
    match readRun float file with
    | .ok (some (s, records)) => if s = slot then some records else none
    | _ => none

/-- The values that were recorded for a size. -/
def valuesAt (key : Key) (records : List (Record ℚ)) (size : Int) : List ℚ :=
  (records.filter (fun r => r.size = size)).map (·.get key)

/-- What the numbers for a list of values are. -/
structure IsStat (sqrt : ℚ → ℚ) (v : List ℚ) (t : Stat) : Prop where
  count : t.count = v.length
  avg : t.avg = v.sum / v.length
  least : ∃ x ∈ v, t.min = x ∧ ∀ y ∈ v, x ≤ y
  greatest : ∃ x ∈ v, t.max = x ∧ ∀ y ∈ v, y ≤ x
  sqrDev : t.sqrDev = (v.map fun x => (x - t.avg) ^ 2).sum / v.length
  stdDev : t.stdDev = sqrt t.sqrDev

/-- Statistics for exactly the sizes that were recorded, by size. -/
structure Describes (sqrt : ℚ → ℚ) (values : Int → List ℚ) (s : List (Int × Stat)) : Prop where
  increasing : (s.map Prod.fst).Pairwise (· < ·)
  sizes : ∀ size, size ∈ s.map Prod.fst ↔ values size ≠ []
  stats : ∀ e ∈ s, IsStat sqrt (values e.1) e.2

/-- The averages are those of the statistics, and for the same sizes. -/
def Agree (key : Key) (averages : Dict Int Average) (s : List (Int × Stat)) : Prop :=
  ∀ size x, (∃ a, averages.get? size = some a ∧ a.get key = x) ↔
    ∃ t, (size, t) ∈ s ∧ t.avg = x

variable {sqrt : ℚ → ℚ} {float : Text → Option ℚ} {key : Key}

/-- What `size_diff` holds for values before they are divided. -/
def total (v : List ℚ) : Stat := ⟨v.sum, v.minimum, v.maximum, 0, (v.map (· ^ 2)).sum, v.length⟩

def statOf (sqrt : ℚ → ℚ) (v : List ℚ) : Stat :=
  ⟨mean v, v.minimum, v.maximum, sqrt (spread v), spread v, v.length⟩

theorem foldl_add (v : List ℚ) : v.foldl Stat.add Stat.new = total v := by
  have hfrom : ∀ t : Stat, v.foldl Stat.add t = ⟨t.avg + v.sum, min t.min v.minimum,
      max t.max v.maximum, t.stdDev, t.sqrDev + (v.map (· ^ 2)).sum, t.count + v.length⟩ := by
    induction v with
    | nil => simp
    | cons x v ih =>
        intro t
        rw [List.foldl_cons, ih]
        simp only [Stat.add, List.sum_cons, List.minimum_cons, List.maximum_cons, List.map_cons,
          List.length_cons, min_assoc, max_assoc, add_assoc, Nat.add_comm v.length]
  rw [hfrom, total, Stat.new]
  simp

theorem finish_total {v : List ℚ} (h : v ≠ []) :
    (total v).finish sqrt = .ok (statOf sqrt v) := by
  have hlength := length_ne_zero (K := ℚ) h
  simp only [Stat.finish, total, divide_of_ne_zero hlength]
  rfl

theorem isStat_statOf {v : List ℚ} (h : v ≠ []) : IsStat sqrt v (statOf sqrt v) where
  count := rfl
  avg := rfl
  least := by
    obtain ⟨x, hx⟩ := WithTop.ne_top_iff_exists.mp (mt List.minimum_eq_top.mp h)
    exact ⟨x, List.minimum_mem hx.symm, hx.symm, fun y hy => List.minimum_le_of_mem hy hx.symm⟩
  greatest := by
    obtain ⟨x, hx⟩ := WithBot.ne_bot_iff_exists.mp (mt List.maximum_eq_bot.mp h)
    exact ⟨x, List.maximum_mem hx.symm, hx.symm, fun y hy => List.le_maximum_of_mem hy hx.symm⟩
  sqrDev := by
    have hspread := spread_eq h
    rwa [mean, List.length_map] at hspread
  stdDev := rfl

/-- The numbers depend on the values, not on their order. -/
theorem IsStat.unique {v w : List ℚ} (h : v.Perm w) {t u : Stat} (ht : IsStat sqrt v t)
    (hu : IsStat sqrt w u) : t = u := by
  have hcount : t.count = u.count := by rw [ht.count, hu.count, h.length_eq]
  have havg : t.avg = u.avg := by rw [ht.avg, hu.avg, h.sum_eq, h.length_eq]
  have hmin : t.min = u.min := by
    obtain ⟨x, hx, htx, hxle⟩ := ht.least
    obtain ⟨y, hy, huy, hyle⟩ := hu.least
    rw [htx, huy, le_antisymm (hxle y (h.mem_iff.mpr hy)) (hyle x (h.mem_iff.mp hx))]
  have hmax : t.max = u.max := by
    obtain ⟨x, hx, htx, hlex⟩ := ht.greatest
    obtain ⟨y, hy, huy, hley⟩ := hu.greatest
    rw [htx, huy, le_antisymm (hley x (h.mem_iff.mp hx)) (hlex y (h.mem_iff.mpr hy))]
  have hsqrDev : t.sqrDev = u.sqrDev := by
    rw [ht.sqrDev, hu.sqrDev, havg, (h.map _).sum_eq, h.length_eq]
  have hstdDev : t.stdDev = u.stdDev := by rw [ht.stdDev, hu.stdDev, hsqrDev]
  cases t
  cases u
  simp_all

theorem Describes.keys_unique {f g : Int → List ℚ} (h : ∀ size, (f size).Perm (g size))
    {s s' : List (Int × Stat)} (hs : Describes sqrt f s) (hs' : Describes sqrt g s') :
    s.map Prod.fst = s'.map Prod.fst := by
  apply hs.increasing.eq_of_mem_iff hs'.increasing
  intro size
  have hnil : f size = [] ↔ g size = [] :=
    ⟨fun hf => (hf ▸ h size).nil_eq.symm, fun hg => (hg ▸ h size).eq_nil⟩
  rw [hs.sizes, hs'.sizes, ne_eq, ne_eq, hnil]

theorem Describes.unique {f g : Int → List ℚ} (h : ∀ size, (f size).Perm (g size))
    {s s' : List (Int × Stat)} (hs : Describes sqrt f s) (hs' : Describes sqrt g s') :
    s = s' := by
  have hkeys := hs.keys_unique h hs'
  have hlength : s.length = s'.length := by simpa using congrArg List.length hkeys
  apply List.ext_getElem hlength
  intro i hi hi'
  have hfst : s[i].1 = s'[i].1 := by
    have hget := List.getElem_of_eq hkeys (i := i) (by simpa using hi)
    simpa using hget
  have hperm : (f s[i].1).Perm (g s'[i].1) := hfst ▸ h s[i].1
  exact Prod.ext hfst (IsStat.unique hperm (hs.stats _ (List.getElem_mem hi))
    (hs'.stats _ (List.getElem_mem hi')))

/-- The records of each size. -/
def group (records : List (Record ℚ)) : Dict Int (List (Record ℚ)) :=
  Dict.empty.pushAll (records.map fun r => (r.size, r))

theorem get?_group (records : List (Record ℚ)) (size : Int) :
    (group records).get? size =
      if records.filter (fun r => r.size = size) = [] then none
      else some (records.filter (fun r => r.size = size)) := by
  have hvalues := Dict.getD_pushAll (records.map fun r => (r.size, r)) Dict.empty size
  rw [Dict.get?_empty, Option.getD_none, List.nil_append, Dict.valuesOf_keyed] at hvalues
  have hmem : size ∈ group records ↔ records.filter (fun r => r.size = size) ≠ [] := by
    rw [group, Dict.mem_pushAll, List.map_map, ne_eq, List.filter_eq_nil_iff]
    simp [Dict.mem_keys, Dict.keys, Dict.empty]
  split
  · rename_i hnil
    exact Dict.get?_eq_none.mpr (mt hmem.mp (not_not.mpr hnil))
  · rename_i hne
    rw [Dict.get?_of_mem (hmem.mpr hne) [], group, hvalues]

theorem sizeDiff_eq (details : List (List (Record ℚ))) :
    sizeDiff key details = (group details.flatten).mapValues
      (fun rs => total (rs.map (·.get key))) := by
  have hfold := Dict.foldl_accumulate Stat.new (fun (t : Stat) (r : Record ℚ) => t.add (r.get key))
    (details.flatten.map fun r => (r.size, r))
  rw [List.foldl_map, List.foldl_flatten] at hfold
  rw [sizeDiff, hfold, group]
  congr 1
  funext rs
  rw [← foldl_add, List.foldl_map]

theorem ne_nil_of_mem_group {records : List (Record ℚ)} {e : Int × List (Record ℚ)}
    (h : e ∈ (group records).entries) :
    e.2 = records.filter (fun r => r.size = e.1) ∧ e.2 ≠ [] := by
  have hget := get?_group records e.1
  rw [Dict.mem_entries.mp h] at hget
  split at hget
  · cases hget
  · rename_i hne
    rw [Option.some.inj hget]
    exact ⟨rfl, hne⟩

/-- The statistics of the grouped records, by size. -/
def summary (sqrt : ℚ → ℚ) (key : Key) (records : List (Record ℚ)) : List (Int × Stat) :=
  ((group records).entries.map fun e => (e.1, statOf sqrt (e.2.map (·.get key)))).mergeSort
    (fun a b => decide (a.1 ≤ b.1))

theorem statisticsOf_eq (details : List (List (Record ℚ))) :
    statisticsOf sqrt key details = .ok (summary sqrt key details.flatten) := by
  have hstats : (sizeDiff key details).entries.mapM (fun e => do
      let val ← e.2.finish sqrt
      return (e.1, val)) =
      .ok ((group details.flatten).entries.map fun e =>
        (e.1, statOf sqrt (e.2.map (·.get key)))) := by
    rw [sizeDiff_eq, Dict.mapValues, List.mapM_map]
    apply mapM_ok
    intro e he
    have hne : e.2.map (·.get key) ≠ [] := by simpa using (ne_nil_of_mem_group he).2
    simp only [Function.comp_apply, finish_total hne]
    rfl
  rw [statisticsOf, hstats]
  rfl

theorem describes_summary (records : List (Record ℚ)) :
    Describes sqrt (valuesAt key records) (summary sqrt key records) := by
  have hperm := List.mergeSort_perm
    ((group records).entries.map fun e => (e.1, statOf sqrt (e.2.map (·.get key))))
    (fun a b => decide (a.1 ≤ b.1))
  have hkeys : ((summary sqrt key records).map Prod.fst).Perm (group records).keys := by
    have hfst := hperm.map Prod.fst
    rwa [List.map_map] at hfst
  refine ⟨?_, ?_, ?_⟩
  · have hsorted : ((summary sqrt key records).map Prod.fst).Pairwise (· ≤ ·) := by
      rw [List.pairwise_map]
      exact (List.pairwise_mergeSort (by simp; omega) (by simp; omega) _).imp (by simp)
    have hnodup : ((summary sqrt key records).map Prod.fst).Nodup :=
      hkeys.nodup_iff.mpr (group records).nodup
    exact hsorted.imp₂ (fun a b hle hne => lt_of_le_of_ne hle hne) hnodup
  · intro size
    rw [hkeys.mem_iff, ← Dict.mem_keys, Dict.mem_iff_get?, get?_group, valuesAt]
    simp only [ne_eq, List.map_eq_nil_iff]
    split <;> simp_all
  · intro e he
    obtain ⟨g, hg, rfl⟩ := List.mem_map.mp (hperm.mem_iff.mp he)
    obtain ⟨hvalues, hne⟩ := ne_nil_of_mem_group hg
    have hmap : valuesAt key records g.1 = g.2.map (·.get key) := by rw [valuesAt, hvalues]
    rw [hmap]
    exact isStat_statOf (by simpa using hne)

def Average.add (a : Average) (item : Record ℚ) : Average :=
  ⟨a.request + item.request, a.transfer + item.transfer⟩

theorem addItem_eq {sums : Dict Int Average × Dict Int Nat} {item : Record ℚ}
    (h : item.size ∈ sums.1 ↔ item.size ∈ sums.2) :
    addItem sums item = .ok (sums.1.accumulate ⟨0, 0⟩ Average.add item.size item,
      sums.2.accumulate 0 (fun n _ => n + 1) item.size item) := by
  have hcount : (if item.size ∈ sums.1 then sums.2 else sums.2.set item.size 0) =
      sums.2.setDefault item.size 0 := by
    rw [Dict.setDefault]
    exact if_congr h rfl rfl
  have hsum : (if item.size ∈ sums.1 then sums.1 else sums.1.set item.size ⟨0, 0⟩) =
      sums.1.setDefault item.size ⟨0, 0⟩ := rfl
  simp only [addItem, hcount, hsum, Dict.get_setDefault, Dict.set_setDefault, bind, Except.bind]
  rfl

def sumOf (rs : List (Record ℚ)) : Average :=
  ⟨(rs.map Record.request).sum, (rs.map Record.transfer).sum⟩

theorem foldl_average (rs : List (Record ℚ)) : rs.foldl Average.add ⟨0, 0⟩ = sumOf rs := by
  have hfrom : ∀ a : Average, rs.foldl Average.add a =
      ⟨a.request + (sumOf rs).request, a.transfer + (sumOf rs).transfer⟩ := by
    induction rs with
    | nil => simp [sumOf]
    | cons r rest ih =>
        intro a
        rw [List.foldl_cons, ih]
        simp [sumOf, Average.add, add_assoc]
  rw [hfrom, zero_add, zero_add]

theorem foldlM_addItem (records : List (Record ℚ)) (groups : Dict Int (List (Record ℚ))) :
    records.foldlM addItem (groups.mapValues sumOf, groups.mapValues List.length) =
      .ok ((groups.pushAll (records.map fun r => (r.size, r))).mapValues sumOf,
        (groups.pushAll (records.map fun r => (r.size, r))).mapValues List.length) := by
  have hsum : sumOf = fun rs => rs.foldl Average.add ⟨0, 0⟩ :=
    funext fun rs => (foldl_average rs).symm
  have hcount : List.length = fun rs : List (Record ℚ) => rs.foldl (fun n _ => n + 1) 0 :=
    funext fun rs => by rw [List.foldl_add_const, Nat.zero_add, Nat.one_mul]
  induction records generalizing groups with
  | nil => rfl
  | cons r rest ih =>
      have hstep : addItem (groups.mapValues sumOf, groups.mapValues List.length) r =
          .ok ((groups.push r.size r).mapValues sumOf,
            (groups.push r.size r).mapValues List.length) := by
        rw [addItem_eq (by rw [Dict.mem_mapValues, Dict.mem_mapValues]), hsum, hcount,
          Dict.accumulate_mapValues, Dict.accumulate_mapValues]
      rw [List.foldlM_cons, hstep]
      exact ih (groups.push r.size r)

theorem foldlM_flatten {α β : Type} (step : β → α → Except PyError β) (l : List (List α)) (b : β) :
    l.foldlM (fun b inner => inner.foldlM step b) b = l.flatten.foldlM step b := by
  induction l generalizing b with
  | nil => rfl
  | cons inner rest ih =>
      rw [List.foldlM_cons, List.flatten_cons, List.foldlM_append]
      simp only [ih]

def averageOf (rs : List (Record ℚ)) : Average :=
  ⟨mean (rs.map Record.request), mean (rs.map Record.transfer)⟩

theorem averaged_eq (records : List (Record ℚ)) :
    averaged ((group records).mapValues sumOf) ((group records).mapValues List.length) =
      .ok ((group records).mapValues averageOf) := by
  have hentries : ((group records).mapValues sumOf).entries =
      (group records).entries.map fun e => (e.1, sumOf e.2) := rfl
  rw [averaged, hentries, List.foldlM_map, ← Dict.foldl_set_eq_mapValues averageOf]
  apply foldlM_ok
  intro averages e he
  have hlength : (e.2.length : ℚ) ≠ 0 :=
    Nat.cast_ne_zero.mpr (List.length_pos_iff.mpr (ne_nil_of_mem_group he).2).ne'
  have hcount : ((group records).mapValues List.length).get e.1 = .ok e.2.length := by
    rw [Dict.get, Dict.get?_mapValues, Dict.mem_entries.mp he]
    rfl
  simp only [hcount, bind, Except.bind, divide_of_ne_zero hlength, averageOf, mean,
    List.length_map, sumOf]
  rfl

theorem averagesOf_eq (details : List (List (Record ℚ))) :
    averagesOf details = .ok ((group details.flatten).mapValues averageOf) := by
  have hsums := foldlM_addItem details.flatten Dict.empty
  rw [← foldlM_flatten] at hsums
  have hempty : ∀ μ, ∀ f : List (Record ℚ) → μ,
      (Dict.empty : Dict Int (List (Record ℚ))).mapValues f = Dict.empty := fun _ _ => rfl
  rw [hempty, hempty] at hsums
  rw [averagesOf, hsums]
  exact averaged_eq details.flatten

/-- The averages of `plot.py` are those of the statistics. -/
theorem agree_summary (records : List (Record ℚ)) :
    Agree key ((group records).mapValues averageOf) (summary sqrt key records) := by
  have hget : ∀ rs, (averageOf rs).get key = mean (rs.map (·.get key)) := by
    intro rs
    cases key <;> rfl
  have hmem : ∀ e, e ∈ summary sqrt key records ↔
      ∃ rs, (group records).get? e.1 = some rs ∧ e.2 = statOf sqrt (rs.map (·.get key)) := by
    rintro ⟨size, t⟩
    rw [summary, (List.mergeSort_perm _ _).mem_iff, List.mem_map]
    constructor
    · rintro ⟨⟨size', rs⟩, hrs, heq⟩
      cases heq
      exact ⟨rs, Dict.mem_entries.mp hrs, rfl⟩
    · rintro ⟨rs, hrs, rfl⟩
      exact ⟨(size, rs), Dict.mem_entries.mpr hrs, rfl⟩
  intro size x
  rw [Dict.get?_mapValues]
  constructor
  · rintro ⟨a, ha, rfl⟩
    obtain ⟨rs, hrs, rfl⟩ := Option.map_eq_some_iff.mp ha
    exact ⟨_, (hmem _).mpr ⟨rs, hrs, rfl⟩, (hget rs).symm⟩
  · rintro ⟨t, ht, rfl⟩
    obtain ⟨rs, hrs, rfl⟩ := (hmem _).mp ht
    exact ⟨averageOf rs, by rw [hrs]; rfl, hget rs⟩

/-- A loop that sets every index to its value. -/
theorem foldlM_update {ι β : Type} [DecidableEq ι] {compute : ι → Except PyError β} {f : ι → β}
    (hf : ∀ i, compute i = .ok (f i)) (l : List ι) (init : ι → β) :
    ∃ g, l.foldlM (fun s i => do
        let b ← compute i
        return Function.update s i b) init = .ok g ∧
      ∀ i, i ∈ l ∨ init i = f i → g i = f i := by
  induction l generalizing init with
  | nil => exact ⟨init, rfl, fun i hi => hi.resolve_left List.not_mem_nil⟩
  | cons i rest ih =>
      obtain ⟨g, hg, hvalues⟩ := ih (Function.update init i (f i))
      refine ⟨g, ?_, ?_⟩
      · rw [List.foldlM_cons, hf i]
        exact hg
      · intro j hj
        apply hvalues
        rcases hj with hj | hj
        · rcases List.mem_cons.mp hj with rfl | hj
          · exact Or.inr (Function.update_self ..)
          · exact Or.inl hj
        · right
          by_cases hij : j = i
          · rw [hij, Function.update_self]
          · rw [Function.update_of_ne hij, hj]

theorem collect_eq {details : Details} {file : Text × Text}
    (h : ∃ r, readRun float file = .ok r) :
    collect float details file = .ok (fun slot => details slot ++ runs float [file] slot) := by
  obtain ⟨r, hr⟩ := h
  rw [collect, hr]
  cases r with
  | none =>
      have hruns : ∀ slot, runs float [file] slot = [] := by simp [runs, hr]
      simp only [hruns, List.append_nil]
      rfl
  | some run =>
      obtain ⟨slot, records⟩ := run
      show Except.ok (Function.update details slot (details slot ++ [records])) = _
      congr 1
      funext s
      by_cases hs : slot = s
      · subst hs
        simp [runs, hr]
      · rw [Function.update_of_ne (Ne.symm hs)]
        simp [runs, hr, hs]

theorem foldlM_collect {dir : List (Text × Text)}
    (h : ∀ file ∈ dir, ∃ r, readRun float file = .ok r) (details : Details) :
    dir.foldlM (collect float) details = .ok (fun slot => details slot ++ runs float dir slot) := by
  induction dir generalizing details with
  | nil =>
      simp only [List.foldlM_nil, runs, List.filterMap_nil, List.append_nil]
      rfl
  | cons file rest ih =>
      have hcons : ∀ slot, runs float (file :: rest) slot =
          runs float [file] slot ++ runs float rest slot := fun slot => by
        rw [runs, runs, runs, ← List.filterMap_append]
        rfl
      rw [List.foldlM_cons, collect_eq (h file List.mem_cons_self)]
      refine (ih (fun f hf => h f (List.mem_cons_of_mem _ hf)) _).trans ?_
      simp only [hcons, List.append_assoc]

theorem mem_slots (slot : Slot × Key) : slot ∈ slots := by
  obtain ⟨⟨protocol, ty⟩, key⟩ := slot
  cases protocol <;> cases ty <;> cases key <;> decide

/-- What `collect_data.py` stores for a directory whose files can be read. -/
theorem collectData_eq {dir : List (Text × Text)}
    (h : ∀ file ∈ dir, ∃ r, readRun float file = .ok r) :
    collectData sqrt float dir = .ok ⟨runs float dir,
      fun slot => summary sqrt slot.2 (runs float dir slot.1).flatten⟩ := by
  obtain ⟨statistics, hstatistics, hvalues⟩ := foldlM_update
    (fun slot : Slot × Key => @statisticsOf_eq sqrt slot.2 (runs float dir slot.1))
    slots (fun _ => [])
  have hdetails := foldlM_collect h fun _ => []
  simp only [List.nil_append] at hdetails
  have hsummary : statistics = fun slot => summary sqrt slot.2 (runs float dir slot.1).flatten :=
    funext fun slot => hvalues slot (Or.inl (mem_slots slot))
  rw [hsummary] at hstatistics
  rw [collectData, hdetails]
  exact congrArg (· >>= fun statistics => pure (Data.mk (runs float dir) statistics)) hstatistics

theorem calculateAverages_eq (details : TestType → List (List (Record ℚ))) :
    calculateAverages details =
      .ok fun ty => (group (details ty).flatten).mapValues averageOf := by
  obtain ⟨averages, haverages, hvalues⟩ := foldlM_update
    (fun ty : TestType => averagesOf_eq (details ty))
    [TestType.kernelUprobe, .noProbe, .noUprobe, .userUprobe] (fun _ => Dict.empty)
  rw [calculateAverages, haverages]
  congr 1
  funext ty
  exact hvalues ty (Or.inl (by cases ty <;> decide))

/-- The statistics do not depend on the order in which the files are named, they are
those of the recorded values, and `plot.py` computes the same averages. -/
theorem collectData_summarizes (sqrt : ℚ → ℚ) (float : Text → Option ℚ)
    (dir dir' : List (Text × Text)) (hperm : dir'.Perm dir)
    (h : ∀ file ∈ dir, ∃ r, readRun float file = .ok r) :
    ∃ data data', collectData sqrt float dir = .ok data ∧ collectData sqrt float dir' = .ok data' ∧
      data.details = runs float dir ∧ data'.statistics = data.statistics ∧
      (∀ slot, Describes sqrt (valuesAt slot.2 (data.details slot.1).flatten)
        (data.statistics slot)) ∧
      ∀ protocol, ∃ averages,
        calculateAverages (fun ty => data.details (protocol, ty)) = .ok averages ∧
        ∀ ty key, Agree key (averages ty) (data.statistics ((protocol, ty), key)) := by
  have h' : ∀ file ∈ dir', ∃ r, readRun float file = .ok r :=
    fun file hfile => h file (hperm.mem_iff.mp hfile)
  refine ⟨_, _, collectData_eq h, collectData_eq h', rfl, ?_, ?_, ?_⟩
  · funext slot
    have hvalues : ∀ size, (valuesAt slot.2 (runs float dir' slot.1).flatten size).Perm
        (valuesAt slot.2 (runs float dir slot.1).flatten size) :=
      fun size => (((hperm.filterMap _).flatten).filter _).map _
    exact (describes_summary _).unique hvalues (describes_summary _)
  · exact fun slot => describes_summary _
  · exact fun protocol => ⟨_, calculateAverages_eq _, fun ty key => agree_summary _⟩

/-- Two runs of one kind, and a file that is no run. -/
def twoRuns : List (Text × Text) :=
  [("test-no-probe-1_--http.txt".toList,
      "|1 KB       |380.75        |1.5MB         |\n|2 KB       |290.0         |4.0MB         |\n\n".toList),
    ("test-no-probe-2_--http.txt".toList, "|1 KB       |379.25        |2.5MB         |\n\n".toList),
    ("plot.py".toList, [])]

theorem collectData_summarizes_twoRuns :
    ∃ data data', collectData Rat.sqrt finiteFloat twoRuns = .ok data ∧
      collectData Rat.sqrt finiteFloat twoRuns.reverse = .ok data' ∧
      data.details = runs finiteFloat twoRuns ∧ data'.statistics = data.statistics ∧
      (∀ slot, Describes Rat.sqrt (valuesAt slot.2 (data.details slot.1).flatten)
        (data.statistics slot)) ∧
      ∀ protocol, ∃ averages,
        calculateAverages (fun ty => data.details (protocol, ty)) = .ok averages ∧
        ∀ ty key, Agree key (averages ty) (data.statistics ((protocol, ty), key)) := by
  refine collectData_summarizes Rat.sqrt finiteFloat twoRuns twoRuns.reverse
    (List.reverse_perm twoRuns) ?_
  have hread : ∀ file ∈ twoRuns, (readRun finiteFloat file).toBool = true := by
    decide +kernel
  intro file hfile
  cases hr : readRun finiteFloat file with
  | ok r => exact ⟨r, rfl⟩
  | error e =>
      have hok := hread file hfile
      rw [hr] at hok
      cases hok

end BpftimeBenchmark.Deepflow
