import BpftimeBenchmark.Lib.Dict
import BpftimeBenchmark.Lib.Text

/-!
How the micro-benchmark suites collect the runs of the victim. The uprobe suite
takes the names of the first run for those of all runs; the mpk suite adds a name
when it first appears.
-/

namespace BpftimeBenchmark.Micro

variable {ν : Type}

/-- `result[k].append(v)`. -/
def appendValue (result : Dict Text (List ν)) (k : Text) (v : ν) :
    Except PyError (Dict Text (List ν)) := do
  let values ← result.get k
  return result.set k (values ++ [v])

/-- `{k: [v] for k, v in curr.items()}`. -/
def singletons (curr : Dict Text ν) : Dict Text (List ν) := curr.mapValues (fun v => [v])

/-- The merge loop of `uprobe/benchmark.py`. -/
def uprobeMerge (result : Option (Dict Text (List ν))) (curr : Dict Text ν) :
    Except PyError (Option (Dict Text (List ν))) :=
  match result with
  | none => .ok (some (singletons curr))
  | some result => do
      let result ← curr.entries.foldlM (fun result e => appendValue result e.1 e.2) result
      return some result

def appendOrAdd (result : Dict Text (List ν)) (k : Text) (v : ν) :
    Except PyError (Dict Text (List ν)) :=
  if k ∈ result then appendValue result k v else .ok (result.set k [v])

/-- The merge loop of `mpk/benchmark.py`. -/
def mpkMerge (result : Dict Text (List ν)) (curr : Dict Text ν) :
    Except PyError (Dict Text (List ν)) :=
  if result.isEmpty then .ok (singletons curr)
  else curr.entries.foldlM (fun result e => appendOrAdd result e.1 e.2) result

/-- `result` after the loop of `run_userspace_uprobe_test`. -/
def userspaceUprobeResult (runs : List (Dict Text ν)) :
    Except PyError (Option (Dict Text (List ν))) := runs.foldlM uprobeMerge none

/-- `result` after the loop of `run_kernel_uprobe_test`. -/
def kernelUprobeResult (runs : List (Dict Text ν)) :
    Except PyError (Option (Dict Text (List ν))) := runs.foldlM uprobeMerge none

/-- `result` after the loop of `run_mpk_test`. -/
def mpkResult (runs : List (Dict Text ν)) : Except PyError (Dict Text (List ν)) :=
  runs.foldlM mpkMerge Dict.empty

/-- `result` after the loop of `run_standard_test`. -/
def standardResult (runs : List (Dict Text ν)) : Except PyError (Dict Text (List ν)) :=
  runs.foldlM mpkMerge Dict.empty

/-- The values of the runs that reported the name, in the order of the runs. -/
def reported (runs : List (Dict Text ν)) (k : Text) : List ν :=
  runs.filterMap (fun run => run.get? k)

/-- What the loops are for: every name that occurs, with all its values. -/
structure Collected (runs : List (Dict Text ν)) (d : Dict Text (List ν)) : Prop where
  names : ∀ k, k ∈ d ↔ ∃ run ∈ runs, k ∈ run
  values : ∀ k ∈ d, d.get? k = some (reported runs k)

/-- All four loops end with the same dictionary, and it is the right one. -/
def MergedAlike (runs : List (Dict Text ν)) : Prop :=
  ∃ d, userspaceUprobeResult runs = .ok (some d) ∧ kernelUprobeResult runs = .ok (some d) ∧
    mpkResult runs = .ok d ∧ standardResult runs = .ok d ∧ Collected runs d

/-- There is a first run, and it reported every name that a later one did. -/
def FirstNamesAll : List (Dict Text ν) → Prop
  | [] => False
  | first :: rest => ∀ run ∈ rest, ∀ k ∈ run, k ∈ first

/-- Every value of a run at the end of the list of its name. -/
def absorb (d : Dict Text (List ν)) (curr : Dict Text ν) : Dict Text (List ν) :=
  d.pushAll curr.entries

theorem appendValue_of_mem {d : Dict Text (List ν)} {k : Text} (h : k ∈ d) (v : ν) :
    appendValue d k v = .ok (d.push k v) := by
  obtain ⟨vs, hvs⟩ := Dict.mem_iff_get?.mp h
  simp only [appendValue, Dict.get, hvs, Dict.push, Option.getD_some]
  rfl

theorem appendValue_of_not_mem {d : Dict Text (List ν)} {k : Text} (h : k ∉ d) (v : ν) :
    appendValue d k v = .error .keyError := by
  simp only [appendValue, Dict.get, Dict.get?_eq_none.mpr h]
  rfl

theorem appendOrAdd_eq (d : Dict Text (List ν)) (k : Text) (v : ν) :
    appendOrAdd d k v = .ok (d.push k v) := by
  unfold appendOrAdd
  split
  · rename_i hk
    exact appendValue_of_mem hk v
  · rename_i hk
    simp [Dict.push, Dict.get?_eq_none.mpr hk]

theorem mem_absorb {d : Dict Text (List ν)} {curr : Dict Text ν} {k : Text} :
    k ∈ absorb d curr ↔ k ∈ d ∨ k ∈ curr := Dict.mem_pushAll

theorem getD_absorb (d : Dict Text (List ν)) (curr : Dict Text ν) (k : Text) :
    ((absorb d curr).get? k).getD [] = (d.get? k).getD [] ++ (curr.get? k).toList := by
  rw [absorb, Dict.getD_pushAll, Dict.valuesOf_entries]

theorem mem_singletons {curr : Dict Text ν} {k : Text} : k ∈ singletons curr ↔ k ∈ curr := by
  rw [Dict.mem_keys, Dict.mem_keys, singletons, Dict.keys_mapValues]

theorem absorb_empty (curr : Dict Text ν) : absorb Dict.empty curr = singletons curr := by
  apply Dict.ext_get?
  · have hempty : (Dict.empty : Dict Text (List ν)).keys = [] := rfl
    rw [absorb, Dict.keys_pushAll (by simpa [hempty] using curr.nodup), hempty,
      List.nil_append, singletons, Dict.keys_mapValues]
    rfl
  · intro k
    by_cases hk : k ∈ curr
    · obtain ⟨v, hv⟩ := Dict.mem_iff_get?.mp hk
      rw [Dict.get?_of_mem (mem_absorb.mpr (Or.inr hk)) [], getD_absorb, singletons,
        Dict.get?_mapValues, hv]
      rfl
    · have hleft : k ∉ absorb Dict.empty curr := by
        rw [mem_absorb]
        rintro (hempty | hcurr)
        · cases hempty
        · exact hk hcurr
      rw [Dict.get?_eq_none.mpr hleft, Dict.get?_eq_none.mpr (mem_singletons.not.mpr hk)]

theorem mpkMerge_eq (d : Dict Text (List ν)) (curr : Dict Text ν) :
    mpkMerge d curr = .ok (absorb d curr) := by
  unfold mpkMerge
  split
  · rename_i hempty
    have hd : d = Dict.empty := Dict.ext_entries (List.isEmpty_iff.mp hempty)
    rw [hd, absorb_empty]
  · simp only [appendOrAdd_eq]
    exact List.foldlM_pure

theorem mpkResult_eq (runs : List (Dict Text ν)) :
    mpkResult runs = .ok (runs.foldl absorb Dict.empty) := by
  have hmerge : (mpkMerge : Dict Text (List ν) → Dict Text ν → _) =
      fun d curr => .ok (absorb d curr) := by
    funext d curr
    exact mpkMerge_eq d curr
  rw [mpkResult, hmerge]
  exact List.foldlM_pure

theorem collected_empty : Collected ([] : List (Dict Text ν)) Dict.empty where
  names k := by simp [Dict.mem_keys, Dict.empty, Dict.keys]
  values k hk := by cases hk

theorem Collected.getD {runs : List (Dict Text ν)} {d : Dict Text (List ν)}
    (h : Collected runs d) (k : Text) : (d.get? k).getD [] = reported runs k := by
  by_cases hk : k ∈ d
  · rw [h.values k hk, Option.getD_some]
  · rw [Dict.get?_eq_none.mpr hk, Option.getD_none, eq_comm]
    apply List.filterMap_eq_nil_iff.mpr
    intro run hrun
    rw [Dict.get?_eq_none]
    intro hmem
    exact hk ((h.names k).mpr ⟨run, hrun, hmem⟩)

theorem reported_concat (runs : List (Dict Text ν)) (curr : Dict Text ν) (k : Text) :
    reported (runs ++ [curr]) k = reported runs k ++ (curr.get? k).toList := by
  rw [reported, List.filterMap_append]
  cases hcurr : curr.get? k <;> simp [reported, hcurr]

theorem collected_absorb {runs : List (Dict Text ν)} {d : Dict Text (List ν)}
    (h : Collected runs d) (curr : Dict Text ν) :
    Collected (runs ++ [curr]) (absorb d curr) where
  names k := by
    rw [mem_absorb, h.names k]
    simp [or_and_right, exists_or]
  values k hk := by
    rw [Dict.get?_of_mem hk [], getD_absorb, h.getD, reported_concat]

/-- What has been collected grows by the values of each further run. -/
theorem collected_foldl {runs : List (Dict Text ν)} {d : Dict Text (List ν)}
    (h : Collected runs d) (rest : List (Dict Text ν)) :
    Collected (runs ++ rest) (rest.foldl absorb d) := by
  induction rest generalizing runs d with
  | nil => simpa using h
  | cons curr rest ih =>
      have hnext := ih (collected_absorb h curr)
      rwa [List.append_assoc] at hnext

theorem mem_push_of_mem {d : Dict Text (List ν)} {k : Text} (h : k ∈ d) (v : ν) (k' : Text) :
    k' ∈ d.push k v ↔ k' ∈ d := by
  rw [Dict.mem_push]
  constructor
  · rintro (rfl | hk')
    · exact h
    · exact hk'
  · exact Or.inr

/-- Appending raises at the first name that the dictionary lacks. -/
theorem foldlM_appendValue (l : List (Text × ν)) (d : Dict Text (List ν)) :
    l.foldlM (fun d e => appendValue d e.1 e.2) d =
      if ∀ k ∈ l.map Prod.fst, k ∈ d then .ok (d.pushAll l) else .error .keyError := by
  induction l generalizing d with
  | nil => simp [pure, Except.pure, Dict.pushAll]
  | cons e rest ih =>
      rw [List.foldlM_cons]
      by_cases hk : e.1 ∈ d
      · rw [appendValue_of_mem hk]
        simp only [bind, Except.bind, ih, mem_push_of_mem hk, List.map_cons,
          List.forall_mem_cons, hk, true_and]
        rfl
      · rw [appendValue_of_not_mem hk, if_neg]
        · rfl
        · intro hall
          exact hk (hall _ List.mem_cons_self)

theorem uprobeMerge_some (d : Dict Text (List ν)) (curr : Dict Text ν) :
    uprobeMerge (some d) curr =
      if ∀ k ∈ curr.keys, k ∈ d then .ok (some (absorb d curr)) else .error .keyError := by
  rw [uprobeMerge, foldlM_appendValue]
  by_cases hall : ∀ k ∈ curr.keys, k ∈ d
  · rw [if_pos hall, if_pos (by exact hall)]
    rfl
  · rw [if_neg hall, if_neg (by exact hall)]
    rfl

theorem mem_absorb_of_subset {d : Dict Text (List ν)} {curr : Dict Text ν}
    (h : ∀ k ∈ curr.keys, k ∈ d) (k : Text) : k ∈ absorb d curr ↔ k ∈ d := by
  rw [mem_absorb]
  exact ⟨fun hk => hk.elim id (h k), Or.inl⟩

theorem foldlM_uprobeMerge (rest : List (Dict Text ν)) (d : Dict Text (List ν)) :
    rest.foldlM uprobeMerge (some d) =
      if ∀ run ∈ rest, ∀ k ∈ run.keys, k ∈ d then .ok (some (rest.foldl absorb d))
      else .error .keyError := by
  induction rest generalizing d with
  | nil => simp [pure, Except.pure]
  | cons curr rest ih =>
      rw [List.foldlM_cons, uprobeMerge_some]
      by_cases hall : ∀ k ∈ curr.keys, k ∈ d
      · rw [if_pos hall]
        simp only [bind, Except.bind, ih, mem_absorb_of_subset hall, List.foldl_cons]
        apply if_congr _ rfl rfl
        rw [List.forall_mem_cons, and_iff_right hall]
      · rw [if_neg hall, if_neg (fun h => hall (h curr List.mem_cons_self))]
        rfl

theorem userspaceUprobeResult_of_namesAll {runs : List (Dict Text ν)}
    (h : FirstNamesAll runs) :
    userspaceUprobeResult runs = .ok (some (runs.foldl absorb Dict.empty)) := by
  cases runs with
  | nil => exact absurd h id
  | cons first rest =>
      have hstep : userspaceUprobeResult (first :: rest) =
          rest.foldlM uprobeMerge (some (singletons first)) := rfl
      rw [hstep, foldlM_uprobeMerge, if_pos, List.foldl_cons, absorb_empty]
      intro run hrun k hk
      exact mem_singletons.mpr (h run hrun k hk)

theorem namesAll_of_userspaceUprobeResult {runs : List (Dict Text ν)}
    {d : Dict Text (List ν)} (h : userspaceUprobeResult runs = .ok (some d)) :
    FirstNamesAll runs := by
  cases runs with
  | nil => cases h
  | cons first rest =>
      have hstep : userspaceUprobeResult (first :: rest) =
          rest.foldlM uprobeMerge (some (singletons first)) := rfl
      rw [hstep, foldlM_uprobeMerge] at h
      split at h
      · rename_i hall
        intro run hrun k hk
        exact mem_singletons.mp (hall run hrun k hk)
      · cases h

/-- The uprobe suite merges runs as the mpk suite does exactly if no run reports a
name that the first one lacks. -/
theorem mergedAlike_iff (runs : List (Dict Text ν)) :
    MergedAlike runs ↔ FirstNamesAll runs := by
  constructor
  · rintro ⟨d, huprobe, -⟩
    exact namesAll_of_userspaceUprobeResult huprobe
  · intro h
    refine ⟨runs.foldl absorb Dict.empty, userspaceUprobeResult_of_namesAll h,
      userspaceUprobeResult_of_namesAll h, mpkResult_eq runs, mpkResult_eq runs, ?_⟩
    exact collected_foldl collected_empty runs

/-- The first run crashed before it had printed a time, the second did not. -/
def crashedFirst : List (Dict Text Nat) :=
  [Dict.empty, Dict.empty.set "__bench_read".toList 7]

theorem crashedFirst_raises :
    userspaceUprobeResult crashedFirst = .error .keyError ∧ ¬ MergedAlike crashedFirst := by
  have hraises : userspaceUprobeResult crashedFirst = .error .keyError := rfl
  refine ⟨hraises, ?_⟩
  rintro ⟨d, huprobe, -⟩
  rw [hraises] at huprobe
  cases huprobe

end BpftimeBenchmark.Micro
