import BpftimeBenchmark.Lib.PyError
import Mathlib.Data.List.Nodup

/-!
A dictionary as Python documents it: keys are distinct and stay in the order in
which they were first set; setting a key again changes its value only.
-/

namespace BpftimeBenchmark

structure Dict (κ ν : Type) where
  entries : List (κ × ν)
  nodup : (entries.map Prod.fst).Nodup
  deriving DecidableEq

namespace Dict

variable {κ ν μ : Type}

theorem ext_entries {d e : Dict κ ν} (h : d.entries = e.entries) : d = e := by
  cases d
  cases e
  cases h
  rfl

def keys (d : Dict κ ν) : List κ := d.entries.map Prod.fst

def values (d : Dict κ ν) : List ν := d.entries.map Prod.snd

instance : Membership κ (Dict κ ν) := ⟨fun d k => k ∈ d.keys⟩

theorem mem_keys {d : Dict κ ν} {k : κ} : k ∈ d ↔ k ∈ d.keys := Iff.rfl

def empty : Dict κ ν := ⟨[], List.nodup_nil⟩

/-- `not d`. -/
def isEmpty (d : Dict κ ν) : Bool := d.entries.isEmpty

/-- `{k: f(v) for k, v in d.items()}`. -/
def mapValues (f : ν → μ) (d : Dict κ ν) : Dict κ μ :=
  ⟨d.entries.map (fun e => (e.1, f e.2)), by
    rw [List.map_map]
    exact d.nodup⟩

@[simp] theorem keys_mapValues (f : ν → μ) (d : Dict κ ν) :
    (d.mapValues f).keys = d.keys := by
  simp [mapValues, keys]

theorem mem_mapValues {f : ν → μ} {d : Dict κ ν} {k : κ} : k ∈ d.mapValues f ↔ k ∈ d := by
  rw [mem_keys, mem_keys, keys_mapValues]

/-- Every value has the property. -/
def All (P : ν → Prop) (d : Dict κ ν) : Prop := ∀ e ∈ d.entries, P e.2

theorem all_empty (P : ν → Prop) : (empty : Dict κ ν).All P := fun _ he => by cases he

/-- `{key(a): value(a) for a in l}`, for distinct keys. -/
def tabulate {ι : Type} (l : List ι) (key : ι → κ) (h : (l.map key).Nodup) (value : ι → ν) :
    Dict κ ν :=
  ⟨l.map fun a => (key a, value a), by
    rw [List.map_map]
    exact h⟩

section Tabulate

variable {ι : Type} {l : List ι} {key : ι → κ} {h : (l.map key).Nodup} {value : ι → ν}

@[simp] theorem keys_tabulate : (tabulate l key h value).keys = l.map key := by
  simp [tabulate, keys]

theorem all_tabulate {P : ν → Prop} (hP : ∀ a ∈ l, P (value a)) :
    (tabulate l key h value).All P := by
  intro e he
  obtain ⟨a, ha, rfl⟩ := List.mem_map.mp he
  exact hP a ha

end Tabulate

variable [DecidableEq κ]

instance (d : Dict κ ν) (k : κ) : Decidable (k ∈ d) :=
  inferInstanceAs (Decidable (k ∈ d.keys))

/-- Entries with the value of `k` replaced, or a new one at the end. -/
def put (k : κ) (v : ν) : List (κ × ν) → List (κ × ν)
  | [] => [(k, v)]
  | e :: rest => if e.1 = k then (k, v) :: rest else e :: put k v rest

theorem map_fst_put (k : κ) (v : ν) (l : List (κ × ν)) :
    (put k v l).map Prod.fst =
      if k ∈ l.map Prod.fst then l.map Prod.fst else l.map Prod.fst ++ [k] := by
  induction l with
  | nil => rfl
  | cons e rest ih =>
      by_cases hk : e.1 = k
      · subst hk
        simp [put]
      · simp only [put, if_neg hk, List.map_cons, ih, List.mem_cons, Ne.symm hk, false_or]
        split <;> rfl

theorem lookup_cons_of_ne {k a : κ} (h : k ≠ a) (b : ν) (l : List (κ × ν)) :
    List.lookup k ((a, b) :: l) = l.lookup k := by
  rw [List.lookup_cons, beq_eq_false_iff_ne.mpr h]

theorem lookup_put (k k' : κ) (v : ν) (l : List (κ × ν)) :
    (put k v l).lookup k' = if k' = k then some v else l.lookup k' := by
  induction l with
  | nil =>
      by_cases hk : k' = k
      · simp [put, hk]
      · simp [put, hk, lookup_cons_of_ne]
  | cons e rest ih =>
      obtain ⟨a, b⟩ := e
      by_cases ha : a = k
      · subst ha
        by_cases hk : k' = a
        · simp [put, hk]
        · simp [put, hk, lookup_cons_of_ne]
      · by_cases hk : k' = a
        · subst hk
          simp [put, ha]
        · simp [put, ha, hk, lookup_cons_of_ne, ih]

def get? (d : Dict κ ν) (k : κ) : Option ν := d.entries.lookup k

/-- `d[k]`. -/
def get (d : Dict κ ν) (k : κ) : Except PyError ν :=
  match d.get? k with
  | some v => .ok v
  | none => .error .keyError

/-- `d[k] = v`. -/
def set (d : Dict κ ν) (k : κ) (v : ν) : Dict κ ν :=
  ⟨put k v d.entries, by
    rw [map_fst_put]
    split
    · exact d.nodup
    · rename_i hk
      exact List.nodup_append.mpr ⟨d.nodup, List.nodup_singleton k, by
        rintro a ha b hb rfl
        exact hk (List.mem_singleton.mp hb ▸ ha)⟩⟩

@[simp] theorem get?_empty (k : κ) : (empty : Dict κ ν).get? k = none := rfl

theorem get?_set (d : Dict κ ν) (k k' : κ) (v : ν) :
    (d.set k v).get? k' = if k' = k then some v else d.get? k' :=
  lookup_put k k' v d.entries

@[simp] theorem get?_set_self (d : Dict κ ν) (k : κ) (v : ν) :
    (d.set k v).get? k = some v := by
  rw [get?_set, if_pos rfl]

theorem keys_set (d : Dict κ ν) (k : κ) (v : ν) :
    (d.set k v).keys = if k ∈ d.keys then d.keys else d.keys ++ [k] :=
  map_fst_put k v d.entries

theorem keys_set_of_mem {d : Dict κ ν} {k : κ} (v : ν) (h : k ∈ d) :
    (d.set k v).keys = d.keys := by
  rw [keys_set, if_pos (mem_keys.mp h)]

theorem mem_set {d : Dict κ ν} {k k' : κ} {v : ν} :
    k' ∈ d.set k v ↔ k' = k ∨ k' ∈ d := by
  rw [mem_keys, mem_keys, keys_set]
  split
  · rename_i hk
    constructor
    · exact Or.inr
    · rintro (rfl | hk')
      · exact hk
      · exact hk'
  · simp [or_comm]

theorem get?_eq_none {d : Dict κ ν} {k : κ} : d.get? k = none ↔ k ∉ d := by
  rw [get?, List.lookup_eq_none_iff, mem_keys, keys, List.mem_map]
  constructor
  · rintro h ⟨e, he, rfl⟩
    simpa using h e he
  · intro h e he
    simp only [bne_iff_ne, ne_eq]
    rintro rfl
    exact h ⟨e, he, rfl⟩

theorem mem_iff_get? {d : Dict κ ν} {k : κ} : k ∈ d ↔ ∃ v, d.get? k = some v := by
  rw [← Option.isSome_iff_exists, ← Option.ne_none_iff_isSome, ne_eq, get?_eq_none, not_not]

theorem lookup_of_mem {l : List (κ × ν)} (hl : (l.map Prod.fst).Nodup) {k : κ} {v : ν}
    (h : (k, v) ∈ l) : l.lookup k = some v := by
  induction l with
  | nil => cases h
  | cons e rest ih =>
      obtain ⟨a, b⟩ := e
      rw [List.map_cons, List.nodup_cons] at hl
      rcases List.mem_cons.mp h with heq | hrest
      · cases heq
        exact List.lookup_cons_self
      · have hne : k ≠ a := by
          rintro rfl
          exact hl.1 (List.mem_map.mpr ⟨_, hrest, rfl⟩)
        rw [lookup_cons_of_ne hne]
        exact ih hl.2 hrest

theorem mem_of_lookup {l : List (κ × ν)} {k : κ} {v : ν} (h : l.lookup k = some v) :
    (k, v) ∈ l := by
  induction l with
  | nil => cases h
  | cons e rest ih =>
      obtain ⟨a, b⟩ := e
      by_cases hk : k = a
      · subst hk
        rw [List.lookup_cons_self] at h
        cases h
        exact List.mem_cons_self
      · rw [lookup_cons_of_ne hk] at h
        exact List.mem_cons_of_mem _ (ih h)

theorem mem_entries {d : Dict κ ν} {k : κ} {v : ν} :
    (k, v) ∈ d.entries ↔ d.get? k = some v :=
  ⟨lookup_of_mem d.nodup, mem_of_lookup⟩

theorem get?_mapValues (f : ν → μ) (d : Dict κ ν) (k : κ) :
    (d.mapValues f).get? k = (d.get? k).map f := by
  simp only [get?, mapValues]
  induction d.entries with
  | nil => rfl
  | cons e rest ih =>
      obtain ⟨a, b⟩ := e
      by_cases hk : k = a
      · subst hk
        simp
      · rw [List.map_cons, lookup_cons_of_ne hk, lookup_cons_of_ne hk, ih]

theorem All.set {P : ν → Prop} {d : Dict κ ν} (h : d.All P) (k : κ) {v : ν} (hv : P v) :
    (d.set k v).All P := by
  rintro ⟨k', w⟩ he
  rw [mem_entries, get?_set] at he
  split at he
  · cases he
    exact hv
  · exact h _ (mem_entries.mpr he)

theorem get_eq_ok {d : Dict κ ν} {k : κ} {v : ν} : d.get k = .ok v ↔ d.get? k = some v := by
  unfold get
  cases d.get? k <;> simp

theorem All.of_get {P : ν → Prop} {d : Dict κ ν} (h : d.All P) {k : κ} {v : ν}
    (hget : d.get k = .ok v) : P v :=
  h (k, v) (mem_entries.mpr (get_eq_ok.mp hget))

/-- A key that is there is not looked up in vain. -/
theorem All.returns_get {P : ν → Prop} {d : Dict κ ν} (h : d.All P) {k : κ} (hk : k ∈ d) :
    Returns (d.get k) P := by
  obtain ⟨v, hv⟩ := mem_iff_get?.mp hk
  have hget := get_eq_ok.mpr hv
  exact ⟨v, hget, h.of_get hget⟩

theorem get?_tabulate {ι : Type} {l : List ι} {key : ι → κ} {h : (l.map key).Nodup}
    {value : ι → ν} {a : ι} (ha : a ∈ l) :
    (tabulate l key h value).get? (key a) = some (value a) :=
  mem_entries.mp (List.mem_map.mpr ⟨a, ha, rfl⟩)

/-- A dictionary is its keys in order and the value of each. -/
theorem ext_get? {d e : Dict κ ν} (hkeys : d.keys = e.keys)
    (hget : ∀ k, d.get? k = e.get? k) : d = e := by
  apply ext_entries
  apply List.ext_getElem
  · simpa [keys] using congrArg List.length hkeys
  · intro i hd he
    have hfst : d.entries[i].1 = e.entries[i].1 := by
      have hi := List.getElem_of_eq hkeys (i := i) (by simpa [keys] using hd)
      simpa [keys] using hi
    have hleft : d.get? d.entries[i].1 = some d.entries[i].2 :=
      mem_entries.mp (List.getElem_mem hd)
    have hright : e.get? e.entries[i].1 = some e.entries[i].2 :=
      mem_entries.mp (List.getElem_mem he)
    rw [hget, hfst, hright] at hleft
    exact Prod.ext hfst (Option.some.inj hleft).symm

theorem entries_set_of_not_mem {d : Dict κ ν} {k : κ} (h : k ∉ d) (v : ν) :
    (d.set k v).entries = d.entries ++ [(k, v)] := by
  have hput : ∀ l : List (κ × ν), k ∉ l.map Prod.fst → put k v l = l ++ [(k, v)] := by
    intro l hl
    induction l with
    | nil => rfl
    | cons e rest ih =>
        rw [List.map_cons, List.mem_cons, not_or] at hl
        rw [put, if_neg (Ne.symm hl.1), ih hl.2]
        rfl
  exact hput d.entries h

/-- Setting distinct new keys adds them in the order of the entries. -/
theorem entries_foldl_set {l : List (κ × ν)} {d : Dict κ ν}
    (h : (d.keys ++ l.map Prod.fst).Nodup) :
    (l.foldl (fun d e => d.set e.1 e.2) d).entries = d.entries ++ l := by
  induction l generalizing d with
  | nil => simp
  | cons e rest ih =>
      have hnew : e.1 ∉ d := by
        intro hmem
        exact (List.nodup_append.mp h).2.2 _ hmem _ List.mem_cons_self rfl
      have hentries := entries_set_of_not_mem hnew e.2
      have hkeys : (d.set e.1 e.2).keys = d.keys ++ [e.1] := by
        rw [keys, hentries, List.map_append]
        rfl
      rw [List.foldl_cons, ih (by rw [hkeys]; simpa using h), hentries, List.append_assoc]
      rfl

/-- A dictionary that is built from the items of another. -/
theorem foldl_set_eq_mapValues (f : ν → μ) (d : Dict κ ν) :
    d.entries.foldl (fun acc e => acc.set e.1 (f e.2)) empty = d.mapValues f := by
  apply ext_entries
  have hfold := entries_foldl_set (l := d.entries.map fun e => (e.1, f e.2)) (d := empty) (by
    rw [List.map_map]
    exact d.nodup)
  rw [List.foldl_map] at hfold
  exact hfold

/-- Setting a key to the value it has changes nothing. -/
theorem set_eq_self {d : Dict κ ν} {k : κ} {v : ν} (h : d.get? k = some v) :
    d.set k v = d := by
  apply ext_get? (keys_set_of_mem v (mem_iff_get?.mpr ⟨v, h⟩))
  intro k'
  rw [get?_set]
  split
  · rename_i hk
    rw [hk, h]
  · rfl

theorem get?_of_mem {d : Dict κ ν} {k : κ} (h : k ∈ d) (default : ν) :
    d.get? k = some ((d.get? k).getD default) := by
  obtain ⟨v, hv⟩ := mem_iff_get?.mp h
  rw [hv, Option.getD_some]

/-- `d.setdefault(k, []).append(v)`. -/
def push (d : Dict κ (List ν)) (k : κ) (v : ν) : Dict κ (List ν) :=
  d.set k ((d.get? k).getD [] ++ [v])

def pushAll (d : Dict κ (List ν)) (l : List (κ × ν)) : Dict κ (List ν) :=
  l.foldl (fun d e => d.push e.1 e.2) d

/-- What the entries give to one key, in order. -/
def valuesOf (k : κ) (l : List (κ × ν)) : List ν :=
  l.filterMap (fun e => if e.1 = k then some e.2 else none)

theorem getD_push (d : Dict κ (List ν)) (k k' : κ) (v : ν) :
    ((d.push k v).get? k').getD [] =
      (d.get? k').getD [] ++ if k = k' then [v] else [] := by
  rw [push, get?_set]
  by_cases hk : k' = k
  · subst hk
    simp
  · rw [if_neg hk, if_neg (Ne.symm hk), List.append_nil]

theorem mem_push {d : Dict κ (List ν)} {k k' : κ} {v : ν} :
    k' ∈ d.push k v ↔ k' = k ∨ k' ∈ d := mem_set

/-- Each key keeps what it had and gets what the entries give to it. -/
theorem getD_pushAll (l : List (κ × ν)) (d : Dict κ (List ν)) (k : κ) :
    ((d.pushAll l).get? k).getD [] = (d.get? k).getD [] ++ valuesOf k l := by
  induction l generalizing d with
  | nil => simp [pushAll, valuesOf]
  | cons e rest ih =>
      have hstep : d.pushAll (e :: rest) = (d.push e.1 e.2).pushAll rest := rfl
      rw [hstep, ih, getD_push, List.append_assoc]
      by_cases hk : e.1 = k <;> simp [valuesOf, hk]

theorem mem_pushAll {l : List (κ × ν)} {d : Dict κ (List ν)} {k : κ} :
    k ∈ d.pushAll l ↔ k ∈ d ∨ k ∈ l.map Prod.fst := by
  induction l generalizing d with
  | nil => simp [pushAll]
  | cons e rest ih =>
      have hstep : d.pushAll (e :: rest) = (d.push e.1 e.2).pushAll rest := rfl
      rw [hstep, ih, mem_push, List.map_cons, List.mem_cons]
      tauto

/-- Keys that are new and distinct come in the order of the entries. -/
theorem keys_pushAll {l : List (κ × ν)} {d : Dict κ (List ν)}
    (h : (d.keys ++ l.map Prod.fst).Nodup) :
    (d.pushAll l).keys = d.keys ++ l.map Prod.fst := by
  induction l generalizing d with
  | nil => simp [pushAll]
  | cons e rest ih =>
      have hnew : e.1 ∉ d.keys := by
        intro hmem
        exact (List.nodup_append.mp h).2.2 _ hmem _ List.mem_cons_self rfl
      have hkeys : (d.push e.1 e.2).keys = d.keys ++ [e.1] := by
        rw [push, keys_set, if_neg hnew]
      have hstep : d.pushAll (e :: rest) = (d.push e.1 e.2).pushAll rest := rfl
      rw [hstep, ih (by rw [hkeys]; simpa using h), hkeys]
      simp

theorem valuesOf_keyed (key : ν → κ) (k : κ) (l : List ν) :
    valuesOf k (l.map fun v => (key v, v)) = l.filter (fun v => key v = k) := by
  rw [valuesOf, List.filterMap_map, ← List.filterMap_eq_filter]
  congr 1
  funext v
  simp [Option.guard]

theorem valuesOf_eq_nil {l : List (κ × ν)} {k : κ} (h : k ∉ l.map Prod.fst) :
    valuesOf k l = [] := by
  apply List.filterMap_eq_nil_iff.mpr
  intro e he
  rw [if_neg]
  rintro rfl
  exact h (List.mem_map_of_mem he)

/-- A dictionary gives each key at most its one value. -/
theorem valuesOf_entries (d : Dict κ ν) (k : κ) :
    valuesOf k d.entries = (d.get? k).toList := by
  have hlookup : ∀ l : List (κ × ν), (l.map Prod.fst).Nodup →
      valuesOf k l = (l.lookup k).toList := by
    intro l hl
    induction l with
    | nil => rfl
    | cons e rest ih =>
        obtain ⟨a, b⟩ := e
        rw [List.map_cons, List.nodup_cons] at hl
        by_cases hk : k = a
        · subst hk
          have hrest : valuesOf k rest = [] := valuesOf_eq_nil hl.1
          rw [valuesOf] at hrest
          simp [valuesOf, hrest]
        · rw [lookup_cons_of_ne hk, ← ih hl.2]
          exact List.filterMap_cons_none (if_neg (Ne.symm hk))
  exact hlookup d.entries d.nodup

theorem set_set (d : Dict κ ν) (k : κ) (v w : ν) : (d.set k v).set k w = d.set k w := by
  apply ext_get?
  · rw [keys_set_of_mem w (mem_set.mpr (Or.inl rfl)), keys_set, keys_set]
  · intro k'
    simp only [get?_set]
    split <;> rfl

/-- `if k not in d: d[k] = v`. -/
def setDefault (d : Dict κ ν) (k : κ) (v : ν) : Dict κ ν := if k ∈ d then d else d.set k v

theorem get_setDefault (d : Dict κ ν) (k : κ) (v : ν) :
    (d.setDefault k v).get k = .ok ((d.get? k).getD v) := by
  unfold setDefault
  split
  · rename_i hk
    rw [get, get?_of_mem hk v]
    rfl
  · rename_i hk
    rw [get, get?_set_self, get?_eq_none.mpr hk]
    rfl

theorem set_setDefault (d : Dict κ ν) (k : κ) (v w : ν) :
    (d.setDefault k v).set k w = d.set k w := by
  unfold setDefault
  split
  · rfl
  · exact set_set d k v w

/-- A value of a `defaultdict` with the default `init` is replaced by a function of
it. -/
def accumulate (init : μ) (add : μ → ν → μ) (d : Dict κ μ) (k : κ) (v : ν) : Dict κ μ :=
  d.set k (add ((d.get? k).getD init) v)

theorem accumulate_mapValues (init : μ) (add : μ → ν → μ) (d : Dict κ (List ν)) (k : κ)
    (v : ν) :
    (d.mapValues (fun vs => vs.foldl add init)).accumulate init add k v =
      (d.push k v).mapValues (fun vs => vs.foldl add init) := by
  have hvalue : add (((d.mapValues fun vs => vs.foldl add init).get? k).getD init) v =
      ((d.get? k).getD [] ++ [v]).foldl add init := by
    rw [get?_mapValues, List.foldl_append]
    cases d.get? k <;> rfl
  apply ext_get?
  · rw [accumulate, keys_set, keys_mapValues, keys_mapValues, push, keys_set]
  · intro k'
    rw [accumulate, hvalue, get?_set, get?_mapValues, get?_mapValues, push, get?_set]
    split <;> rfl

/-- Values accumulated key by key are those of each key, one after another. -/
theorem foldl_accumulate (init : μ) (add : μ → ν → μ) (l : List (κ × ν)) :
    l.foldl (fun d e => d.accumulate init add e.1 e.2) empty =
      (pushAll empty l).mapValues (fun vs => vs.foldl add init) := by
  have hfrom : ∀ d : Dict κ (List ν),
      l.foldl (fun d e => d.accumulate init add e.1 e.2)
        (d.mapValues fun vs => vs.foldl add init) =
      (d.pushAll l).mapValues (fun vs => vs.foldl add init) := by
    induction l with
    | nil => exact fun _ => rfl
    | cons e rest ih =>
        intro d
        rw [List.foldl_cons, accumulate_mapValues, ih]
        rfl
  exact hfrom empty

end Dict

end BpftimeBenchmark
