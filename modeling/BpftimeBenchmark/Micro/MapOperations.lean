import Mathlib.Data.Finset.Range
import BpftimeBenchmark.Lib.BoundedMap
import BpftimeBenchmark.Lib.Transition

/-!
The map programs of `uprobe.bpf.c` under the calls that `test.c` makes. Each call of a
hooked function runs a program of a thousand operations on one of four maps of 1024
entries; the threads make their calls in one order, and their operations interleave
freely. The helpers are a parameter, of which only what is documented is used. The programs
ignore what the helpers return. Kept here, the results tell what a benchmark of these
functions measures.
-/

namespace BpftimeBenchmark.Micro.MapOperations

open Transition

abbrev U64 := BitVec 64

def maxEntries : Nat := 1024

def enoent : Nat := 2

def e2big : Nat := 7

def einval : Nat := 22

inductive MapName where
  | arrayMap
  | hashMap
  | perCpuHashMap
  | perCpuArrayMap
  deriving DecidableEq

def MapName.isArray : MapName → Bool
  | .arrayMap | .perCpuArrayMap => true
  | .hashMap | .perCpuHashMap => false

def MapName.isPerCpu : MapName → Bool
  | .perCpuHashMap | .perCpuArrayMap => true
  | .arrayMap | .hashMap => false

inductive Operation where
  | update (key : Nat) (value : U64)
  | delete (key : Nat)
  | lookup (key : Nat)
  deriving DecidableEq

def Operation.key : Operation → Nat
  | .update key _ | .delete key | .lookup key => key

/-- What a helper returns: zero, an error, or a pointer to the value. -/
inductive Result where
  | ok
  | error (errno : Nat)
  | value (v : U64)
  | null
  deriving DecidableEq

/-- The helpers and what they work on: the maps as they are created, and what an operation
of a program that runs on `cpu` makes of them and returns. `value` is what a CPU sees under
a key. -/
structure Helpers (μ : Type) where
  created : μ
  perform : (cpu : Nat) → MapName → Operation → μ → μ × Result
  value : μ → MapName → (cpu : Nat) → (key : Nat) → Option U64

variable {μ τ : Type}

/-- The keys that a map holds are among `keys`. -/
def Helpers.KeysIn (H : Helpers μ) (m : μ) (name : MapName) (keys : Finset Nat) : Prop :=
  ∀ cpu key, H.value m name cpu key ≠ none → key ∈ keys

/-- What is documented of the helpers. An array has its entries from the start, zero each,
and cannot lose one; a hash map is empty and holds up to 1024 keys. An update of a per-CPU
map is one of the value of its CPU, and a new element is zero for the others. -/
structure Helpers.Documented (H : Helpers μ) : Prop where
  created : ∀ name cpu key, H.value H.created name cpu key =
    if name.isArray = true ∧ key < maxEntries then some 0 else none
  accepted : ∀ cpu name key v m,
    (name.isArray = true ∧ key < maxEntries ∨
      name.isArray = false ∧ ∃ keys, H.KeysIn m name keys ∧ (insert key keys).card ≤ maxEntries) →
    (H.perform cpu name (.update key v) m).2 = .ok
  update : ∀ cpu name key v m, (H.perform cpu name (.update key v) m).2 = .ok →
    ∀ cpu' key', H.value (H.perform cpu name (.update key v) m).1 name cpu' key' =
      if key' ≠ key then H.value m name cpu' key'
      else if name.isPerCpu = true ∧ cpu' ≠ cpu then some ((H.value m name cpu' key).getD 0)
      else some v
  delete : ∀ cpu name key m cpu' key',
    H.value (H.perform cpu name (.delete key) m).1 name cpu' key' =
      if name.isArray = false ∧ key' = key then none else H.value m name cpu' key'
  deleted : ∀ cpu name key m, name.isArray = false →
    ((H.perform cpu name (.delete key) m).2 = .ok ↔ H.value m name cpu key ≠ none)
  lookup : ∀ cpu name key m,
    H.value (H.perform cpu name (.lookup key) m).1 name = H.value m name ∧
      (H.perform cpu name (.lookup key) m).2 =
        match H.value m name cpu key with
        | some v => .value v
        | none => .null
  elsewhere : ∀ cpu name op m other, other ≠ name →
    H.value (H.perform cpu name op m).1 other = H.value m other

/-- The kinds of program that `DEFINE_MAP_OPERATIONS` defines for each map. -/
inductive Kind where
  | update
  | delete
  | lookup
  deriving DecidableEq

def Kind.operation (i : Nat) : Kind → Operation
  | .update => .update i (BitVec.ofNat 64 i)
  | .delete => .delete i
  | .lookup => .lookup i

/-- The loop of a map program. -/
def mapProgram (name : MapName) (kind : Kind) : List (MapName × Operation) :=
  (List.range 1000).map fun i => (name, kind.operation i)

/-- The hooked functions of `test.c`. -/
inductive Bench where
  | uprobeUretprobe
  | uretprobe
  | uprobe
  | read
  | write
  | map (name : MapName) (kind : Kind)
  deriving DecidableEq

/-- The map operations of one call. -/
def Bench.operations : Bench → List (MapName × Operation)
  | .map name kind => mapProgram name kind
  | .uprobeUretprobe | .uretprobe | .uprobe | .read | .write => []

/-- The order of `run_bench_functions`. -/
def benches : List Bench :=
  [.uprobeUretprobe, .uretprobe, .uprobe, .read, .write,
    .map .hashMap .update, .map .hashMap .lookup, .map .hashMap .delete,
    .map .arrayMap .update, .map .arrayMap .lookup, .map .arrayMap .delete,
    .map .perCpuHashMap .update, .map .perCpuHashMap .lookup, .map .perCpuHashMap .delete,
    .map .perCpuArrayMap .update, .map .perCpuArrayMap .lookup, .map .perCpuArrayMap .delete]

/-- `get_function_time` calls its function `iter` times. -/
def getFunctionTime (iter : Nat) (b : Bench) : List (MapName × Operation) :=
  (List.replicate iter b.operations).flatten

def runBenchFunctions (iter : Nat) : List (MapName × Operation) :=
  benches.flatMap (getFunctionTime iter)

/-- The threads of `test.c` with what each has yet to do. `log` is a history variable. -/
structure Threads (μ τ : Type) where
  maps : μ
  todo : τ → List (MapName × Operation)
  log : List (MapName × Operation × Result)

/-- Thread `t` performs its next operation on the CPU that it runs on. -/
structure Label (τ : Type) where
  thread : τ
  cpu : Nat

section

variable [DecidableEq τ] (H : Helpers μ)

def step (s : Threads μ τ) (l : Label τ) : Option (Threads μ τ) :=
  match s.todo l.thread with
  | [] => none
  | (name, op) :: rest =>
      let r := H.perform l.cpu name op s.maps
      some
        { maps := r.1
          todo := Function.update s.todo l.thread rest
          log := s.log ++ [(name, op, r.2)] }

/-- Every thread has the calls of `run_bench_functions` before it. -/
def system (iter : Nat) : System (Threads μ τ) (Label τ) where
  start := fun s => s = ⟨H.created, fun _ => runBenchFunctions iter, []⟩
  step := step H

end

/-- The loops run below 1000 and store each key as its own value. -/
def Operation.Looped : Operation → Prop
  | .update key value => key < 1000 ∧ value = BitVec.ofNat 64 key
  | .delete key | .lookup key => key < 1000

/-- Zero, or the key itself. -/
def Initial (key : Nat) (v : U64) : Prop := v = 0 ∨ v = BitVec.ofNat 64 key

/-- What may be seen under a key: the key, and in arrays and on other CPUs also zero. -/
def Stored (name : MapName) (key : Nat) (v : U64) : Prop :=
  Initial key v ∧ (name = .hashMap → v = BitVec.ofNat 64 key)

/-- The arrays have all their entries, the hash maps hold keys below 1000, and the values are
those that were stored. -/
structure Helpers.Sound (H : Helpers μ) (m : μ) : Prop where
  arrays : ∀ name cpu key, name.isArray = true → key < maxEntries →
    H.value m name cpu key ≠ none
  keys : ∀ name, name.isArray = false → H.KeysIn m name (Finset.range 1000)
  values : ∀ name cpu key v, H.value m name cpu key = some v → Stored name key v

/-- What an operation returns: no update fails, an array has every key, and a value is one
that was stored. -/
def Expected (name : MapName) (op : Operation) (result : Result) : Prop :=
  match op with
  | .update _ _ => result = .ok
  | .delete _ => True
  | .lookup key =>
      (∃ v, result = .value v ∧ Stored name key v) ∨ (name.isArray = false ∧ result = .null)

section

variable {H : Helpers μ} (hH : H.Documented) {m : μ}

include hH

theorem sound_created : H.Sound H.created where
  arrays name cpu key harray hkey := by
    rw [hH.created, if_pos ⟨harray, hkey⟩]
    exact Option.some_ne_none _
  keys name harray cpu key hvalue := by
    rw [hH.created, if_neg (by simp [harray])] at hvalue
    exact absurd rfl hvalue
  values name cpu key v hv := by
    rw [hH.created] at hv
    split at hv
    · rename_i harray
      refine ⟨.inl (Option.some.inj hv).symm, ?_⟩
      rintro rfl
      cases harray.1
    · cases hv

/-- No update is refused. -/
theorem accepted_looped (hm : H.Sound m) (cpu : Nat) (name : MapName) {key : Nat} {v : U64}
    (hkey : key < 1000) : (H.perform cpu name (.update key v) m).2 = .ok := by
  apply hH.accepted
  cases harray : name.isArray with
  | true => exact .inl ⟨rfl, hkey.trans (by decide)⟩
  | false =>
      refine .inr ⟨rfl, Finset.range 1000, hm.keys name harray, ?_⟩
      rw [Finset.insert_eq_of_mem (Finset.mem_range.mpr hkey), Finset.card_range]
      decide

/-- Everything an operation can do to what a CPU sees under a key. -/
theorem value_cases (hm : H.Sound m) (cpu : Nat) (name : MapName) {op : Operation}
    (hop : op.Looped) (other : MapName) (cpu' key' : Nat) :
    H.value (H.perform cpu name op m).1 other cpu' key' = H.value m other cpu' key' ∨
      (other.isArray = false ∧ H.value (H.perform cpu name op m).1 other cpu' key' = none) ∨
      key' < 1000 ∧ ∃ v, H.value (H.perform cpu name op m).1 other cpu' key' = some v ∧
        Stored other key' v := by
  by_cases hother : other = name
  · subst hother
    cases op with
    | lookup key => exact .inl (by rw [(hH.lookup cpu other key m).1])
    | delete key =>
        rw [hH.delete]
        split
        · rename_i hdeleted
          exact .inr (.inl ⟨hdeleted.1, rfl⟩)
        · exact .inl rfl
    | update key v =>
        obtain ⟨hkey, rfl⟩ := hop
        rw [hH.update _ _ _ _ _ (accepted_looped hH hm cpu other hkey)]
        split
        · exact .inl rfl
        · rename_i hsame
          obtain rfl : key' = key := not_not.mp hsame
          refine .inr (.inr ⟨hkey, ?_⟩)
          split
          · -- the value of another CPU is the old one, or a new zero
            rename_i hcpu
            have hhash : other ≠ .hashMap := by
              rintro rfl
              cases hcpu.1
            refine ⟨_, rfl, ?_, fun heq => absurd heq hhash⟩
            cases hold : H.value m other cpu' key' with
            | none => exact .inl rfl
            | some w => exact (hm.values other cpu' key' w hold).1
          · exact ⟨_, rfl, .inr rfl, fun _ => rfl⟩
  · exact .inl (by rw [hH.elsewhere cpu name op m other hother])

theorem Helpers.Sound.perform (hm : H.Sound m) (cpu : Nat) (name : MapName) {op : Operation}
    (hop : op.Looped) : H.Sound (H.perform cpu name op m).1 where
  arrays other cpu' key' harray hkey := by
    rcases value_cases hH hm cpu name hop other cpu' key' with hkept | ⟨hhash, -⟩ | ⟨-, v, hv, -⟩
    · rw [hkept]
      exact hm.arrays other cpu' key' harray hkey
    · rw [harray] at hhash
      cases hhash
    · rw [hv]
      exact Option.some_ne_none v
  keys other hhash cpu' key' hvalue := by
    rcases value_cases hH hm cpu name hop other cpu' key' with hkept | ⟨-, hnone⟩ | ⟨hkey, -⟩
    · rw [hkept] at hvalue
      exact hm.keys other hhash cpu' key' hvalue
    · exact absurd hnone hvalue
    · exact Finset.mem_range.mpr hkey
  values other cpu' key' v hv := by
    rcases value_cases hH hm cpu name hop other cpu' key' with
      hkept | ⟨-, hnone⟩ | ⟨-, w, hw, hstored⟩
    · rw [hkept] at hv
      exact hm.values other cpu' key' v hv
    · rw [hnone] at hv
      cases hv
    · rw [hw] at hv
      exact Option.some.inj hv ▸ hstored

theorem expected_perform (hm : H.Sound m) (cpu : Nat) (name : MapName) {op : Operation}
    (hop : op.Looped) : Expected name op (H.perform cpu name op m).2 := by
  cases op with
  | update key v => exact accepted_looped hH hm cpu name hop.1
  | delete key => trivial
  | lookup key =>
      rw [Expected, (hH.lookup cpu name key m).2]
      cases hvalue : H.value m name cpu key with
      | some v => exact .inl ⟨v, rfl, hm.values name cpu key v hvalue⟩
      | none =>
          refine .inr ⟨?_, rfl⟩
          by_contra harray
          exact hm.arrays name cpu key (by simpa using harray)
            (Nat.lt_trans hop (by decide)) hvalue

end

theorem mem_getFunctionTime {iter : Nat} {b : Bench} {p : MapName × Operation}
    (h : p ∈ getFunctionTime iter b) : p ∈ b.operations := by
  obtain ⟨call, hcall, hmem⟩ := List.mem_flatten.mp h
  rwa [List.eq_of_mem_replicate hcall] at hmem

theorem mem_operations {name : MapName} {kind : Kind} {p : MapName × Operation}
    (h : p ∈ (Bench.map name kind).operations) : ∃ i < 1000, p = (name, kind.operation i) := by
  rw [Bench.operations, mapProgram] at h
  obtain ⟨i, hi, heq⟩ := List.mem_map.mp h
  exact ⟨i, List.mem_range.mp hi, heq.symm⟩

theorem looped_runBenchFunctions (iter : Nat) {name : MapName} {op : Operation}
    (h : (name, op) ∈ runBenchFunctions iter) : op.Looped := by
  obtain ⟨b, -, hb⟩ := List.mem_flatMap.mp h
  have hmem := mem_getFunctionTime hb
  cases b with
  | map name' kind =>
      obtain ⟨i, hlt, heq⟩ := mem_operations hmem
      obtain ⟨-, rfl⟩ := Prod.mk.inj heq
      cases kind with
      | update => exact ⟨hlt, rfl⟩
      | delete | lookup => exact hlt
  | uprobeUretprobe | uretprobe | uprobe | read | write => cases hmem

/-- Whatever the threads do, on whatever CPUs: the maps are sound, and the results are the
expected ones. -/
structure WellUsed (H : Helpers μ) (s : Threads μ τ) : Prop where
  maps : H.Sound s.maps
  log : ∀ name op result, (name, op, result) ∈ s.log → Expected name op result

theorem looped_of_run [DecidableEq τ] {H : Helpers μ} {iter : Nat} {s : Threads μ τ}
    (hH : H.Documented) (h : Reachable (system H iter) s) :
    WellUsed H s ∧ ∀ t name op, (name, op) ∈ s.todo t → op.Looped := by
  refine @RunsUnder.invariant _ _ _ _
    (fun s => WellUsed H s ∧ ∀ t name op, (name, op) ∈ s.todo t → op.Looped) ?_ ?_ _ h
  · rintro s rfl
    exact ⟨⟨sound_created hH, by simp⟩, fun t name op => looped_runBenchFunctions iter⟩
  · rintro s l s' ⟨hs, htodo⟩ - hstep
    simp only [system, step] at hstep
    split at hstep
    · cases hstep
    · rename_i name op rest hnext
      cases hstep
      have hop : op.Looped := htodo l.thread name op (hnext ▸ List.mem_cons_self)
      refine ⟨⟨hs.maps.perform hH l.cpu name hop, ?_⟩, ?_⟩
      · intro name' op' result hmem
        rcases List.mem_append.mp hmem with hold | hnew
        · exact hs.log name' op' result hold
        · obtain ⟨rfl, rfl, rfl⟩ := by simpa using List.mem_singleton.mp hnew
          exact expected_perform hH hs.maps l.cpu _ hop
      · intro t name' op' hmem
        by_cases ht : t = l.thread
        · subst ht
          simp only [Function.update_self] at hmem
          exact htodo l.thread name' op' (hnext ▸ List.mem_cons_of_mem _ hmem)
        · simp only [Function.update_of_ne ht] at hmem
          exact htodo t name' op' hmem

/-- Over helpers that are only known by what is documented of them. -/
theorem wellUsed_of_run [DecidableEq τ] {H : Helpers μ} (hH : H.Documented) {iter : Nat}
    {s : Threads μ τ} (h : Reachable (system H iter) s) : WellUsed H s :=
  (looped_of_run hH h).1

/-- A thread that goes on gets to its end. -/
theorem exec_finishes [DecidableEq τ] (H : Helpers μ) (iter : Nat) (t : τ) (cpu : Nat)
    (s : Threads μ τ) :
    ∃ s', exec (system H iter) s (List.replicate (s.todo t).length ⟨t, cpu⟩) = some s' ∧
      s'.todo t = [] ∧ ∀ u ≠ t, s'.todo u = s.todo u := by
  induction hops : s.todo t generalizing s with
  | nil => exact ⟨s, rfl, hops, fun _ _ => rfl⟩
  | cons p rest ih =>
      obtain ⟨name, op⟩ := p
      have hstep : ∃ next, (system H iter).step s ⟨t, cpu⟩ = some next ∧
          next.todo t = rest ∧ ∀ u ≠ t, next.todo u = s.todo u := by
        simp only [system, step, hops]
        exact ⟨_, rfl, by simp, fun u hu => Function.update_of_ne hu _ _⟩
      obtain ⟨next, hnext, htodo, hothers⟩ := hstep
      obtain ⟨s', hs', hdone, hkept⟩ := ih next htodo
      refine ⟨s', ?_, hdone, fun u hu => (hkept u hu).trans (hothers u hu)⟩
      rw [List.length_cons, List.replicate_succ, exec, hnext, Option.bind_some, hs']

/-! Helpers that are as documented: those of the kernel on its own maps. -/

/-- A value of a per-CPU map is one for each CPU. -/
structure Maps where
  arrayMap : Nat → U64
  hashMap : BoundedMap Nat U64 maxEntries
  perCpuHashMap : BoundedMap Nat (Nat → U64) maxEntries
  perCpuArrayMap : Nat → Nat → U64

variable {ν : Type}

/-- An operation on a hash map. `write` makes the new value from the old one, if there is
one, and `read` is what the program sees of a value. -/
def hashOperation (write : Option ν → U64 → ν) (read : ν → U64) (op : Operation)
    (m : BoundedMap Nat ν maxEntries) : BoundedMap Nat ν maxEntries × Result :=
  match op with
  | .update key value =>
      if m.HasRoom key then (m.update key (write (m.lookup key) value), .ok)
      else (m, .error e2big)
  | .delete key =>
      match m.lookup key with
      | some _ => (m.delete key, .ok)
      | none => (m, .error enoent)
  | .lookup key =>
      match m.lookup key with
      | some v => (m, .value (read v))
      | none => (m, .null)

/-- An operation on an array, whose entries are there from the start and stay. -/
def arrayOperation (write : ν → U64 → ν) (read : ν → U64) (op : Operation)
    (m : Nat → ν) : (Nat → ν) × Result :=
  match op with
  | .update key value =>
      if key < maxEntries then (Function.update m key (write (m key) value), .ok)
      else (m, .error e2big)
  | .delete _ => (m, .error einval)
  | .lookup key => if key < maxEntries then (m, .value (read (m key))) else (m, .null)

/-- A new element of a per-CPU hash map is zero for the other CPUs. -/
def writeCpu (cpu : Nat) (old : Option (Nat → U64)) (value : U64) : Nat → U64 :=
  Function.update (old.getD fun _ => 0) cpu value

def perform (cpu : Nat) (name : MapName) (op : Operation) (m : Maps) : Maps × Result :=
  match name with
  | .arrayMap =>
      let r := arrayOperation (fun _ v => v) id op m.arrayMap
      ({ m with arrayMap := r.1 }, r.2)
  | .hashMap =>
      let r := hashOperation (fun _ v => v) id op m.hashMap
      ({ m with hashMap := r.1 }, r.2)
  | .perCpuHashMap =>
      let r := hashOperation (writeCpu cpu) (· cpu) op m.perCpuHashMap
      ({ m with perCpuHashMap := r.1 }, r.2)
  | .perCpuArrayMap =>
      let r := arrayOperation (fun old v => Function.update old cpu v) (· cpu) op
        m.perCpuArrayMap
      ({ m with perCpuArrayMap := r.1 }, r.2)

/-- The maps as they are created. -/
def created : Maps := ⟨fun _ => 0, .empty, .empty, fun _ _ => 0⟩

/-- What a CPU sees under a key of the maps. -/
def Maps.value (m : Maps) (name : MapName) (cpu key : Nat) : Option U64 :=
  match name with
  | .arrayMap => if key < maxEntries then some (m.arrayMap key) else none
  | .hashMap => m.hashMap.lookup key
  | .perCpuHashMap => (m.perCpuHashMap.lookup key).map (· cpu)
  | .perCpuArrayMap => if key < maxEntries then some (m.perCpuArrayMap key cpu) else none

def kernelHelpers : Helpers Maps := ⟨created, perform, Maps.value⟩

theorem hasRoom_of_accepted {m : BoundedMap Nat ν maxEntries} {key : Nat} {keys : Finset Nat}
    (hkeys : ∀ key', m.lookup key' ≠ none → key' ∈ keys)
    (hcard : (insert key keys).card ≤ maxEntries) : m.HasRoom key := by
  refine BoundedMap.hasRoom_of_keys ?_ hcard (Finset.mem_insert_self key keys)
  intro key' hmem
  obtain ⟨v, hv⟩ := BoundedMap.mem_keys_iff.mp hmem
  exact Finset.mem_insert_of_mem (hkeys key' (by simp [hv]))

theorem hashOperation_update {write : Option ν → U64 → ν} {read : ν → U64} {key : Nat} {v : U64}
    {m : BoundedMap Nat ν maxEntries} :
    (hashOperation write read (.update key v) m).2 = .ok ↔ m.HasRoom key := by
  rw [hashOperation]
  split <;> simp_all

theorem lookup_hashOperation_update {write : Option ν → U64 → ν} {read : ν → U64} {key : Nat}
    {v : U64} {m : BoundedMap Nat ν maxEntries}
    (hok : (hashOperation write read (.update key v) m).2 = .ok) (key' : Nat) :
    (hashOperation write read (.update key v) m).1.lookup key' =
      if key' ≠ key then m.lookup key' else some (write (m.lookup key) v) := by
  have hroom := hashOperation_update.mp hok
  rw [hashOperation, if_pos hroom]
  split
  · rename_i hne
    exact BoundedMap.lookup_update_ne _ hne
  · rename_i hsame
    rw [not_not.mp hsame]
    exact BoundedMap.lookup_update_self _ hroom

theorem lookup_hashOperation_delete {write : Option ν → U64 → ν} {read : ν → U64} {key : Nat}
    {m : BoundedMap Nat ν maxEntries} (key' : Nat) :
    (hashOperation write read (.delete key) m).1.lookup key' =
      if key' = key then none else m.lookup key' := by
  rw [hashOperation]
  cases hlookup : m.lookup key with
  | none =>
      by_cases hsame : key' = key
      · rw [if_pos hsame, hsame, hlookup]
      · rw [if_neg hsame]
  | some v =>
      by_cases hsame : key' = key
      · rw [if_pos hsame, hsame]
        exact BoundedMap.lookup_delete_self m key
      · rw [if_neg hsame]
        exact BoundedMap.lookup_delete_ne hsame

theorem hashOperation_deleted {write : Option ν → U64 → ν} {read : ν → U64} {key : Nat}
    {m : BoundedMap Nat ν maxEntries} :
    (hashOperation write read (.delete key) m).2 = .ok ↔ m.lookup key ≠ none := by
  rw [hashOperation]
  cases m.lookup key <;> simp

theorem hashOperation_lookup {write : Option ν → U64 → ν} {read : ν → U64} {key : Nat}
    {m : BoundedMap Nat ν maxEntries} :
    hashOperation write read (.lookup key) m =
      (m, match (m.lookup key).map read with
        | some v => .value v
        | none => .null) := by
  rw [hashOperation]
  cases m.lookup key <;> rfl

theorem arrayOperation_update {write : ν → U64 → ν} {read : ν → U64} {key : Nat} {v : U64}
    {m : Nat → ν} :
    (arrayOperation write read (.update key v) m).2 = .ok ↔ key < maxEntries := by
  rw [arrayOperation]
  split <;> simp_all

theorem entry_arrayOperation_update {write : ν → U64 → ν} {read : ν → U64} {key : Nat} {v : U64}
    {m : Nat → ν} (hok : (arrayOperation write read (.update key v) m).2 = .ok) (key' : Nat) :
    (if key' < maxEntries then some ((arrayOperation write read (.update key v) m).1 key')
      else none) =
      if key' ≠ key then (if key' < maxEntries then some (m key') else none)
      else some (write (m key) v) := by
  have hkey := arrayOperation_update.mp hok
  rw [arrayOperation, if_pos hkey]
  by_cases hsame : key' = key <;> simp [hsame, hkey]

theorem kernelHelpers_documented : kernelHelpers.Documented where
  created name cpu key := by
    cases name <;> simp [kernelHelpers, created, Maps.value, MapName.isArray]
  accepted cpu name key v m h := by
    rcases h with ⟨harray, hkey⟩ | ⟨hhash, keys, hkeys, hcard⟩
    · cases name with
      | arrayMap | perCpuArrayMap => exact arrayOperation_update.mpr hkey
      | hashMap | perCpuHashMap => cases harray
    · cases name with
      | arrayMap | perCpuArrayMap => cases hhash
      | hashMap =>
          exact hashOperation_update.mpr
            (hasRoom_of_accepted (fun key' hne => hkeys cpu key' hne) hcard)
      | perCpuHashMap =>
          refine hashOperation_update.mpr (hasRoom_of_accepted (fun key' hne => ?_) hcard)
          exact hkeys cpu key' (by simpa [kernelHelpers, Maps.value] using hne)
  update cpu name key v m hok cpu' key' := by
    cases name with
    | arrayMap =>
        exact (entry_arrayOperation_update hok key').trans (by simp [MapName.isPerCpu]; rfl)
    | perCpuArrayMap =>
        have hkey := arrayOperation_update.mp hok
        have hentry := congrArg (Option.map (· cpu')) (entry_arrayOperation_update hok key')
        by_cases hsame : key' = key
        · by_cases hcpu : cpu' = cpu <;>
            simpa [kernelHelpers, perform, Maps.value, MapName.isPerCpu, hsame, hkey, hcpu]
              using hentry
        · simpa [kernelHelpers, perform, Maps.value, hsame] using hentry
    | hashMap =>
        exact (lookup_hashOperation_update hok key').trans (by simp [MapName.isPerCpu]; rfl)
    | perCpuHashMap =>
        simp only [kernelHelpers, perform, Maps.value, lookup_hashOperation_update hok]
        by_cases hsame : key' = key
        · subst hsame
          by_cases hcpu : cpu' = cpu
          · simp [MapName.isPerCpu, writeCpu, hcpu]
          · cases m.perCpuHashMap.lookup key' <;> simp [MapName.isPerCpu, writeCpu, hcpu]
        · simp [hsame]
  delete cpu name key m cpu' key' := by
    cases name with
    | arrayMap | perCpuArrayMap =>
        simp [kernelHelpers, perform, arrayOperation, Maps.value, MapName.isArray]
    | hashMap =>
        exact (lookup_hashOperation_delete key').trans (by simp [MapName.isArray]; rfl)
    | perCpuHashMap =>
        simp only [kernelHelpers, perform, Maps.value, lookup_hashOperation_delete,
          MapName.isArray, true_and]
        split <;> rfl
  deleted cpu name key m hhash := by
    cases name with
    | arrayMap | perCpuArrayMap => cases hhash
    | hashMap => exact hashOperation_deleted
    | perCpuHashMap =>
        exact hashOperation_deleted.trans (by simp [kernelHelpers, Maps.value])
  lookup cpu name key m := by
    cases name with
    | arrayMap | perCpuArrayMap =>
        by_cases hkey : key < maxEntries <;>
          simp [kernelHelpers, perform, arrayOperation, Maps.value, hkey]
    | hashMap =>
        simp only [kernelHelpers, perform, hashOperation_lookup, Maps.value, Option.map_id, id_eq]
        exact ⟨trivial, trivial⟩
    | perCpuHashMap =>
        simp only [kernelHelpers, perform, hashOperation_lookup, Maps.value]
        exact ⟨trivial, trivial⟩
  elsewhere cpu name op m other hne := by
    funext cpu' key'
    cases name <;> cases other <;> first | rfl | exact absurd rfl hne

/-- Two threads on two CPUs, each to its end. -/
theorem wellUsed_of_run_twoThreads : ∃ s : Threads Maps Bool, (∀ t, s.todo t = []) ∧
    WellUsed kernelHelpers s := by
  have hstart : Reachable (system kernelHelpers 1)
      (⟨created, fun _ => runBenchFunctions 1, []⟩ : Threads Maps Bool) := .start rfl
  obtain ⟨s, hs, hfirst, hkept⟩ :=
    exec_finishes kernelHelpers 1 false 0 ⟨created, fun _ => runBenchFunctions 1, []⟩
  obtain ⟨s', hs', hsecond, hkept'⟩ := exec_finishes kernelHelpers 1 true 1 s
  refine ⟨s', ?_, wellUsed_of_run kernelHelpers_documented (.exec _ (.exec _ hstart hs) hs')⟩
  rintro (_ | _)
  · rw [hkept' false (by decide), hfirst]
  · exact hsecond

/-- What the operations on one map make of its keys. -/
def Operation.after (op : Operation) (isArray : Bool) (keys : Finset Nat) : Finset Nat :=
  match op with
  | .update key _ => insert key keys
  | .delete key => if isArray then keys else keys.erase key
  | .lookup _ => keys

def keysAfter (name : MapName) (keys : Finset Nat) (ops : List (MapName × Operation)) :
    Finset Nat :=
  ops.foldl (fun keys p => if p.1 = name then p.2.after name.isArray keys else keys) keys

/-- The deletes of a map that find their key. -/
def hits (name : MapName) : Finset Nat → List (MapName × Operation) → Nat
  | _, [] => 0
  | keys, (name', op) :: rest =>
      if name' = name then
        (match op with
          | .delete key => if name.isArray = false ∧ key ∈ keys then 1 else 0
          | _ => 0) + hits name (op.after name.isArray keys) rest
      else hits name keys rest

/-- The lookups of a map that find nothing. -/
def misses (name : MapName) : Finset Nat → List (MapName × Operation) → Nat
  | _, [] => 0
  | keys, (name', op) :: rest =>
      if name' = name then
        (match op with
          | .lookup key => if key ∈ keys then 0 else 1
          | _ => 0) + misses name (op.after name.isArray keys) rest
      else misses name keys rest

section

variable {name : MapName} {keys : Finset Nat}

theorem keysAfter_append (a b : List (MapName × Operation)) :
    keysAfter name keys (a ++ b) = keysAfter name (keysAfter name keys a) b :=
  List.foldl_append

theorem hits_append (a b : List (MapName × Operation)) :
    hits name keys (a ++ b) = hits name keys a + hits name (keysAfter name keys a) b := by
  induction a generalizing keys with
  | nil => simp [hits, keysAfter]
  | cons p rest ih =>
      obtain ⟨name', op⟩ := p
      simp only [List.cons_append, hits, keysAfter, List.foldl_cons]
      split
      · rw [ih, Nat.add_assoc]
        rfl
      · exact ih

theorem misses_append (a b : List (MapName × Operation)) :
    misses name keys (a ++ b) =
      misses name keys a + misses name (keysAfter name keys a) b := by
  induction a generalizing keys with
  | nil => simp [misses, keysAfter]
  | cons p rest ih =>
      obtain ⟨name', op⟩ := p
      simp only [List.cons_append, misses, keysAfter, List.foldl_cons]
      split
      · rw [ih, Nat.add_assoc]
        rfl
      · exact ih

/-- What is done to the other maps does not matter. -/
theorem quiet_of_elsewhere {ops : List (MapName × Operation)} (h : ∀ p ∈ ops, p.1 ≠ name)
    (keys : Finset Nat) :
    keysAfter name keys ops = keys ∧ hits name keys ops = 0 ∧ misses name keys ops = 0 := by
  induction ops with
  | nil => exact ⟨rfl, rfl, rfl⟩
  | cons p rest ih =>
      obtain ⟨hkeys, hhits, hmisses⟩ := ih fun q hq => h q (List.mem_cons_of_mem _ hq)
      obtain ⟨name', op⟩ := p
      have hother : name' ≠ name := h (name', op) List.mem_cons_self
      simp only [keysAfter, List.foldl_cons, hits, misses, if_neg hother]
      exact ⟨hkeys, hhits, hmisses⟩

/-- The first `n` operations of a map program. -/
def loop (name : MapName) (kind : Kind) (n : Nat) : List (MapName × Operation) :=
  (List.range n).map fun i => (name, kind.operation i)

theorem loop_succ (kind : Kind) (n : Nat) :
    loop name kind (n + 1) = loop name kind n ++ [(name, kind.operation n)] := by
  simp [loop, List.range_succ]

theorem keysAfter_updates (name : MapName) (keys : Finset Nat) (n : Nat) :
    keysAfter name keys (loop name .update n) = keys ∪ Finset.range n ∧
      hits name keys (loop name .update n) = 0 ∧
      misses name keys (loop name .update n) = 0 := by
  induction n with
  | zero => simp [loop, keysAfter, hits, misses]
  | succ n ih =>
      obtain ⟨hkeys, hhits, hmisses⟩ := ih
      rw [loop_succ, keysAfter_append, hits_append, misses_append, hkeys, hhits, hmisses]
      simp [keysAfter, hits, misses, Kind.operation, Operation.after, Finset.range_add_one,
        Finset.union_insert]

theorem keysAfter_lookups (name : MapName) {n : Nat} (hfull : Finset.range n ⊆ keys) :
    keysAfter name keys (loop name .lookup n) = keys ∧
      hits name keys (loop name .lookup n) = 0 ∧
      misses name keys (loop name .lookup n) = 0 := by
  induction n with
  | zero => simp [loop, keysAfter, hits, misses]
  | succ n ih =>
      obtain ⟨hkeys, hhits, hmisses⟩ := ih ((Finset.range_mono (Nat.le_succ n)).trans hfull)
      have hn : n ∈ keys := hfull (Finset.mem_range.mpr (Nat.lt_succ_self n))
      rw [loop_succ, keysAfter_append, hits_append, misses_append, hkeys, hhits, hmisses]
      simp [keysAfter, hits, misses, Kind.operation, Operation.after, hn]

theorem keysAfter_deletes (hname : name.isArray = false) (keys : Finset Nat) (n : Nat) :
    keysAfter name keys (loop name .delete n) = keys \ Finset.range n ∧
      hits name keys (loop name .delete n) = (keys ∩ Finset.range n).card ∧
      misses name keys (loop name .delete n) = 0 := by
  induction n with
  | zero => simp [loop, keysAfter, hits, misses]
  | succ n ih =>
      obtain ⟨hkeys, hhits, hmisses⟩ := ih
      rw [loop_succ, keysAfter_append, hits_append, misses_append, hkeys, hhits, hmisses]
      by_cases hn : n ∈ keys
      · simp [keysAfter, hits, misses, Kind.operation, Operation.after, hname, hn,
          Finset.range_add_one, Finset.sdiff_insert, Finset.inter_insert_of_mem]
      · simp [keysAfter, hits, misses, Kind.operation, Operation.after, hname, hn,
          Finset.range_add_one, Finset.sdiff_insert, Finset.inter_insert_of_notMem]

end

section

variable {name : MapName} {keys : Finset Nat}

/-- What a stretch of operations does to one map: its keys afterwards, the deletes that
found their key and the lookups that found none. -/
structure Stretch (name : MapName) (ops : List (MapName × Operation)) (before after : Finset Nat)
    (hit : Nat) : Prop where
  keys : keysAfter name before ops = after
  hits : hits name before ops = hit
  misses : misses name before ops = 0

theorem Stretch.append {a b : List (MapName × Operation)} {before middle after : Finset Nat}
    {hit hit' : Nat} (ha : Stretch name a before middle hit)
    (hb : Stretch name b middle after hit') : Stretch name (a ++ b) before after (hit + hit') where
  keys := by rw [keysAfter_append, ha.keys, hb.keys]
  hits := by rw [hits_append, ha.keys, ha.hits, hb.hits]
  misses := by rw [misses_append, ha.keys, ha.misses, hb.misses]

/-- Repetitions that change nothing any more. -/
theorem Stretch.replicate {ops : List (MapName × Operation)}
    (h : Stretch name ops keys keys 0) (n : Nat) :
    Stretch name (List.replicate n ops).flatten keys keys 0 := by
  induction n with
  | zero => exact ⟨rfl, rfl, rfl⟩
  | succ n ih =>
      rw [List.replicate_succ, List.flatten_cons]
      exact h.append ih

theorem stretch_elsewhere {ops : List (MapName × Operation)} (h : ∀ p ∈ ops, p.1 ≠ name)
    (keys : Finset Nat) : Stretch name ops keys keys 0 := by
  obtain ⟨hkeys, hhits, hmisses⟩ := quiet_of_elsewhere h keys
  exact ⟨hkeys, hhits, hmisses⟩

/-- The benchmark of the updates of an empty map, of the lookups then and of the deletes:
only the first of the calls changes anything. -/
theorem stretch_updates (name : MapName) (n : Nat) :
    Stretch name (getFunctionTime (n + 1) (.map name .update)) ∅ (Finset.range 1000) 0 := by
  have hfirst : Stretch name (loop name .update 1000) ∅ (Finset.range 1000) 0 := by
    obtain ⟨hkeys, hhits, hmisses⟩ := keysAfter_updates name ∅ 1000
    exact ⟨by rw [hkeys, Finset.empty_union], hhits, hmisses⟩
  have hagain : Stretch name (loop name .update 1000) (Finset.range 1000)
      (Finset.range 1000) 0 := by
    obtain ⟨hkeys, hhits, hmisses⟩ := keysAfter_updates name (Finset.range 1000) 1000
    exact ⟨by rw [hkeys, Finset.union_self], hhits, hmisses⟩
  rw [getFunctionTime, List.replicate_succ, List.flatten_cons]
  exact hfirst.append (hagain.replicate n)

theorem stretch_lookups (name : MapName) (n : Nat) :
    Stretch name (getFunctionTime n (.map name .lookup)) (Finset.range 1000)
      (Finset.range 1000) 0 := by
  obtain ⟨hkeys, hhits, hmisses⟩ :=
    keysAfter_lookups name (Finset.Subset.refl (Finset.range 1000))
  exact Stretch.replicate ⟨hkeys, hhits, hmisses⟩ n

theorem stretch_deletes (hname : name.isArray = false) (n : Nat) :
    Stretch name (getFunctionTime (n + 1) (.map name .delete)) (Finset.range 1000) ∅ 1000 := by
  have hfirst : Stretch name (loop name .delete 1000) (Finset.range 1000) ∅ 1000 := by
    obtain ⟨hkeys, hhits, hmisses⟩ := keysAfter_deletes hname (Finset.range 1000) 1000
    refine ⟨by rw [hkeys, Finset.sdiff_self], ?_, hmisses⟩
    rw [hhits, Finset.inter_self, Finset.card_range]
  have hagain : Stretch name (loop name .delete 1000) ∅ ∅ 0 := by
    obtain ⟨hkeys, hhits, hmisses⟩ := keysAfter_deletes hname ∅ 1000
    refine ⟨by rw [hkeys, Finset.empty_sdiff], ?_, hmisses⟩
    rw [hhits, Finset.empty_inter, Finset.card_empty]
  rw [getFunctionTime, List.replicate_succ, List.flatten_cons]
  exact hfirst.append (hagain.replicate n)

theorem elsewhere_getFunctionTime {iter : Nat} {b : Bench}
    (h : ∀ kind, b ≠ .map name kind) : ∀ p ∈ getFunctionTime iter b, p.1 ≠ name := by
  intro p hp
  have hmem := mem_getFunctionTime hp
  cases b with
  | map name' kind =>
      obtain ⟨i, -, rfl⟩ := mem_operations hmem
      rintro rfl
      exact h kind rfl
  | uprobeUretprobe | uretprobe | uprobe | read | write => cases hmem

theorem stretch_elsewhere_benches (iter : Nat) {bs : List Bench}
    (h : ∀ b ∈ bs, ∀ kind, b ≠ .map name kind) (keys : Finset Nat) :
    Stretch name (bs.flatMap (getFunctionTime iter)) keys keys 0 := by
  apply stretch_elsewhere
  intro p hp
  obtain ⟨b, hb, hmem⟩ := List.mem_flatMap.mp hp
  exact elsewhere_getFunctionTime (h b hb) p hmem

/-- Around the three benchmarks of a hash map, all others leave it alone. -/
theorem benches_around (hname : name.isArray = false) :
    ∃ before after, benches =
        before ++ [.map name .update, .map name .lookup, .map name .delete] ++ after ∧
      (∀ b ∈ before, ∀ kind, b ≠ .map name kind) ∧
      ∀ b ∈ after, ∀ kind, b ≠ .map name kind := by
  cases name with
  | arrayMap | perCpuArrayMap => cases hname
  | hashMap => exact ⟨benches.take 5, benches.drop 8, rfl, by simp [benches], by simp [benches]⟩
  | perCpuHashMap =>
      exact ⟨benches.take 11, benches.drop 14, rfl, by simp [benches], by simp [benches]⟩

theorem stretch_runBenchFunctions (hname : name.isArray = false) (n : Nat) :
    Stretch name (runBenchFunctions (n + 1)) ∅ ∅ 1000 := by
  obtain ⟨before, after, hbenches, hbefore, hafter⟩ := benches_around hname
  rw [runBenchFunctions, hbenches, List.flatMap_append, List.flatMap_append]
  have hmiddle : Stretch name ([Bench.map name .update, .map name .lookup,
      .map name .delete].flatMap (getFunctionTime (n + 1))) ∅ ∅ 1000 := by
    simp only [List.flatMap_cons, List.flatMap_nil, List.append_nil]
    have hrest := (stretch_lookups name (n + 1)).append (stretch_deletes hname n)
    have hall := (stretch_updates name n).append hrest
    simpa using hall
  have hall := ((stretch_elsewhere_benches (n + 1) hbefore ∅).append hmiddle).append
    (stretch_elsewhere_benches (n + 1) hafter ∅)
  simpa using hall

end

/-- The deletes of a map in a log, those that went through, and the lookups in vain. -/
def deletes (name : MapName) (log : List (MapName × Operation × Result)) : Nat :=
  log.countP fun e => e.1 = name ∧ e.2.1 = .delete e.2.1.key

def deletesDone (name : MapName) (log : List (MapName × Operation × Result)) : Nat :=
  log.countP fun e => e.1 = name ∧ e.2.1 = .delete e.2.1.key ∧ e.2.2 = .ok

def lookupsFailed (name : MapName) (log : List (MapName × Operation × Result)) : Nat :=
  log.countP fun e => e.1 = name ∧ e.2.1 = .lookup e.2.1.key ∧ e.2.2 = .null

section

variable {H : Helpers μ} (hH : H.Documented) {m : μ} {name : MapName}

/-- The keys of a map, the same for every CPU. -/
def Helpers.HasKeys (H : Helpers μ) (m : μ) (name : MapName) (keys : Finset Nat) : Prop :=
  ∀ cpu key, H.value m name cpu key ≠ none ↔ key ∈ keys

/-- The keys and the counts of the log are those of the operations done. -/
structure Follows (H : Helpers μ) (name : MapName) (done : List (MapName × Operation))
    (s : Threads μ τ) : Prop where
  keys : H.HasKeys s.maps name (keysAfter name ∅ done)
  deletes : deletes name s.log = done.countP fun p => p.1 = name ∧ p.2 = .delete p.2.key
  deletesDone : deletesDone name s.log = hits name ∅ done
  lookupsFailed : lookupsFailed name s.log = misses name ∅ done

theorem countP_concat {α : Type} (P : α → Prop) [DecidablePred P] (l : List α) (a : α) :
    (l ++ [a]).countP P = l.countP P + if P a then 1 else 0 := by
  rw [List.countP_append, List.countP_singleton]
  simp

include hH

theorem hasKeys_perform (hname : name.isArray = false) (hm : H.Sound m) {keys : Finset Nat}
    (hkeys : H.HasKeys m name keys) (cpu : Nat) {op : Operation} (hop : op.Looped) :
    H.HasKeys (H.perform cpu name op m).1 name (op.after name.isArray keys) := by
  intro cpu' key'
  cases op with
  | lookup key =>
      rw [(hH.lookup cpu name key m).1]
      exact hkeys cpu' key'
  | delete key =>
      rw [hH.delete, hname, Operation.after, if_neg Bool.false_ne_true, Finset.mem_erase,
        ← hkeys cpu' key']
      by_cases hsame : key' = key <;> simp [hsame]
  | update key v =>
      rw [hH.update _ _ _ _ _ (accepted_looped hH hm cpu name hop.1), Operation.after,
        Finset.mem_insert, ← hkeys cpu' key']
      by_cases hsame : key' = key
      · simp only [hsame, ne_eq, not_true, if_false, true_or, iff_true]
        split <;> exact Option.some_ne_none _
      · simp [hsame]

/-- What an operation on a hash map adds to the counts. -/
theorem counts_perform (hname : name.isArray = false) {keys : Finset Nat}
    (hkeys : H.HasKeys m name keys) (cpu : Nat) (op : Operation) :
    (if op = .delete op.key ∧ (H.perform cpu name op m).2 = .ok then 1 else 0) =
        hits name keys [(name, op)] ∧
      (if op = .lookup op.key ∧ (H.perform cpu name op m).2 = .null then 1 else 0) =
        misses name keys [(name, op)] := by
  cases op with
  | update key v => exact ⟨by simp [hits], by simp [misses]⟩
  | delete key =>
      refine ⟨?_, by simp [misses]⟩
      have hdeleted := (hH.deleted cpu name key m hname).trans (hkeys cpu key)
      simp [hits, hdeleted, hname, Operation.key]
  | lookup key =>
      refine ⟨by simp [hits], ?_⟩
      have hnull : (H.perform cpu name (.lookup key) m).2 = .null ↔ key ∉ keys := by
        rw [(hH.lookup cpu name key m).2, ← hkeys cpu key]
        cases H.value m name cpu key <;> simp
      by_cases hkey : key ∈ keys <;> simp [misses, hnull, hkey, Operation.key]

/-- One more operation is done. -/
theorem Follows.perform (hname : name.isArray = false) {s : Threads μ τ}
    {done : List (MapName × Operation)} {name' : MapName} {op : Operation}
    (h : Follows H name done s) (hm : H.Sound s.maps) (cpu : Nat) (hop : op.Looped)
    (todo : τ → List (MapName × Operation)) :
    Follows H name (done ++ [(name', op)])
      ⟨(H.perform cpu name' op s.maps).1, todo,
        s.log ++ [(name', op, (H.perform cpu name' op s.maps).2)]⟩ := by
  by_cases hother : name' = name
  · subst hother
    obtain ⟨hhits, hmisses⟩ := counts_perform hH hname h.keys cpu op
    constructor
    · rw [keysAfter_append]
      have hkeys := hasKeys_perform hH hname hm h.keys cpu hop
      simpa [keysAfter] using hkeys
    · simp only [MapOperations.deletes, countP_concat, true_and]
      rw [← h.deletes]
      rfl
    · simp only [MapOperations.deletesDone, countP_concat, true_and, hits_append]
      rw [hhits, ← h.deletesDone]
      rfl
    · simp only [MapOperations.lookupsFailed, countP_concat, true_and, misses_append]
      rw [hmisses, ← h.lookupsFailed]
      rfl
  · have helsewhere : ∀ p ∈ [(name', op)], p.1 ≠ name := by
      simpa using hother
    obtain ⟨hafter, hhits, hmisses⟩ :=
      quiet_of_elsewhere helsewhere (keysAfter name ∅ done)
    constructor
    · rw [keysAfter_append, hafter]
      intro cpu' key'
      rw [hH.elsewhere cpu name' op s.maps name (Ne.symm hother)]
      exact h.keys cpu' key'
    · simp only [MapOperations.deletes, countP_concat, hother, false_and, if_false]
      exact h.deletes
    · simp only [MapOperations.deletesDone, countP_concat, hother, false_and, if_false,
        hits_append, hhits]
      exact h.deletesDone
    · simp only [MapOperations.lookupsFailed, countP_concat, hother, false_and, if_false,
        misses_append, hmisses]
      exact h.lookupsFailed

theorem follows_of_run (hname : name.isArray = false) {iter : Nat} {s : Threads μ Unit}
    (h : Reachable (system H iter) s) :
    ∃ done, runBenchFunctions iter = done ++ s.todo () ∧ Follows H name done s := by
  induction h with
  | start hstart =>
      obtain rfl := hstart
      refine ⟨[], rfl, ?_, rfl, rfl, rfl⟩
      intro cpu key
      simp [hH.created, hname, keysAfter]
  | @step s s' l hreach _ hstep ih =>
      obtain ⟨done, hdone, hfollows⟩ := ih
      obtain ⟨hused, hlooped⟩ := looped_of_run hH hreach
      simp only [system, step] at hstep
      split at hstep
      · cases hstep
      · rename_i name' op rest hnext
        cases hstep
        have hop : op.Looped := hlooped () name' op (hnext ▸ List.mem_cons_self)
        refine ⟨done ++ [(name', op)], ?_, hfollows.perform hH hname hused.maps l.cpu hop _⟩
        rw [hdone, hnext, List.append_assoc]
        simp [Function.update_self]

omit hH in
theorem deletes_runBenchFunctions (hname : name.isArray = false) (iter : Nat) :
    (runBenchFunctions iter).countP (fun p => p.1 = name ∧ p.2 = .delete p.2.key) =
      1000 * iter := by
  have hnone {ops : List (MapName × Operation)}
      (h : ∀ p ∈ ops, ¬ (p.1 = name ∧ p.2 = .delete p.2.key)) :
      ops.countP (fun p => p.1 = name ∧ p.2 = .delete p.2.key) = 0 :=
    List.countP_eq_zero.mpr (by simpa using h)
  have hkind (kind : Kind) (hkind : ∀ i, kind.operation i ≠ .delete (kind.operation i).key) :
      ∀ p ∈ getFunctionTime iter (.map name kind), ¬ (p.1 = name ∧ p.2 = .delete p.2.key) := by
    intro p hp
    obtain ⟨i, -, rfl⟩ := mem_operations (mem_getFunctionTime hp)
    exact fun h => hkind i h.2
  have hdeletes : (getFunctionTime iter (.map name .delete)).countP
      (fun p => p.1 = name ∧ p.2 = .delete p.2.key) = 1000 * iter := by
    rw [List.countP_eq_length.mpr]
    · simp [getFunctionTime, Bench.operations, mapProgram, Nat.mul_comm]
    · intro p hp
      obtain ⟨i, -, rfl⟩ := mem_operations (mem_getFunctionTime hp)
      simp [Kind.operation, Operation.key]
  have helsewhere {bs : List Bench} (h : ∀ b ∈ bs, ∀ kind, b ≠ .map name kind) :
      ∀ p ∈ bs.flatMap (getFunctionTime iter), ¬ (p.1 = name ∧ p.2 = .delete p.2.key) := by
    intro p hp hboth
    obtain ⟨b, hb, hmem⟩ := List.mem_flatMap.mp hp
    exact elsewhere_getFunctionTime (h b hb) p hmem hboth.1
  obtain ⟨before, after, hbenches, hbefore, hafter⟩ := benches_around hname
  rw [runBenchFunctions, hbenches]
  simp only [List.flatMap_append, List.flatMap_cons, List.flatMap_nil, List.append_nil,
    List.countP_append, hdeletes, hnone (helsewhere hbefore), hnone (helsewhere hafter),
    hnone (hkind .update (by simp [Kind.operation])),
    hnone (hkind .lookup (by simp [Kind.operation]))]
  omega

/-- One thread that makes `iter` calls of each function: every lookup in a hash map finds
its key, and of the 1000 deletes of each call only those of the first call delete. -/
theorem deletes_hit_once (hname : name.isArray = false) {iter : Nat} {s : Threads μ Unit}
    (h : Reachable (system H iter) s) (hdone : s.todo () = []) :
    lookupsFailed name s.log = 0 ∧ deletes name s.log = 1000 * iter ∧
      deletesDone name s.log = if iter = 0 then 0 else 1000 := by
  obtain ⟨done, hops, hfollows⟩ := follows_of_run hH hname h
  rw [hdone, List.append_nil] at hops
  subst hops
  refine ⟨?_, hfollows.deletes.trans (deletes_runBenchFunctions hname iter), ?_⟩
  · rw [hfollows.lookupsFailed]
    cases iter with
    | zero => rfl
    | succ n => exact (stretch_runBenchFunctions hname n).misses
  · rw [hfollows.deletesDone]
    cases iter with
    | zero => rfl
    | succ n => exact (stretch_runBenchFunctions hname n).hits

omit hH in
theorem deletes_hit_once_twoCalls : ∃ s : Threads Maps Unit, s.todo () = [] ∧
    lookupsFailed .hashMap s.log = 0 ∧ deletes .hashMap s.log = 2000 ∧
      deletesDone .hashMap s.log = 1000 := by
  obtain ⟨s, hs, hdone, -⟩ :=
    exec_finishes kernelHelpers 2 () 0 ⟨created, fun _ => runBenchFunctions 2, []⟩
  have hname : MapName.hashMap.isArray = false := rfl
  exact ⟨s, hdone, deletes_hit_once kernelHelpers_documented hname
    (Reachable.exec _ (.start rfl) hs) hdone⟩

end

end BpftimeBenchmark.Micro.MapOperations
