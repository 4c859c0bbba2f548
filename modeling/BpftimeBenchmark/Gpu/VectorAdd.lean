import Mathlib.Algebra.BigOperators.Group.Finset.Basic
import Mathlib.Algebra.Order.BigOperators.Group.Finset
import Mathlib.Data.List.Count
import BpftimeBenchmark.Lib.Transition

/-!
`vec_add.cu`. The host queues launches of `vectorAdd` and waits for the device twice; the
device runs one launch after the other, and the threads of a launch take their steps in any
order. Elements of the vectors are of any type with an addition. The CUDA calls are taken to
succeed, as the program does.
-/

namespace BpftimeBenchmark.Gpu.VectorAdd

open Transition

variable {F : Type}

def threads : Nat := 256

/-- `(h_N + threads - 1) / threads`. -/
def blocks (n : Nat) : Nat := (n + threads - 1) / threads

/-- `blockIdx.x * blockDim.x + threadIdx.x` as an `int`. -/
def idx (block thread : Nat) : Int := (BitVec.ofNat 32 (block * threads + thread)).toInt

/-- Where a thread of `vectorAdd` is, with what it has loaded. -/
inductive Pc (F : Type) where
  | start
  | loadA
  | loadB (x : F)
  | store (x y : F)
  | done

def Pc.isDone : Pc F → Bool
  | .done => true
  | _ => false

/-- One step of a thread with index `i`. -/
def vectorAdd (add : F → F → F) (n : Nat) (a b c : Int → F) (i : Int) :
    Pc F → Option (Pc F × (Int → F))
  | .start => some (if i < n then .loadA else .done, c)
  | .loadA => some (.loadB (a i), c)
  | .loadB x => some (.store x (b i), c)
  | .store x y => some (.done, Function.update c i (add x y))
  | .done => none

inductive HostStmt where
  | launch
  | synchronize
  | copyBack
  deriving DecidableEq

/-- What `main` does with the device, from the warm-up run on. -/
def program (iterations : Int) : List HostStmt :=
  [.launch, .synchronize] ++ List.replicate iterations.toNat .launch ++
    [.synchronize, .copyBack]

/-- `result` is `h_C` once it is copied back. `finished` counts launches and is a history
variable. -/
structure State (F : Type) where
  a : Int → F
  b : Int → F
  c : Int → F
  host : List HostStmt
  queue : Nat
  running : Option (Nat → Nat → Pc F)
  finished : Nat
  result : Option (Int → F)

inductive Label where
  | host
  | begin
  | thread (block thread : Nat)
  | finish

def State.idle (s : State F) : Bool := s.queue = 0 && s.running.isNone

def step (add : F → F → F) (n : Nat) (s : State F) : Label → Option (State F)
  | .host =>
      match s.host with
      | [] => none
      | .launch :: rest => some { s with host := rest, queue := s.queue + 1 }
      | .synchronize :: rest => if s.idle then some { s with host := rest } else none
      | .copyBack :: rest =>
          if s.idle then some { s with host := rest, result := some s.c } else none
  | .begin =>
      if s.running.isNone ∧ 0 < s.queue then
        some { s with queue := s.queue - 1, running := some fun _ _ => .start }
      else none
  | .thread block thread =>
      match s.running with
      | none => none
      | some pcs =>
          if block < blocks n ∧ thread < threads then
            (vectorAdd add n s.a s.b s.c (idx block thread) (pcs block thread)).map fun r =>
              { s with
                running := some (Function.update pcs block
                  (Function.update (pcs block) thread r.1))
                c := r.2 }
          else none
  | .finish =>
      match s.running with
      | none => none
      | some pcs =>
          if ∀ block < blocks n, ∀ thread < threads, (pcs block thread).isDone then
            some { s with running := none, finished := s.finished + 1 }
          else none

/-- The vectors are on the device. -/
def start (a b c : Int → F) (iterations : Int) : State F :=
  ⟨a, b, c, program iterations, 0, none, 0, none⟩

def system (add : F → F → F) (n : Nat) (a b c : Int → F) (iterations : Int) :
    System (State F) Label where
  start := fun s => s = start a b c iterations
  step := step add n

section Index

variable {n block thread : Nat}

/-- The indices do not wrap around. -/
theorem idx_eq (hn : n + threads - 1 < 2 ^ 31) (hblock : block < blocks n)
    (hthread : thread < threads) : idx block thread = (block * threads + thread : Nat) := by
  have hlast : block + 1 ≤ (n + threads - 1) / threads := hblock
  have hbound : (block + 1) * threads ≤ n + threads - 1 :=
    (Nat.mul_le_mul_right threads hlast).trans (Nat.div_mul_le_self _ _)
  rw [Nat.add_mul, Nat.one_mul] at hbound
  have hlt : block * threads + thread < 2 ^ 31 := by omega
  rw [idx, BitVec.toInt_eq_toNat_of_lt, BitVec.toNat_ofNat, Nat.mod_eq_of_lt]
  · omega
  · rw [BitVec.toNat_ofNat, Nat.mod_eq_of_lt] <;> omega

/-- Every element has a thread. -/
theorem exists_idx (hn : n + threads - 1 < 2 ^ 31) {i : Int} (hi : 0 ≤ i) (hlt : i < n) :
    ∃ block < blocks n, ∃ thread < threads, idx block thread = i := by
  obtain ⟨k, rfl⟩ := Int.eq_ofNat_of_zero_le hi
  have hk : k < n := by omega
  have hblock : k / threads < blocks n := by
    rw [blocks, threads] at *
    omega
  have hthread : k % threads < threads := Nat.mod_lt _ (by decide)
  refine ⟨k / threads, hblock, k % threads, hthread, ?_⟩
  rw [idx_eq hn hblock hthread, Nat.div_add_mod' k threads]

end Index

/-- What a thread with index `i` has established where it is. -/
def Established (add : F → F → F) (n : Nat) (a b c : Int → F) (i : Int) : Pc F → Prop
  | .start => True
  | .loadA => i < n
  | .loadB x => i < n ∧ x = a i
  | .store x y => i < n ∧ x = a i ∧ y = b i
  | .done => i < n → c i = add (a i) (b i)

/-- Whatever the order of the threads, an element is the first one or the sum. -/
structure Sound (add : F → F → F) (n : Nat) (a b c₀ : Int → F) (s : State F) : Prop where
  inputA : s.a = a
  inputB : s.b = b
  outside : ∀ i : Int, ¬ (0 ≤ i ∧ i < n) → s.c i = c₀ i
  inside : ∀ i : Int, 0 ≤ i → i < n → s.c i = c₀ i ∨ s.c i = add (a i) (b i)
  finished : 0 < s.finished → ∀ i : Int, 0 ≤ i → i < n → s.c i = add (a i) (b i)
  threads : ∀ pcs, s.running = some pcs → ∀ block < blocks n, ∀ thread < threads,
    Established add n a b s.c (idx block thread) (pcs block thread)

section Kernel

variable {add : F → F → F} {n : Nat} {a b c c' c₀ : Int → F} {s s' : State F}

/-- The step of one thread: its own element becomes the sum or stays as it is, the others
stay, and what the thread says of its element is true afterwards. -/
theorem vectorAdd_spec {i : Int} {pc pc' : Pc F} (h : Established add n a b c i pc)
    (hstep : vectorAdd add n a b c i pc = some (pc', c')) :
    (∀ j, c' j = c j ∨ (j = i ∧ i < n ∧ c' j = add (a j) (b j))) ∧
      Established add n a b c' i pc' := by
  cases pc with
  | start =>
      obtain ⟨rfl, rfl⟩ := Prod.mk.inj (Option.some.inj hstep)
      constructor
      · exact fun _ => Or.inl rfl
      · split
        · assumption
        · rename_i hout
          exact fun hin => absurd hin hout
  | loadA =>
      obtain ⟨rfl, rfl⟩ := Prod.mk.inj (Option.some.inj hstep)
      exact ⟨fun _ => Or.inl rfl, h, rfl⟩
  | loadB x =>
      obtain ⟨rfl, rfl⟩ := Prod.mk.inj (Option.some.inj hstep)
      exact ⟨fun _ => Or.inl rfl, h.1, h.2, rfl⟩
  | store x y =>
      obtain ⟨rfl, rfl⟩ := Prod.mk.inj (Option.some.inj hstep)
      obtain ⟨hin, rfl, rfl⟩ := h
      constructor
      · intro j
        by_cases hj : j = i
        · subst hj
          exact Or.inr ⟨rfl, hin, Function.update_self ..⟩
        · exact Or.inl (Function.update_of_ne hj ..)
      · exact fun _ => Function.update_self ..
  | done => cases hstep

/-- A sum stays true whoever writes. -/
theorem established_of_stores {i j : Int} {pc : Pc F} (h : Established add n a b c j pc)
    (hc : ∀ j, c' j = c j ∨ (j = i ∧ i < n ∧ c' j = add (a j) (b j))) :
    Established add n a b c' j pc := by
  cases pc with
  | start => trivial
  | loadA | loadB x | store x y => exact h
  | done =>
      intro hj
      rcases hc j with hsame | ⟨-, -, hsum⟩
      · rw [hsame]
        exact h hj
      · exact hsum

theorem Sound.thread (hn : n + VectorAdd.threads - 1 < 2 ^ 31) (h : Sound add n a b c₀ s)
    {block thread : Nat} (hstep : step add n s (.thread block thread) = some s') :
    Sound add n a b c₀ s' := by
  simp only [step] at hstep
  split at hstep
  · cases hstep
  rename_i pcs hpcs
  split at hstep
  swap
  · cases hstep
  rename_i hin
  obtain ⟨⟨pc', c'⟩, hvectorAdd, rfl⟩ := Option.map_eq_some_iff.mp hstep
  rw [h.inputA, h.inputB] at hvectorAdd
  obtain ⟨hc, hpc⟩ := vectorAdd_spec (h.threads pcs hpcs block hin.1 thread hin.2) hvectorAdd
  have hidx : 0 ≤ idx block thread := by
    rw [idx_eq hn hin.1 hin.2]
    omega
  constructor
  · exact h.inputA
  · exact h.inputB
  · intro i hi
    rcases hc i with hsame | ⟨rfl, hlt, -⟩
    · exact hsame.trans (h.outside i hi)
    · exact absurd ⟨hidx, hlt⟩ hi
  · intro i hi hlt
    rcases hc i with hsame | ⟨-, -, hsum⟩
    · simp only [hsame]
      exact h.inside i hi hlt
    · exact Or.inr hsum
  · intro hfinished i hi hlt
    rcases hc i with hsame | ⟨-, -, hsum⟩
    · exact hsame.trans (h.finished hfinished i hi hlt)
    · exact hsum
  · intro pcs' hpcs' block' hblock' thread' hthread'
    obtain rfl := Option.some.inj hpcs'
    have hother := established_of_stores (h.threads pcs hpcs block' hblock' thread' hthread') hc
    by_cases hb : block' = block
    · subst hb
      rw [Function.update_self]
      by_cases ht : thread' = thread
      · subst ht
        rw [Function.update_self]
        exact hpc
      · rw [Function.update_of_ne ht]
        exact hother
    · rw [Function.update_of_ne hb]
      exact hother

/-- When all threads are done, all elements are sums. -/
theorem Sound.sums (hn : n + VectorAdd.threads - 1 < 2 ^ 31) (h : Sound add n a b c₀ s)
    {pcs : Nat → Nat → Pc F} (hpcs : s.running = some pcs)
    (hdone : ∀ block < blocks n, ∀ thread < VectorAdd.threads, (pcs block thread).isDone)
    {i : Int} (hi : 0 ≤ i) (hlt : i < n) : s.c i = add (a i) (b i) := by
  obtain ⟨block, hblock, thread, hthread, rfl⟩ := exists_idx hn hi hlt
  have hthreads := h.threads pcs hpcs block hblock thread hthread
  have hend := hdone block hblock thread hthread
  cases hpc : pcs block thread with
  | done =>
      rw [hpc] at hthreads
      exact hthreads hlt
  | start | loadA | loadB x | store x y =>
      rw [hpc] at hend
      cases hend

theorem Sound.step (hn : n + VectorAdd.threads - 1 < 2 ^ 31) (h : Sound add n a b c₀ s)
    {l : Label} (hstep : VectorAdd.step add n s l = some s') : Sound add n a b c₀ s' := by
  cases l with
  | host =>
      simp only [VectorAdd.step] at hstep
      split at hstep
      · cases hstep
      · cases hstep
        exact ⟨h.inputA, h.inputB, h.outside, h.inside, h.finished, h.threads⟩
      · split at hstep
        · cases hstep
          exact ⟨h.inputA, h.inputB, h.outside, h.inside, h.finished, h.threads⟩
        · cases hstep
      · split at hstep
        · cases hstep
          exact ⟨h.inputA, h.inputB, h.outside, h.inside, h.finished, h.threads⟩
        · cases hstep
  | begin =>
      simp only [VectorAdd.step] at hstep
      split at hstep
      · cases hstep
        refine ⟨h.inputA, h.inputB, h.outside, h.inside, h.finished, ?_⟩
        intro pcs hpcs block _ thread _
        obtain rfl := Option.some.inj hpcs
        trivial
      · cases hstep
  | thread block thread => exact h.thread hn hstep
  | finish =>
      simp only [VectorAdd.step] at hstep
      split at hstep
      · cases hstep
      rename_i pcs hpcs
      split at hstep
      · rename_i hdone
        cases hstep
        refine ⟨h.inputA, h.inputB, h.outside, h.inside, ?_, ?_⟩
        · exact fun _ i hi hlt => h.sums hn hpcs hdone hi hlt
        · intro pcs' hpcs'
          cases hpcs'
      · cases hstep

end Kernel

/-- What the host has queued is finished, running or still in the queue, and what it has
copied back are sums. -/
structure Hosted (add : F → F → F) (n : Nat) (a b : Int → F) (iterations : Int) (s : State F) :
    Prop where
  launched : ∃ done, program iterations = done ++ s.host ∧
    s.finished + s.queue + (if s.running.isSome then 1 else 0) = done.count .launch
  result : ∀ r, s.result = some r → ∀ i : Int, 0 ≤ i → i < n → r i = add (a i) (b i)
  copied : .copyBack ∉ s.host → s.result.isSome

section Host

variable {add : F → F → F} {n : Nat} {a b c₀ : Int → F} {iterations : Int} {s s' : State F}

/-- The warm-up run comes before the copy. -/
theorem launched_of_copyBack {done rest : List HostStmt}
    (h : program iterations = done ++ .copyBack :: rest) : 0 < done.count .launch := by
  cases done with
  | nil => cases h
  | cons stmt before =>
      have hfirst : HostStmt.launch = stmt := (List.cons.inj h).1
      rw [← hfirst, List.count_cons_self]
      omega

theorem Hosted.step (hsound : Sound add n a b c₀ s) (h : Hosted add n a b iterations s)
    {l : Label} (hstep : VectorAdd.step add n s l = some s') :
    Hosted add n a b iterations s' := by
  obtain ⟨done, hdone, hcount⟩ := h.launched
  cases l with
  | host =>
      simp only [VectorAdd.step] at hstep
      split at hstep
      · cases hstep
      · rename_i rest hhost
        cases hstep
        have hnext : program iterations = (done ++ [HostStmt.launch]) ++ rest := by
          rw [hdone, hhost, List.append_cons]
        have hlaunch : s.finished + (s.queue + 1) + (if s.running.isSome then 1 else 0) =
            (done ++ [HostStmt.launch]).count HostStmt.launch := by
          rw [List.count_append, ← hcount, List.count_singleton_self]
          omega
        have hcopied : .copyBack ∉ rest → s.result.isSome := by
          intro hrest
          apply h.copied
          simpa [hhost] using hrest
        exact ⟨⟨_, hnext, hlaunch⟩, h.result, hcopied⟩
      · rename_i rest hhost
        split at hstep
        · cases hstep
          have hnext : program iterations = (done ++ [HostStmt.synchronize]) ++ rest := by
            rw [hdone, hhost, List.append_cons]
          have hsame : s.finished + s.queue + (if s.running.isSome then 1 else 0) =
              (done ++ [HostStmt.synchronize]).count HostStmt.launch := by
            rw [List.count_append, ← hcount]
            rfl
          have hcopied : .copyBack ∉ rest → s.result.isSome := by
            intro hrest
            apply h.copied
            simpa [hhost] using hrest
          exact ⟨⟨_, hnext, hsame⟩, h.result, hcopied⟩
        · cases hstep
      · rename_i rest hhost
        split at hstep
        · rename_i hidle
          cases hstep
          have hnext : program iterations = (done ++ [HostStmt.copyBack]) ++ rest := by
            rw [hdone, hhost, List.append_cons]
          have hsame : s.finished + s.queue + (if s.running.isSome then 1 else 0) =
              (done ++ [HostStmt.copyBack]).count HostStmt.launch := by
            rw [List.count_append, ← hcount]
            rfl
          have hlaunched := launched_of_copyBack (hhost ▸ hdone)
          have hfinished : 0 < s.finished := by
            simp only [State.idle, Bool.and_eq_true, decide_eq_true_eq,
              Option.isNone_iff_eq_none] at hidle
            simp only [hidle.1, hidle.2] at hcount
            simp at hcount
            omega
          refine ⟨⟨_, hnext, hsame⟩, ?_, fun _ => rfl⟩
          intro r hr
          obtain rfl := Option.some.inj hr
          exact hsound.finished hfinished
        · cases hstep
  | begin =>
      simp only [VectorAdd.step] at hstep
      split at hstep
      · rename_i hbegin
        cases hstep
        refine ⟨⟨done, hdone, ?_⟩, h.result, h.copied⟩
        rw [← hcount, Option.isNone_iff_eq_none.mp hbegin.1]
        simp
        omega
      · cases hstep
  | thread block thread =>
      simp only [VectorAdd.step] at hstep
      split at hstep
      · cases hstep
      rename_i pcs hpcs
      split at hstep
      · obtain ⟨r, -, rfl⟩ := Option.map_eq_some_iff.mp hstep
        refine ⟨⟨done, hdone, ?_⟩, h.result, h.copied⟩
        rw [← hcount, hpcs]
        rfl
      · cases hstep
  | finish =>
      simp only [VectorAdd.step] at hstep
      split at hstep
      · cases hstep
      rename_i pcs hpcs
      split at hstep
      · cases hstep
        refine ⟨⟨done, hdone, ?_⟩, h.result, h.copied⟩
        rw [← hcount, hpcs]
        simp
        omega
      · cases hstep

/-- Both invariants hold in every run. -/
theorem sound_of_run (hn : n + threads - 1 < 2 ^ 31)
    (h : Reachable (system add n a b c₀ iterations) s) :
    Sound add n a b c₀ s ∧ Hosted add n a b iterations s := by
  refine @RunsUnder.invariant _ _ _ _
    (fun s => Sound add n a b c₀ s ∧ Hosted add n a b iterations s) ?_ ?_ _ h
  · rintro s rfl
    constructor
    · refine ⟨rfl, rfl, fun _ _ => rfl, fun _ _ _ => Or.inl rfl, ?_, ?_⟩
      · exact fun hfinished => absurd hfinished (Nat.lt_irrefl 0)
      · exact fun pcs hpcs => by cases hpcs
    · have hcopy : HostStmt.copyBack ∈ program iterations := by simp [program]
      exact ⟨⟨[], rfl, rfl⟩, (fun r hr => by cases hr), fun hnot => absurd hcopy hnot⟩
  · rintro s l s' ⟨hsound, hhosted⟩ - hstep
    exact ⟨hsound.step hn hstep, hhosted.step hsound hstep⟩

end Host

/-- The steps that a thread has before it. -/
def Pc.left : Pc F → Nat
  | .start => 4
  | .loadA => 3
  | .loadB _ => 2
  | .store _ _ => 1
  | .done => 0

/-- The steps of all threads of a launch. -/
def work (n : Nat) : Nat := blocks n * (threads * 4)

def HostStmt.cost (n : Nat) : HostStmt → Nat
  | .launch => work n + 3
  | .synchronize | .copyBack => 1

def hostCost (n : Nat) : List HostStmt → Nat
  | [] => 0
  | stmt :: rest => stmt.cost n + hostCost n rest

def threadsLeft (n : Nat) (pcs : Nat → Nat → Pc F) : Nat :=
  ∑ block ∈ Finset.range (blocks n), ∑ thread ∈ Finset.range threads, (pcs block thread).left

/-- A bound of the steps still to come. -/
def State.weight (n : Nat) (s : State F) : Nat :=
  hostCost n s.host + s.queue * (work n + 2) +
    match s.running with
    | none => 0
    | some pcs => threadsLeft n pcs + 1

section Progress

variable {add : F → F → F} {n : Nat} {a b c c' c₀ : Int → F} {iterations : Int}
  {s s' : State F}

theorem left_lt {i : Int} {pc pc' : Pc F}
    (h : vectorAdd add n a b c i pc = some (pc', c')) : pc'.left < pc.left := by
  cases pc with
  | start =>
      obtain ⟨rfl, rfl⟩ := Prod.mk.inj (Option.some.inj h)
      split <;> simp [Pc.left]
  | loadA | loadB x | store x y =>
      obtain ⟨rfl, rfl⟩ := Prod.mk.inj (Option.some.inj h)
      simp [Pc.left]
  | done => cases h

theorem threadsLeft_start (n : Nat) :
    threadsLeft n (fun _ _ => (.start : Pc F)) = work n := by
  simp [threadsLeft, Pc.left, work]

theorem threadsLeft_lt {pcs : Nat → Nat → Pc F} {block thread : Nat} {pc' : Pc F}
    (hblock : block < blocks n) (hthread : thread < threads)
    (h : pc'.left < (pcs block thread).left) :
    threadsLeft n (Function.update pcs block (Function.update (pcs block) thread pc')) <
      threadsLeft n pcs := by
  have hrow : ∑ t ∈ Finset.range threads, (Function.update (pcs block) thread pc' t).left <
      ∑ t ∈ Finset.range threads, (pcs block t).left := by
    apply Finset.sum_lt_sum
    · intro t _
      by_cases ht : t = thread
      · subst ht
        rw [Function.update_self]
        omega
      · rw [Function.update_of_ne ht]
    · exact ⟨thread, Finset.mem_range.mpr hthread, by rwa [Function.update_self]⟩
  apply Finset.sum_lt_sum
  · intro k _
    by_cases hk : k = block
    · subst hk
      rw [Function.update_self]
      omega
    · rw [Function.update_of_ne hk]
  · exact ⟨block, Finset.mem_range.mpr hblock, by rwa [Function.update_self]⟩

theorem weight_lt {l : Label} (hstep : step add n s l = some s') :
    s'.weight n < s.weight n := by
  cases l with
  | host =>
      simp only [step] at hstep
      split at hstep
      · cases hstep
      · rename_i rest hhost
        cases hstep
        simp only [State.weight, hhost, hostCost, HostStmt.cost, Nat.add_mul]
        omega
      · rename_i rest hhost
        split at hstep
        · cases hstep
          simp only [State.weight, hhost, hostCost, HostStmt.cost]
          omega
        · cases hstep
      · rename_i rest hhost
        split at hstep
        · cases hstep
          simp only [State.weight, hhost, hostCost, HostStmt.cost]
          omega
        · cases hstep
  | begin =>
      simp only [step] at hstep
      split at hstep
      · rename_i hbegin
        cases hstep
        obtain ⟨q, hq⟩ : ∃ q, s.queue = q + 1 := ⟨s.queue - 1, by omega⟩
        simp only [State.weight, hq, Option.isNone_iff_eq_none.mp hbegin.1, threadsLeft_start,
          Nat.add_sub_cancel, Nat.add_mul]
        omega
      · cases hstep
  | thread block thread =>
      simp only [step] at hstep
      split at hstep
      · cases hstep
      rename_i pcs hpcs
      split at hstep
      · rename_i hin
        obtain ⟨⟨pc', c'⟩, hvectorAdd, rfl⟩ := Option.map_eq_some_iff.mp hstep
        have hless := threadsLeft_lt hin.1 hin.2 (left_lt hvectorAdd)
        simp only [State.weight, hpcs]
        omega
      · cases hstep
  | finish =>
      simp only [step] at hstep
      split at hstep
      · cases hstep
      rename_i pcs hpcs
      split at hstep
      · cases hstep
        simp only [State.weight, hpcs]
        omega
      · cases hstep

/-- A thread that is not done can go on. -/
theorem vectorAdd_isSome {i : Int} {pc : Pc F} (h : pc.isDone = false) :
    (vectorAdd add n a b c i pc).isSome := by
  cases pc with
  | done => cases h
  | start | loadA | loadB x | store x y => rfl

/-- Something can always be done until the host has come to its end. -/
theorem exists_step (h : s.host ≠ [] ∨ s.idle = false) : ∃ l, (step add n s l).isSome := by
  cases hrunning : s.running with
  | some pcs =>
      by_cases hdone : ∀ block < blocks n, ∀ thread < threads, (pcs block thread).isDone
      · exact ⟨.finish, by simp only [step, hrunning]; rw [if_pos hdone]; rfl⟩
      · simp only [not_forall] at hdone
        obtain ⟨block, hblock, thread, hthread, hpc⟩ := hdone
        refine ⟨.thread block thread, ?_⟩
        simp only [step, hrunning, if_pos (And.intro hblock hthread), Option.isSome_map]
        exact vectorAdd_isSome (Bool.eq_false_of_not_eq_true hpc)
  | none =>
      by_cases hqueue : 0 < s.queue
      · exact ⟨.begin, by simp [step, hrunning, hqueue]⟩
      · have hidle : s.idle = true := by simp [State.idle, hrunning]; omega
        have hhost := h.resolve_right (by simp [hidle])
        refine ⟨.host, ?_⟩
        cases hs : s.host with
        | nil => exact absurd hs hhost
        | cons stmt rest => cases stmt <;> simp [step, hs, hidle]

end Progress

section Result

variable {add : F → F → F} {n : Nat} {a b c₀ : Int → F} {iterations : Int} {s : State F}

/-- However the threads of the launches interleave and whatever the host has queued: what
lies outside of the vectors stays, an element of `C` is the first one or the sum and never
anything else, and what is copied back are the sums. -/
theorem sums_of_run (hn : n + threads - 1 < 2 ^ 31)
    (h : Reachable (system add n a b c₀ iterations) s) :
    (∀ i : Int, ¬ (0 ≤ i ∧ i < n) → s.c i = c₀ i) ∧
      (∀ i : Int, 0 ≤ i → i < n → s.c i = c₀ i ∨ s.c i = add (a i) (b i)) ∧
      ∀ r, s.result = some r → ∀ i : Int, 0 ≤ i → i < n → r i = add (a i) (b i) := by
  obtain ⟨hsound, hhosted⟩ := sound_of_run hn h
  exact ⟨hsound.outside, hsound.inside, hhosted.result⟩

/-- The first launch begins, and the fourth thread of the second block runs to its end. -/
def oneThread : List Label :=
  [.host, .begin, .thread 1 3, .thread 1 3, .thread 1 3, .thread 1 3]

/-- A million elements, of which the last has been added, as `h_A` and `h_B` start. -/
theorem sums_of_run_oneThread : ∃ s : State Int, s.c 259 = 777 ∧
    (∀ i : Int, ¬ (0 ≤ i ∧ i < (2 ^ 20 : Nat)) → s.c i = 0) ∧
      (∀ i : Int, 0 ≤ i → i < (2 ^ 20 : Nat) → s.c i = 0 ∨ s.c i = i + 2 * i) ∧
      ∀ r, s.result = some r → ∀ i : Int, 0 ≤ i → i < (2 ^ 20 : Nat) → r i = i + 2 * i := by
  have hrun : (exec (system (· + ·) (2 ^ 20) (fun i => i) (fun i => 2 * i) (fun _ => 0) 10000)
      (start (fun i => i) (fun i => 2 * i) (fun _ => 0) 10000) oneThread).map (fun s => s.c 259) =
        some (777 : Int) := by decide +kernel
  obtain ⟨s, hs, hsum⟩ := Option.map_eq_some_iff.mp hrun
  exact ⟨s, hsum, sums_of_run (by decide) (Reachable.exec oneThread (.start rfl) hs)⟩

/-- Every run is finite, and one that cannot go on has copied the sums back: no schedule
blocks the host or the device. -/
theorem ends_with_sums (hn : n + threads - 1 < 2 ^ 31) (schedule : List Label)
    (hexec : exec (system add n a b c₀ iterations) (start a b c₀ iterations) schedule =
      some s) :
    schedule.length ≤ hostCost n (program iterations) ∧
      ((∃ l, (step add n s l).isSome) ∨
        s.host = [] ∧ ∃ r, s.result = some r ∧
          ∀ i : Int, 0 ≤ i → i < n → r i = add (a i) (b i)) := by
  constructor
  · have hbound := exec_bounded (State.weight n) (fun _ _ _ => weight_lt) schedule hexec
    have hstart : (start a b c₀ iterations).weight n = hostCost n (program iterations) := by
      simp [State.weight, start]
    omega
  · obtain ⟨-, hhosted⟩ := sound_of_run hn (Reachable.exec schedule (.start rfl) hexec)
    by_cases hhost : s.host = []
    · right
      have hcopied : s.result.isSome := hhosted.copied (by simp [hhost])
      obtain ⟨r, hr⟩ := Option.isSome_iff_exists.mp hcopied
      exact ⟨hhost, r, hr, hhosted.result r hr⟩
    · exact Or.inl (exists_step (Or.inl hhost))

theorem ends_with_sums_oneThread : ∃ s : State Int,
    oneThread.length ≤ hostCost (2 ^ 20) (program 10000) ∧
      ((∃ l, (step (· + ·) (2 ^ 20) s l).isSome) ∨
        s.host = [] ∧ ∃ r, s.result = some r ∧
          ∀ i : Int, 0 ≤ i → i < (2 ^ 20 : Nat) → r i = i + 2 * i) := by
  have hrun : (exec (system (· + ·) (2 ^ 20) (fun i => i) (fun i => 2 * i) (fun _ => 0) 10000)
      (start (fun i => i) (fun i => 2 * i) (fun _ => 0) 10000) oneThread).map (fun s => s.c 259) =
        some (777 : Int) := by decide +kernel
  obtain ⟨s, hs, -⟩ := Option.map_eq_some_iff.mp hrun
  exact ⟨s, ends_with_sums (by decide) oneThread hs⟩

end Result

end BpftimeBenchmark.Gpu.VectorAdd
