import BpftimeBenchmark.Lib.Decimal
import BpftimeBenchmark.Lib.Dict
import BpftimeBenchmark.Lib.Search

/-!
How `perf_stat_sslsniff.py` looks for the process that perf is to measure: the first
descendant of the one it started, breadth first, whose name or command line is right.
-/

namespace BpftimeBenchmark.Bench.PerfTarget

open Search Text

def sslsniffPath : Text := "example/tracing/sslsniff/sslsniff".toList

def sslsniffName : Text := "sslsniff".toList

def sudoName : Text := "sudo".toList

inductive Mode where
  | kernel
  | bpftime
  deriving DecidableEq

/-- The `cmd` of `start_sslsniff`. -/
def startCommand (mode : Mode) (sslsniffArgs : List Text) : List Text :=
  match mode with
  | .kernel => sudoName :: sslsniffPath :: sslsniffArgs
  | .bpftime => sslsniffPath :: sslsniffArgs

/-- A row of `process_table`. -/
structure Proc where
  pid : Int
  ppid : Int
  comm : Text
  args : Text
  deriving DecidableEq

def childrenByParent (processes : List Proc) : Dict Int (List Proc) :=
  processes.foldl (fun d proc => d.push proc.ppid proc) Dict.empty

/-- `children_by_parent.get(pid, [])`. -/
def childrenOf (processes : List Proc) (pid : Int) : List Proc :=
  ((childrenByParent processes).get? pid).getD []

def isTarget (proc : Proc) : Bool :=
  proc.comm = sslsniffName || contains proc.args sslsniffPath

/-- `find_descendant_sslsniff_pid` in this process table; without fuel there is no
answer. -/
def findDescendantSslsniffPid (fuel : Nat) (processes : List Proc) (rootPid : Int) :
    Option (Option Int) :=
  (search (fun proc => childrenOf processes proc.pid) isTarget fuel
    (childrenOf processes rootPid)).map (Option.map Proc.pid)

/-- The loop of `wait_for_perf_target_pid` over the process tables it sees before its
deadline; `none` stands for its `RuntimeError`. -/
def pollPerfTargetPid (fuel : Nat) (rootPid : Int) : List (List Proc) → Option (Option Int)
  | [] => some none
  | processes :: later =>
      match findDescendantSslsniffPid fuel processes rootPid with
      | some none => pollPerfTargetPid fuel rootPid later
      | found => found

def waitForPerfTargetPid (mode : Mode) (fuel : Nat) (pid : Int) (tables : List (List Proc)) :
    Option (Option Int) :=
  match mode with
  | .bpftime => some (some pid)
  | .kernel => pollPerfTargetPid fuel pid tables

/-- A parent and a child of the table. -/
def ChildOf (table : List Proc) (parent child : Int) : Prop :=
  ∃ proc ∈ table, proc.ppid = parent ∧ proc.pid = child

def Acyclic (table : List Proc) : Prop := ∀ pid, ¬ Relation.TransGen (ChildOf table) pid pid

/-- A process that many generations below the root. -/
inductive Below (table : List Proc) (root : Int) : Nat → Proc → Prop
  | child {p : Proc} (hp : p ∈ table) (h : p.ppid = root) : Below table root 1 p
  | step {n : Nat} {p q : Proc} (hp : Below table root n p) (hq : q ∈ table)
      (h : q.ppid = p.pid) : Below table root (n + 1) q

/-- The descendants of the root, level by level and in the order of the table. -/
def descendants (table : List Proc) (root : Int) : List Proc :=
  order (fun proc => childrenOf table proc.pid) (childrenOf table root) table.length

/-- The root is the `sudo` that `start_sslsniff` starts. -/
def Launched (table : List Proc) (root : Int) : Prop :=
  ∃ sslsniffArgs, ∃ p ∈ table, p.pid = root ∧ p.comm = sudoName ∧
    p.args = join [' '] (startCommand .kernel sslsniffArgs)

/-- Another process with the command line, as the helpers of `sudo` are. -/
def isHelper (proc : Proc) : Bool :=
  !decide (proc.comm = sslsniffName) && contains proc.args sslsniffPath

/-- A descendant named sslsniff comes before every helper. -/
def SslsniffFirst (table : List Proc) (root : Int) : Prop :=
  ∃ before p after, descendants table root = before ++ p :: after ∧ p.comm = sslsniffName ∧
    ∀ q ∈ before, isHelper q = false

/-- The function ends and returns this. -/
def Finds (table : List Proc) (root : Int) (result : Option Int) : Prop :=
  ∃ bound, ∀ fuel ≥ bound, findDescendantSslsniffPid fuel table root = some result

/-- It returns a process named sslsniff. -/
def MeasuresSslsniff (table : List Proc) (root : Int) : Prop :=
  ∃ p ∈ table, p.comm = sslsniffName ∧ Finds table root (some p.pid)

variable {table : List Proc} {root : Int}

theorem childrenOf_eq (table : List Proc) (pid : Int) :
    childrenOf table pid = table.filter (fun proc => proc.ppid = pid) := by
  have hindex : childrenByParent table =
      Dict.empty.pushAll (table.map fun proc => (proc.ppid, proc)) := by
    rw [childrenByParent, Dict.pushAll, List.foldl_map]
  rw [childrenOf, hindex, Dict.getD_pushAll, Dict.valuesOf_keyed]
  rfl

theorem mem_childrenOf {proc : Proc} {pid : Int} :
    proc ∈ childrenOf table pid ↔ proc ∈ table ∧ proc.ppid = pid := by
  rw [childrenOf_eq, List.mem_filter, decide_eq_true_eq]

theorem mem_level_iff {n : Nat} {proc : Proc} :
    proc ∈ level (fun p => childrenOf table p.pid) (childrenOf table root) n ↔
      Below table root (n + 1) proc := by
  induction n generalizing proc with
  | zero =>
      rw [level, mem_childrenOf]
      constructor
      · rintro ⟨hproc, hparent⟩
        exact .child hproc hparent
      · intro h
        cases h with
        | child hproc hparent => exact ⟨hproc, hparent⟩
        | step hp => cases hp
  | succ n ih =>
      rw [mem_level_succ]
      simp only [ih, mem_childrenOf]
      constructor
      · rintro ⟨p, hp, hproc, hparent⟩
        exact .step hp hproc hparent
      · intro h
        cases h with
        | step hp hproc hparent => exact ⟨_, hp, hproc, hparent⟩

theorem Below.mem {n : Nat} {proc : Proc} (h : Below table root n proc) : proc ∈ table := by
  cases h with
  | child hmem => exact hmem
  | step _ hmem => exact hmem

/-- What the search needs of a table without cycles. -/
theorem search_conditions (h : Acyclic table) :
    (∀ p ∈ childrenOf table root, p ∈ table) ∧
      (∀ p q : Proc, q ∈ childrenOf table p.pid → q ∈ table) ∧
      ∀ p, ¬ Relation.TransGen (Next fun q : Proc => childrenOf table q.pid) p p := by
  refine ⟨fun p hp => (mem_childrenOf.mp hp).1, fun p q hq => (mem_childrenOf.mp hq).1, ?_⟩
  intro p hp
  refine h p.pid (hp.lift Proc.pid ?_)
  intro a b hb
  obtain ⟨hmem, hparent⟩ := mem_childrenOf.mp hb
  exact ⟨b, hmem, hparent, rfl⟩

/-- The function ends, and it returns the first of the descendants that passes. -/
theorem finds_of_acyclic (h : Acyclic table) :
    Finds table root (((descendants table root).find? isTarget).map Proc.pid) := by
  obtain ⟨hqueue, hnext, hacyclic⟩ := @search_conditions _ root h
  refine ⟨(descendants table root).length + 1, fun fuel hfuel => ?_⟩
  rw [findDescendantSslsniffPid, search_eq (level_eq_nil hqueue hnext hacyclic) hfuel]
  rfl

theorem Finds.unique {r r' : Option Int} (h : Finds table root r) (h' : Finds table root r') :
    r = r' := by
  obtain ⟨bound, hbound⟩ := h
  obtain ⟨bound', hbound'⟩ := h'
  have hr := hbound (max bound bound') (le_max_left _ _)
  rw [hbound' _ (le_max_right _ _)] at hr
  exact (Option.some.inj hr).symm

theorem mem_descendants (h : Acyclic table) {proc : Proc} :
    proc ∈ descendants table root ↔ ∃ n, Below table root n proc := by
  obtain ⟨hqueue, hnext, hacyclic⟩ := @search_conditions _ root h
  rw [descendants, mem_order_nodes hqueue hnext hacyclic]
  simp only [mem_level_iff]
  constructor
  · rintro ⟨n, hn⟩
    exact ⟨n + 1, hn⟩
  · rintro ⟨n, hn⟩
    cases hn with
    | child hp hparent => exact ⟨0, .child hp hparent⟩
    | step hp hq hparent => exact ⟨_, .step hp hq hparent⟩

theorem not_isTarget_of_find? (h : Acyclic table)
    (hnone : (descendants table root).find? isTarget = none) {n : Nat} {p : Proc}
    (hp : Below table root n p) : isTarget p = false := by
  have hmem := (mem_descendants h).mpr ⟨n, hp⟩
  simpa using List.find?_eq_none.mp hnone p hmem

/-- In the kernel mode the loop takes the first table in which a descendant passes. -/
theorem polls_first (root : Int) (tables : List (List Proc)) (h : ∀ t ∈ tables, Acyclic t) :
    ∃ bound result, (∀ fuel ≥ bound, waitForPerfTargetPid .kernel fuel root tables = some result) ∧
      match result with
      | some pid => ∃ earlier t later, tables = earlier ++ t :: later ∧
          Finds t root (some pid) ∧ ∀ e ∈ earlier, ∀ n p, Below e root n p → isTarget p = false
      | none => ∀ t ∈ tables, ∀ n p, Below t root n p → isTarget p = false := by
  induction tables with
  | nil => exact ⟨0, none, fun _ _ => rfl, by simp⟩
  | cons t later ih =>
      have ht := h t List.mem_cons_self
      obtain ⟨bound, hbound⟩ := @finds_of_acyclic _ root ht
      cases hfind : (descendants t root).find? isTarget with
      | some p =>
          rw [hfind] at hbound
          refine ⟨bound, some p.pid, ?_, [], t, later, rfl, ⟨bound, hbound⟩, by simp⟩
          intro fuel hfuel
          show pollPerfTargetPid fuel root (t :: later) = _
          rw [pollPerfTargetPid, hbound fuel hfuel]
          rfl
      | none =>
          rw [hfind] at hbound
          have hnone : ∀ n p, Below t root n p → isTarget p = false :=
            fun n p hp => not_isTarget_of_find? ht hfind hp
          obtain ⟨bound', result, hpoll, hresult⟩ := ih fun u hu => h u (List.mem_cons_of_mem _ hu)
          refine ⟨max bound bound', result, ?_, ?_⟩
          · intro fuel hfuel
            show pollPerfTargetPid fuel root (t :: later) = _
            rw [pollPerfTargetPid, hbound fuel (le_trans (le_max_left _ _) hfuel)]
            exact hpoll fuel (le_trans (le_max_right _ _) hfuel)
          · cases result with
            | none => exact List.forall_mem_cons.mpr ⟨hnone, hresult⟩
            | some pid =>
                obtain ⟨earlier, u, rest, rfl, hfound, hearlier⟩ := hresult
                exact ⟨t :: earlier, u, rest, rfl, hfound,
                  List.forall_mem_cons.mpr ⟨hnone, hearlier⟩⟩

theorem acyclic_of_ppid_lt (h : ∀ p ∈ table, p.ppid < p.pid) : Acyclic table := by
  have hlt : ∀ a b, Relation.TransGen (ChildOf table) a b → a < b := by
    intro a b hab
    induction hab with
    | single hchild =>
        obtain ⟨p, hp, rfl, rfl⟩ := hchild
        exact h p hp
    | tail _ hchild ih =>
        obtain ⟨p, hp, rfl, rfl⟩ := hchild
        exact ih.trans (h p hp)
  exact fun pid hpid => lt_irrefl pid (hlt pid pid hpid)

/-- `sudo` with a helper of its own, which started sslsniff. -/
def helperTable : List Proc :=
  [⟨102, 101, sslsniffName, sslsniffPath⟩,
    ⟨101, 100, sudoName, join [' '] (startCommand .kernel [])⟩,
    ⟨100, 1, sudoName, join [' '] (startCommand .kernel [])⟩]

theorem helperTable_acyclic : Acyclic helperTable := acyclic_of_ppid_lt (by decide)

/-- The search ends; what it finds is a descendant that passes the test, and none
nearer to the root does; and it finds one if there is one. -/
theorem findDescendant_nearest (table : List Proc) (root : Int) (h : Acyclic table) :
    ∃ result, Finds table root result ∧
      match result with
      | some pid => ∃ p n, p.pid = pid ∧ Below table root n p ∧ isTarget p = true ∧
          ∀ m < n, ∀ q, Below table root m q → isTarget q = false
      | none => ∀ n p, Below table root n p → isTarget p = false := by
  refine ⟨_, finds_of_acyclic h, ?_⟩
  cases hfind : (descendants table root).find? isTarget with
  | none => exact fun n p hp => not_isTarget_of_find? h hfind hp
  | some p =>
      obtain ⟨i, -, hmem, htest, hearlier⟩ := find?_order hfind
      refine ⟨p, i + 1, rfl, mem_level_iff.mp hmem, htest, ?_⟩
      intro m hm q hq
      cases hq with
      | child hq hparent =>
          exact hearlier 0 (by omega) q (mem_level_iff.mpr (.child hq hparent))
      | @step k p' _ hp hq hparent =>
          exact hearlier k (by omega) q (mem_level_iff.mpr (.step hp hq hparent))

theorem findDescendant_nearest_helper :
    ∃ result, Finds helperTable 100 result ∧
      match result with
      | some pid => ∃ p n, p.pid = pid ∧ Below helperTable 100 n p ∧ isTarget p = true ∧
          ∀ m < n, ∀ q, Below helperTable 100 m q → isTarget q = false
      | none => ∀ n p, Below helperTable 100 n p → isTarget p = false :=
  findDescendant_nearest helperTable 100 helperTable_acyclic

theorem comm_of_isTarget {p : Proc} (h : isTarget p = true) (hhelper : isHelper p = false) :
    p.comm = sslsniffName := by
  by_contra hcomm
  simp [isTarget, isHelper, hcomm] at h hhelper
  rw [h] at hhelper
  cases hhelper

theorem isTarget_of_comm {p : Proc} (h : p.comm = sslsniffName) : isTarget p = true := by
  simp [isTarget, h]

/-- The search ends at sslsniff and not at a helper exactly when it meets sslsniff
first. -/
theorem measuresSslsniff_iff (table : List Proc) (root : Int)
    (hpids : (table.map Proc.pid).Nodup) (h : Acyclic table) :
    MeasuresSslsniff table root ↔ SslsniffFirst table root := by
  have hfinds := @finds_of_acyclic _ root h
  constructor
  · rintro ⟨p, hp, hcomm, hfound⟩
    have hfind := hfinds.unique hfound
    obtain ⟨q, hq, hpid⟩ := Option.map_eq_some_iff.mp hfind
    obtain ⟨n, hn⟩ := (mem_descendants h).mp (List.mem_of_find?_eq_some hq)
    have hmem : q ∈ table := hn.mem
    obtain rfl : q = p := List.inj_on_of_nodup_map hpids hmem hp hpid
    obtain ⟨-, before, after, horder, hbefore⟩ := List.find?_eq_some_iff_append.mp hq
    refine ⟨before, q, after, horder, hcomm, fun r hr => ?_⟩
    have htarget := hbefore r hr
    simp only [Bool.not_eq_true', isTarget, Bool.or_eq_false_iff] at htarget
    simp [isHelper, htarget.2]
  · rintro ⟨before, p, after, horder, hcomm, hbefore⟩
    obtain ⟨q, hq⟩ : ∃ q, (descendants table root).find? isTarget = some q := by
      rw [← Option.isSome_iff_exists, List.find?_isSome]
      exact ⟨p, by simp [horder], isTarget_of_comm hcomm⟩
    have hname : q.comm = sslsniffName := by
      rw [horder, List.find?_append] at hq
      cases hfind : before.find? isTarget with
      | some r =>
          rw [hfind] at hq
          obtain rfl := Option.some.inj hq
          have hhelper := hbefore r (List.mem_of_find?_eq_some hfind)
          exact comm_of_isTarget (List.find?_some hfind) hhelper
      | none =>
          rw [hfind, Option.none_or, List.find?_cons_of_pos (isTarget_of_comm hcomm)] at hq
          obtain rfl := Option.some.inj hq
          exact hcomm
    obtain ⟨n, hn⟩ := (mem_descendants h).mp (List.mem_of_find?_eq_some hq)
    rw [hq] at hfinds
    exact ⟨q, hn.mem, hname, hfinds⟩

/-- `sudo` which has started sslsniff and, after it, a helper of its own. -/
def forkedTable : List Proc :=
  [⟨101, 100, sslsniffName, sslsniffPath⟩,
    ⟨102, 100, sudoName, join [' '] (startCommand .kernel [])⟩,
    ⟨100, 1, sudoName, join [' '] (startCommand .kernel [])⟩]

theorem measuresSslsniff_iff_forked :
    (∃ q ∈ descendants forkedTable 100, isHelper q = true) ∧
      MeasuresSslsniff forkedTable 100 := by
  refine ⟨by decide +kernel, ?_⟩
  have horder : descendants forkedTable 100 =
      [⟨101, 100, sslsniffName, sslsniffPath⟩,
        ⟨102, 100, sudoName, join [' '] (startCommand .kernel [])⟩] := by decide +kernel
  have hacyclic : Acyclic forkedTable := acyclic_of_ppid_lt (by decide)
  apply (measuresSslsniff_iff forkedTable 100 (by decide) hacyclic).mpr
  exact ⟨[], _, _, horder, rfl, by simp⟩

/-- The helper of `sudo` is met first, and perf measures it. -/
theorem helper_is_measured :
    ¬ ∀ table root, (table.map Proc.pid).Nodup → Acyclic table → Launched table root →
      (∃ n p, Below table root n p ∧ p.comm = sslsniffName) → MeasuresSslsniff table root := by
  intro hclaim
  have hbelow : Below helperTable 100 2 ⟨102, 101, sslsniffName, sslsniffPath⟩ :=
    .step (.child (p := ⟨101, 100, sudoName, join [' '] (startCommand .kernel [])⟩)
      (by decide +kernel) rfl) (by decide +kernel) rfl
  have hlaunched : Launched helperTable 100 :=
    ⟨[], ⟨100, 1, sudoName, join [' '] (startCommand .kernel [])⟩, by decide +kernel, rfl, rfl, rfl⟩
  obtain ⟨p, hp, hcomm, hfound⟩ := hclaim helperTable 100 (by decide) helperTable_acyclic
    hlaunched ⟨2, _, hbelow, rfl⟩
  have hfirst : ((descendants helperTable 100).find? isTarget).map Proc.pid = some 101 := by
    decide +kernel
  have hfinds := @finds_of_acyclic _ 100 helperTable_acyclic
  rw [hfirst] at hfinds
  have hpid : p.pid = 101 := (Option.some.inj (hfinds.unique hfound)).symm
  have hnames : ∀ q ∈ helperTable, q.pid = 101 → q.comm ≠ sslsniffName := by decide +kernel
  exact hnames p hp hpid hcomm

end BpftimeBenchmark.Bench.PerfTarget
