import BpftimeBenchmark.FsCache.System

/-!
What a program notices of `fs-cache.bpf.c`. Beside the system with the handlers stands
the bare kernel, in which every syscall is entered, executed and left. The two cannot be
told apart by results, memory or kernel until a handler answers a call itself, and that
happens for a listing of a cached path and for an open that the filter denies.
-/

namespace BpftimeBenchmark.FsCache

open Transition

variable {σ : Type}

/-- The bare kernel with its processes. The result of a call is in its phase. -/
structure Bare (σ : Type) where
  kernel : σ
  mem : U32 → Memory
  phase : U64 → Phase

def Bare.move (b : Bare σ) (task : Task) (p : Phase) : Bare σ :=
  { b with phase := Function.update b.phase task.pidTgid p }

def bareStep (K : Kernel σ) (b : Bare σ) : Label → Option (Bare σ)
  | .enter task call =>
      if b.phase task.pidTgid = .idle then some (b.move task (.entered call)) else none
  | .kernel task call resp =>
      if b.phase task.pidTgid = .entered call then
        (K.exec b.kernel task call resp).map fun k =>
          { kernel := k
            mem := Function.update b.mem task.pid
              (kernelWrite call resp.data (b.mem task.pid))
            phase := Function.update b.phase task.pidTgid (.returned call resp.ret) }
      else none
  | .leave task call ret =>
      if b.phase task.pidTgid = .returned call ret then some (b.move task .idle) else none
  | .store pid p v =>
      some { b with mem := Function.update b.mem pid (Function.update (b.mem pid) p v) }

def bareSystem (K : Kernel σ) : System (Bare σ) Label := ⟨fun _ => True, bareStep K⟩

/-- What the maps and the history variable add is forgotten. -/
def World.bare (w : World σ) : Bare σ := ⟨w.kernel, w.mem, w.phase⟩

/-- The calls that an enter handler answers: the listing of a cached path, and an open
that the filter denies. -/
def Maps.answers (m : Maps) (task : Task) : Syscall → Bool
  | .openPath name _ => m.denied (filterKey task) name
  | .openat dirfd name _ =>
      !unfiltered task dirfd m &&
        m.denied (filterKey task) (CharArray.probeReadStr nameMax name).bytes
  | .getdents64 fd _ _ =>
      (m.pathOf task.pid fd).any fun path => (m.getdents64CacheMap.lookup path).isSome
  | .close _ | .fcntl _ _ | .chdir _ => false

/-- The step is not a call that a handler answers. -/
def Unanswered (w : World σ) : Label → Prop
  | .enter task call => w.phase task.pidTgid = .idle → w.maps.answers task call = false
  | _ => True

/-- A call that is not answered goes on with the memory as it was. -/
theorem enterHandler_of_not_answers {m : Maps} {task : Task} {call : Syscall} (mem : Memory)
    (h : m.answers task call = false) :
    (enterHandler task call m mem).2 = (mem, none) := by
  cases call with
  | openPath name flags =>
      have hdenied : m.denied (filterKey task) name = false := h
      simp [enterHandler, sysEnterOpen_eq, hdenied]
  | openat dirfd name flags =>
      simp only [Maps.answers] at h
      simp [enterHandler, sysEnterOpenat_eq, h]
  | getdents64 fd dirp count =>
      simp only [enterHandler]
      rcases sysEnterGetdents64_cases task fd dirp count m mem with
        ⟨-, henter⟩ | ⟨path, buf, hpath, hbuf, -, -⟩ | ⟨path, buf, hpath, hbuf, -, -⟩ |
        ⟨path, -, -, henter⟩
      · rw [henter]
      · simp [Maps.answers, hpath, hbuf] at h
      · simp [Maps.answers, hpath, hbuf] at h
      · rw [henter]
  | close fd | fcntl fd cmd | chdir dir => rfl

/-- A call that is answered has a result before the kernel is reached. -/
theorem enterHandler_of_answers {m : Maps} {task : Task} {call : Syscall} (mem : Memory)
    (h : m.answers task call = true) :
    ∃ ret, (enterHandler task call m mem).2.2 = some ret := by
  cases call with
  | openPath name flags =>
      have hdenied : m.denied (filterKey task) name = true := h
      exact ⟨-1, by simp [enterHandler, sysEnterOpen_eq, hdenied]⟩
  | openat dirfd name flags =>
      simp only [Maps.answers] at h
      exact ⟨-1, by simp [enterHandler, sysEnterOpenat_eq, h]⟩
  | getdents64 fd dirp count =>
      simp only [enterHandler]
      rcases sysEnterGetdents64_cases task fd dirp count m mem with
        ⟨hpath, -⟩ | ⟨path, buf, -, -, -, henter⟩ | ⟨path, buf, -, -, -, henter⟩ |
        ⟨path, hpath, habsent, -⟩
      · simp [Maps.answers, hpath] at h
      · exact ⟨0, by rw [henter]⟩
      · exact ⟨buf.nread, by rw [henter]⟩
      · simp [Maps.answers, hpath, habsent] at h
  | close fd | fcntl fd cmd | chdir dir => cases h

theorem bare_enter_of_not_answers {w : World σ} {task : Task} {call : Syscall}
    (h : w.maps.answers task call = false) :
    (w.enter task call).bare = w.bare.move task (.entered call) := by
  obtain ⟨m, hm⟩ : ∃ m, enterHandler task call w.maps (w.mem task.pid) =
      (m, w.mem task.pid, none) :=
    ⟨_, Prod.ext rfl (enterHandler_of_not_answers _ h)⟩
  rw [enter_pass hm]
  simp [World.bare, Bare.move]

/-- An answered call does not enter the kernel, as the bare one does. -/
theorem bare_enter_of_answers {w : World σ} {task : Task} {call : Syscall}
    (hidle : w.phase task.pidTgid = .idle) (h : w.maps.answers task call = true) :
    (w.enter task call).bare ≠ w.bare.move task (.entered call) := by
  obtain ⟨ret, hret⟩ := enterHandler_of_answers (w.mem task.pid) h
  rcases enter_cases w task call with ⟨-, -, hphase, -⟩ | ⟨hpass, -, -⟩
  · intro heq
    have hsame := congrFun (congrArg Bare.phase heq) task.pidTgid
    simp only [World.bare, Bare.move, hphase, hidle, Function.update_self] at hsame
    cases hsame
  · rw [hret] at hpass
    cases hpass

/-- One step looks the same without the handlers if and only if no handler answers. -/
theorem step_bare_iff (K : Kernel σ) (w : World σ) (l : Label) :
    (step K w l).map World.bare = bareStep K w.bare l ↔ Unanswered w l := by
  cases l with
  | enter task call =>
      by_cases hidle : w.phase task.pidTgid = .idle
      · have hbare : w.bare.phase task.pidTgid = .idle := hidle
        simp only [step, bareStep, hidle, hbare, if_true, Option.map_some, Option.some.injEq,
          Unanswered, true_imp_iff]
        cases hanswers : w.maps.answers task call with
        | false => simp [bare_enter_of_not_answers hanswers]
        | true => simpa using bare_enter_of_answers hidle hanswers
      · have hbare : ¬ w.bare.phase task.pidTgid = .idle := hidle
        simp [step, bareStep, hidle, hbare, Unanswered]
  | kernel task call resp =>
      refine iff_of_true ?_ trivial
      by_cases hentered : w.phase task.pidTgid = .entered call
      · have hbare : w.bare.phase task.pidTgid = .entered call := hentered
        simp only [step, bareStep, hentered, hbare, if_true, Option.map_map]
        rfl
      · have hbare : ¬ w.bare.phase task.pidTgid = .entered call := hentered
        simp [step, bareStep, hentered, hbare]
  | leave task call ret =>
      refine iff_of_true ?_ trivial
      by_cases hreturned : w.phase task.pidTgid = .returned call ret
      · have hbare : w.bare.phase task.pidTgid = .returned call ret := hreturned
        simp only [step, bareStep, hreturned, hbare, if_true, Option.map_some]
        rfl
      · have hbare : ¬ w.bare.phase task.pidTgid = .returned call ret := hreturned
        simp [step, bareStep, hreturned, hbare]
  | store pid p v => exact iff_of_true rfl trivial

/-- From any state and along any schedule, the attached handlers cannot be noticed if and
only if no call made along it is answered by one. -/
theorem unnoticed_iff (K : Kernel σ) (w : World σ) (schedule : List Label) :
    (∀ k, (exec (system K Attached) w (schedule.take k)).map World.bare =
        exec (bareSystem K) w.bare (schedule.take k)) ↔
      Along (system K Attached) Unanswered w schedule :=
  exec_map_iff World.bare (step_bare_iff K) w schedule

end BpftimeBenchmark.FsCache
