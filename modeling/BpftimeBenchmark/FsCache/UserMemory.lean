import BpftimeBenchmark.FsCache.Served

/-!
User memory under `fs-cache.bpf.c`. The handlers write into it in one place only, the
buffer of the listing they answer, and never past the count the caller gave. They read it
in one place too, when an entry is filled, and there the whole `DENTS_BUF_SIZE` bytes are
taken, whatever the kernel returned.
-/

namespace BpftimeBenchmark.FsCache

open Transition

variable {σ : Type}

/-- The addresses of process `pid` that the part `l` of a syscall may write: the buffer
of a listing, up to what a handler copies or the kernel has answered. -/
def Label.touches (pid : U32) (p : Nat) : Label → Prop
  | .enter task (.getdents64 _ dirp count) =>
      task.pid = pid ∧ dirp ≤ p ∧ p < dirp + servedLen count
  | .kernel task (.getdents64 _ dirp _) resp =>
      task.pid = pid ∧ dirp ≤ p ∧ p < dirp + resp.data.length
  | .store pid' p' _ => pid' = pid ∧ p' = p
  | _ => False

/-- The enter handlers write nothing but the buffer of a listing. -/
theorem enterHandler_mem_outside {task : Task} {call : Syscall} {p : Nat} (m : Maps)
    (mem : Memory) (hp : ¬ (Label.enter task call).touches task.pid p) :
    (enterHandler task call m mem).2.1 p = mem p := by
  cases call with
  | openPath name flags | openat dirfd name flags | close fd | fcntl fd cmd | chdir dir =>
      rfl
  | getdents64 fd dirp count =>
      simp only [enterHandler]
      rcases sysEnterGetdents64_cases task fd dirp count m mem with
        ⟨-, henter⟩ | ⟨path, buf, -, -, -, henter⟩ | ⟨path, buf, -, -, -, henter⟩ |
        ⟨path, -, -, henter⟩
      · rw [henter]
      · rw [henter]
      · rw [henter]
        apply Memory.write_outside
        have hcopied := List.length_take_le (servedLen count) buf.buf.bytes
        simp only [Label.touches, true_and, not_and, Nat.not_lt] at hp
        by_cases hle : dirp ≤ p
        · have hpast := hp hle
          exact Or.inr (by omega)
        · exact Or.inl (by omega)
      · rw [henter]

theorem kernelWrite_outside {task : Task} {call : Syscall} {resp : Response} {p : Nat}
    (mem : Memory) (hp : ¬ (Label.kernel task call resp).touches task.pid p) :
    kernelWrite call resp.data mem p = mem p := by
  cases call with
  | openPath name flags | openat dirfd name flags | close fd | fcntl fd cmd | chdir dir =>
      rfl
  | getdents64 fd dirp count =>
      apply Memory.write_outside
      simp only [Label.touches, true_and, not_and, Nat.not_lt] at hp
      by_cases hle : dirp ≤ p
      · exact Or.inr (hp hle)
      · exact Or.inl (by omega)

theorem mem_of_step {K : Kernel σ} {w t : World σ} {l : Label} {pid : U32} {p : Nat}
    (h : step K w l = some t) (hfree : ¬ l.touches pid p) : t.mem pid p = w.mem pid p := by
  cases stepResult_of_step h with
  | @enter task call _ =>
      rw [enter_mem]
      by_cases hpid : pid = task.pid
      · subst hpid
        rw [Function.update_self]
        exact enterHandler_mem_outside w.maps _ hfree
      · rw [Function.update_of_ne hpid]
  | @kernel task call resp k _ _ =>
      by_cases hpid : pid = task.pid
      · subst hpid
        simp only [World.serve, Function.update_self]
        exact kernelWrite_outside _ hfree
      · simp only [World.serve, Function.update_of_ne hpid]
  | leave _ => rfl
  | @store pid' p' b =>
      by_cases hpid : pid = pid'
      · subst hpid
        have hp : p ≠ p' := fun hp => hfree ⟨rfl, hp.symm⟩
        simp only [World.poke, Function.update_self, Function.update_of_ne hp]
      · simp only [World.poke, Function.update_of_ne hpid]

/-- A byte that lies in no buffer of a listing keeps its value over every run, unless its
own process stores to it: not under a handler of its own calls, nor of another process. -/
theorem untouched_of_exec {K : Kernel σ} {w t : World σ} (schedule : List Label)
    (h : exec (system K Attached) w schedule = some t) {pid : U32} {p : Nat}
    (hfree : ∀ l ∈ schedule, ¬ l.touches pid p) : t.mem pid p = w.mem pid p :=
  exec_frame (fun w : World σ => w.mem pid p)
    (fun _ _ _ hstep hfree => mem_of_step (K := K) hstep hfree) schedule h hfree

/-- The byte at address 100 lies below the buffer of the first listing. -/
theorem untouched_of_exec_firstListing :
    ∃ w : World FdTables,
      exec (system (fdKernel plainPath) Attached) (loadedWorld ∅) firstListing = some w ∧
        w.mem 1 100 = (loadedWorld ∅).mem 1 100 := by
  obtain ⟨v, w, hv, -⟩ := firstListing_run
  refine ⟨v, hv, untouched_of_exec firstListing hv ?_⟩
  intro l hl
  simp only [firstListing, List.mem_cons, List.not_mem_nil, or_false] at hl
  rcases hl with rfl | rfl | rfl | rfl | rfl <;> simp [Label.touches, openDir]

theorem byteAt_probeRead {n : Nat} (mem : Memory) (p : Nat) {i : Nat} (hi : i < n) :
    CString.byteAt (CharArray.probeRead n mem p).bytes i = mem (p + i) := by
  simp [CString.byteAt, CharArray.probeRead, Memory.read, hi]

/-- An exit handler that turns an absent path into an entry took the return value of the
call and the bytes behind the pointer of the thread's record. -/
theorem filled_of_leave {K : Kernel σ} {w : World σ} {task : Task} {call : Syscall}
    {ret : CInt} {path : DirFdData} {buf : Getdents64Buffer}
    (habsent : w.maps.getdents64CacheMap.lookup path = none)
    (hfilled : (w.leave K task call ret).maps.getdents64CacheMap.lookup path = some buf) :
    ∃ args, w.maps.getdents64ArgsStart.lookup task.pidTgid = some args ∧
      buf.nread = ret ∧
      buf.buf = CharArray.probeRead dentsBufSize (w.mem task.pid) args.dirp := by
  have heffect := exitHandler_effect (K.getAbsPath w.kernel task.pid) task call ret
    w.maps (w.mem task.pid)
  have hmaps : (w.leave K task call ret).maps = exitHandler
    (K.getAbsPath w.kernel task.pid) task call ret w.maps (w.mem task.pid) := rfl
  rw [hmaps] at hfilled
  generalize exitHandler (K.getAbsPath w.kernel task.pid) task call ret w.maps
    (w.mem task.pid) = m at heffect hfilled
  cases heffect with
  | same =>
      rw [habsent] at hfilled
      cases hfilled
  | recorded data _ _ =>
      rw [cache_setDirFdData, habsent] at hfilled
      cases hfilled
  | @filled _ _ _ args path' _ hargs _ _ _ =>
      refine ⟨args, hargs, ?_⟩
      rcases BoundedMap.lookup_update_cases w.maps.getdents64CacheMap path' path
          ⟨ret, task.pidTgid, CharArray.probeRead dentsBufSize (w.mem task.pid) args.dirp⟩
        with hkept | ⟨rfl, -, hnew⟩
      · have hstale := hkept.symm.trans hfilled
        rw [habsent] at hstale
        cases hstale
      · have heq := Option.some.inj (hnew.symm.trans hfilled)
        subst heq
        exact ⟨rfl, rfl⟩

/-- A later reader of the entry, in whatever process, gets what the filler's memory held
at the fill, byte for byte up to the reader's own count: the part of the buffer behind the
returned length, which the kernel never wrote, is handed out as well. -/
theorem received_of_filled {K : Kernel σ} {v w u : World σ} {task reader : Task}
    {call : Syscall} {ret fd : CInt} {path : DirFdData} {buf entry : Getdents64Buffer}
    (hfill : (system K Attached).step v (.leave task call ret) = some w)
    (habsent : v.maps.getdents64CacheMap.lookup path = none)
    (hentry : w.maps.getdents64CacheMap.lookup path = some entry)
    (schedule : List Label) (hrun : exec (system K Attached) w schedule = some u)
    (hserved : ServedFrom u reader fd path buf) (dirp : Nat) (count : U32) :
    ∃ args, v.maps.getdents64ArgsStart.lookup task.pidTgid = some args ∧
      u.answer reader fd dirp count = some ret ∧
      ∀ i < servedLen count,
        u.received reader fd dirp count i = v.mem task.pid (args.dirp + i) := by
  cases StepResult.of_system hfill with
  | leave _ =>
      obtain ⟨args, hargs, hnread, hbytes⟩ := filled_of_leave habsent hentry
      obtain ⟨later, hlater, hnread', hbytes'⟩ :=
        cacheKept_of_exec schedule hrun path entry hentry
      have heq := Option.some.inj (hlater.symm.trans hserved.cached)
      subst heq
      refine ⟨args, hargs, ?_, ?_⟩
      · rw [hserved.answer_eq, hnread', hnread]
      · intro i hi
        have hsize : i < dentsBufSize := by
          unfold servedLen at hi
          split at hi <;> omega
        rw [hserved.received_eq dirp count hi, hbytes', hbytes, byteAt_probeRead _ _ hsize]

/-- The kernel returns 24 bytes to the first thread; the second is handed byte 100. -/
theorem received_of_filled_firstListing :
    ∃ v w : World FdTables,
      exec (system (fdKernel plainPath) Attached) (loadedWorld ∅) firstListing = some v ∧
        w.answer secondThread 3 8192 2048 = some 24 ∧
        w.received secondThread 3 8192 2048 100 = v.mem 1 (4096 + 100) := by
  obtain ⟨v, w, hv, hw, hown, -, hpath, buf, hbuf, -, hlast⟩ := firstListing_run
  have hrun : (exec (system (fdKernel plainPath) Attached) (loadedWorld ∅)
      firstListing).map (fun v => v.maps.getdents64CacheMap.lookup ⟨plainPath [47, 100]⟩) =
      some none := by decide +kernel
  have habsent : v.maps.getdents64CacheMap.lookup ⟨plainPath [47, 100]⟩ = none := by
    rw [hv] at hrun
    exact Option.some.inj hrun
  have hserved : ServedFrom w secondThread 3 ⟨plainPath [47, 100]⟩ buf :=
    ⟨hpath, hbuf, by rw [hlast]; decide⟩
  obtain ⟨args, hargs, hanswer, hbytes⟩ :=
    received_of_filled hw habsent hbuf [] rfl hserved 8192 2048
  have heq := Option.some.inj (hown.symm.trans hargs)
  subst heq
  exact ⟨v, w, hv, hanswer, hbytes 100 (by decide)⟩

end BpftimeBenchmark.FsCache
