import BpftimeBenchmark.FsCache.CloseRace
import BpftimeBenchmark.FsCache.Cache

/-!
The end-of-directory mark of one path. A thread that alone lists a path is told
the length of the listing and 0 in turn, whatever it and other threads do on
other paths in between: the mark is kept in the entry of the path, and the
argument record that a thread's calls share is only read while its call is in
the kernel.
-/

namespace BpftimeBenchmark.FsCache

open Transition

variable {σ : Type}

/-- The thread is inside a `getdents64` that the enter handler let through. -/
def World.listing (w : World σ) (id : U64) (fd : CInt) (dirp : Nat) (count : U32) :
    Prop :=
  (w.phase id).call = some (.getdents64 fd dirp count)

/-- Every `getdents64` is made on a recorded descriptor whose path stays while
the call is in flight, only thread `T` lists path `P`, and when the kernel
answers `T` there it returns more than 0 and the path gets its entry. -/
structure SoleLister (K : Kernel σ) (T : U64) (P : DirFdData) (w : World σ)
    (l : Label) : Prop where
  recorded : ∀ task fd dirp count, l = .enter task (.getdents64 fd dirp count) →
    ∃ path, w.maps.pathOf task.pid fd = some path ∧ (path = P → task.pidTgid = T)
  steady : ∀ t, step K w l = some t → ∀ id fd dirp count, w.listing id fd dirp count →
    t.maps.pathOf (tgid id) fd = w.maps.pathOf (tgid id) fd
  filled : ∀ task fd dirp count ret t, l = .leave task (.getdents64 fd dirp count) ret →
    task.pidTgid = T → w.maps.pathOf task.pid fd = some P → step K w l = some t →
      0 < ret.toInt ∧ (t.maps.getdents64CacheMap.lookup P).isSome

/-- What the finished calls of `T` on descriptors of `P` have returned. -/
def World.returns (w : World σ) (T : U64) (P : DirFdData) : List CInt :=
  (w.replies.filter (fun r => r.task.pidTgid = T ∧ r.path = some P)).map (·.ret)

/-- `n, 0, n, 0, …`, `k` values long. -/
def alternating (n : CInt) (k : Nat) : List CInt :=
  (List.range k).map (fun i => if i % 2 = 0 then n else 0)

theorem alternating_succ (n : CInt) (k : Nat) :
    alternating n (k + 1) = alternating n k ++ [if k % 2 = 0 then n else 0] := by
  simp [alternating, List.range_succ]

theorem length_alternating (n : CInt) (k : Nat) : (alternating n k).length = k := by
  simp [alternating]

/-- Before the first call of `T` on `P` is over the path is uncached. From then
on its entry holds the returned length, and names `T` after every second call. -/
def Alternates (T : U64) (P : DirFdData) (w : World σ) : Prop :=
  (w.returns T P = [] ∧ w.maps.getdents64CacheMap.lookup P = none) ∨
    ∃ n k buf, 0 < n.toInt ∧ w.returns T P = alternating n (k + 1) ∧
      w.maps.getdents64CacheMap.lookup P = some buf ∧ buf.nread = n ∧
      buf.lastPidTgid = if k % 2 = 0 then T else 0

structure AlternationInv (T : U64) (P : DirFdData) (w : World σ) : Prop where
  record : ∀ id fd dirp count, w.listing id fd dirp count →
    ∀ args, w.maps.getdents64ArgsStart.lookup id = some args → args.fd = fd
  path : ∀ id fd dirp count, w.listing id fd dirp count →
    ∃ path, w.maps.pathOf (tgid id) fd = some path ∧
      (path = P → id = T ∧ w.maps.getdents64CacheMap.lookup P = none)
  alternates : Alternates T P w

variable {K : Kernel σ} {T : U64} {P : DirFdData} {w t : World σ}

theorem returns_append_self {r : Reply} (hreplies : t.replies = w.replies ++ [r])
    (hid : r.task.pidTgid = T) (hpath : r.path = some P) :
    t.returns T P = w.returns T P ++ [r.ret] := by
  simp [World.returns, hreplies, List.filter_append, hid, hpath]

theorem returns_append_ne {r : Reply} (hreplies : t.replies = w.replies ++ [r])
    (hpath : r.path ≠ some P) : t.returns T P = w.returns T P := by
  simp [World.returns, hreplies, List.filter_append, hpath]

theorem returns_of_eq (hreplies : t.replies = w.replies) :
    t.returns T P = w.returns T P := by
  rw [World.returns, hreplies, World.returns]

/-- A step that starts no `getdents64`, keeps the records and paths of those in
flight and has nothing to do with `P` keeps the invariant. -/
theorem alternationInv_of_quiet (hi : AlternationInv T P w)
    (hcalls : ∀ id fd dirp count, t.listing id fd dirp count →
      w.listing id fd dirp count ∧
        t.maps.getdents64ArgsStart.lookup id = w.maps.getdents64ArgsStart.lookup id ∧
        t.maps.pathOf (tgid id) fd = w.maps.pathOf (tgid id) fd)
    (hcache : t.maps.getdents64CacheMap.lookup P = w.maps.getdents64CacheMap.lookup P)
    (hreturns : t.returns T P = w.returns T P) : AlternationInv T P t := by
  constructor
  · intro id fd dirp count hlisting args hargs
    obtain ⟨hbefore, hrecord, -⟩ := hcalls id fd dirp count hlisting
    rw [hrecord] at hargs
    exact hi.record id fd dirp count hbefore args hargs
  · intro id fd dirp count hlisting
    obtain ⟨hbefore, -, hpath⟩ := hcalls id fd dirp count hlisting
    rw [hpath, hcache]
    exact hi.path id fd dirp count hbefore
  · unfold Alternates
    rw [hreturns, hcache]
    exact hi.alternates

/-- Once there is an entry, some call of `T` is over. -/
theorem Alternates.of_entry (hi : Alternates T P w) {buf : Getdents64Buffer}
    (hbuf : w.maps.getdents64CacheMap.lookup P = some buf) :
    ∃ k, 0 < buf.nread.toInt ∧ w.returns T P = alternating buf.nread (k + 1) ∧
      buf.lastPidTgid = if k % 2 = 0 then T else 0 := by
  rcases hi with ⟨-, hnone⟩ | ⟨n, k, buf', hpos, hdone, hbuf', rfl, hmark⟩
  · rw [hnone] at hbuf
    cases hbuf
  · obtain rfl := Option.some.inj (hbuf'.symm.trans hbuf)
    exact ⟨k, hpos, hdone, hmark⟩

/-- The end mark: the entry names `T`, so an odd number of calls has ended. -/
theorem alternates_mark (hT : T ≠ 0) {buf : Getdents64Buffer}
    (hi : Alternates T P w) (hbuf : w.maps.getdents64CacheMap.lookup P = some buf)
    (hlast : T = buf.lastPidTgid)
    (hnew : t.maps.getdents64CacheMap.lookup P = some { buf with lastPidTgid := 0 })
    (hreturns : t.returns T P = w.returns T P ++ [0]) : Alternates T P t := by
  obtain ⟨k, hpos, hdone, hmark⟩ := hi.of_entry hbuf
  have heven : k % 2 = 0 := by
    by_contra hodd
    rw [if_neg hodd, ← hlast] at hmark
    exact hT hmark
  have hodd : ¬ (k + 1) % 2 = 0 := by omega
  refine Or.inr ⟨buf.nread, k + 1, _, hpos, ?_, hnew, rfl, ?_⟩
  · rw [hreturns, hdone, alternating_succ buf.nread (k + 1), if_neg hodd]
  · rw [if_neg hodd]

/-- A served call: the entry does not name `T`, so an even number has ended. -/
theorem alternates_serve {buf : Getdents64Buffer} (hi : Alternates T P w)
    (hbuf : w.maps.getdents64CacheMap.lookup P = some buf) (hlast : T ≠ buf.lastPidTgid)
    (hnew : t.maps.getdents64CacheMap.lookup P = some { buf with lastPidTgid := T })
    (hreturns : t.returns T P = w.returns T P ++ [buf.nread]) : Alternates T P t := by
  obtain ⟨k, hpos, hdone, hmark⟩ := hi.of_entry hbuf
  have hodd : ¬ k % 2 = 0 := by
    intro heven
    rw [if_pos heven] at hmark
    exact hlast hmark.symm
  have heven : (k + 1) % 2 = 0 := by omega
  refine Or.inr ⟨buf.nread, k + 1, _, hpos, ?_, hnew, rfl, ?_⟩
  · rw [hreturns, hdone, alternating_succ buf.nread (k + 1), if_pos heven]
  · rw [if_pos heven]

/-- The fill: it ends the first call. -/
theorem alternates_fill {ret : CInt} {buf : CharArray dentsBufSize}
    (hi : Alternates T P w) (habsent : w.maps.getdents64CacheMap.lookup P = none)
    (hpos : 0 < ret.toInt)
    (hnew : t.maps.getdents64CacheMap.lookup P = some ⟨ret, T, buf⟩)
    (hreturns : t.returns T P = w.returns T P ++ [ret]) : Alternates T P t := by
  rcases hi with ⟨hnone, -⟩ | ⟨n, k, buf', -, -, hbuf', -, -⟩
  · refine Or.inr ⟨ret, 0, _, hpos, ?_, hnew, rfl, rfl⟩
    rw [hreturns, hnone]
    rfl
  · rw [habsent] at hbuf'
    cases hbuf'

theorem listing_of_update {id id' : U64} {p : Phase} {fd : CInt} {dirp : Nat}
    {count : U32} (hphase : t.phase = Function.update w.phase id p)
    (h : t.listing id' fd dirp count) :
    id' = id ∧ p.call = some (.getdents64 fd dirp count) ∨
      id' ≠ id ∧ w.listing id' fd dirp count := by
  unfold World.listing at h
  by_cases hid : id' = id
  · subst hid
    rw [hphase, Function.update_self] at h
    exact Or.inl ⟨rfl, h⟩
  · rw [hphase, Function.update_of_ne hid] at h
    exact Or.inr ⟨hid, h⟩

/-- Only entering puts a thread inside a `getdents64`. -/
theorem listing_of_step {l : Label} (hstep : step K w l = some t)
    (hl : ∀ task fd dirp count, l ≠ .enter task (.getdents64 fd dirp count))
    {id : U64} {fd : CInt} {dirp : Nat} {count : U32} (h : t.listing id fd dirp count) :
    w.listing id fd dirp count := by
  cases stepResult_of_step hstep with
  | @enter task call hidle =>
      rcases enter_cases w task call with ⟨ret, -, hphase, -⟩ | ⟨-, hphase, -⟩
      · rwa [World.listing, hphase] at h
      · rcases listing_of_update hphase h with ⟨-, hsame⟩ | ⟨-, hbefore⟩
        · cases hsame
          exact absurd rfl (hl task fd dirp count)
        · exact hbefore
  | @kernel task call resp k hentered hexec =>
      rcases listing_of_update rfl h with ⟨rfl, hcall⟩ | ⟨-, hbefore⟩
      · rw [World.listing, hentered]
        exact hcall
      · exact hbefore
  | @leave task call ret hreturned =>
      rcases listing_of_update rfl h with ⟨-, hcall⟩ | ⟨-, hbefore⟩
      · cases hcall
      · exact hbefore
  | store => exact h

/-- The paths of calls in flight under the guard. -/
theorem SoleLister.path_eq {l : Label} (hok : SoleLister K T P w l)
    (hstep : step K w l = some t) {id : U64} {fd : CInt} {dirp : Nat} {count : U32}
    (h : w.listing id fd dirp count) :
    t.maps.pathOf (tgid id) fd = w.maps.pathOf (tgid id) fd :=
  hok.steady t hstep id fd dirp count h

/-- A call that is no `getdents64` has nothing to do with `P`. -/
theorem alternationInv_enter_other {task : Task} {call : Syscall}
    (hi : AlternationInv T P w) (hok : SoleLister K T P w (.enter task call))
    (hstep : step K w (.enter task call) = some (w.enter task call))
    (hcall : ∀ fd dirp count, call ≠ .getdents64 fd dirp count) :
    AlternationInv T P (w.enter task call) := by
  obtain ⟨hargs, hcache⟩ := enterHandler_other task w.maps (w.mem task.pid) hcall
  have hmaps := enter_maps w task call
  have hreplies : (w.enter task call).replies = w.replies := by
    rcases enter_cases w task call with ⟨ret, -, -, hreplies⟩ | ⟨-, -, hreplies⟩
    · rw [hreplies, replyOf_other hcall, List.append_nil]
    · exact hreplies
  refine alternationInv_of_quiet hi ?_ ?_ (returns_of_eq hreplies)
  · intro id fd dirp count h
    have hbefore : w.listing id fd dirp count := by
      refine listing_of_step hstep ?_ h
      rintro _ fd' dirp' count' ⟨⟩
      exact hcall fd' dirp' count' rfl
    exact ⟨hbefore, by rw [hmaps, hargs], hok.path_eq hstep hbefore⟩
  · rw [hmaps, hcache]

/-- A cached path: the call is answered at once. Under the guard it is `T`'s if
the path is `P`. -/
theorem alternationInv_enter_cached {task : Task} {fd : CInt} {dirp : Nat}
    {count : U32} {path : DirFdData} {buf : Getdents64Buffer} {mark : U64}
    {mem : Memory} {ret : CInt} (hi : AlternationInv T P w)
    (hpath : w.maps.pathOf task.pid fd = some path)
    (hbuf : w.maps.getdents64CacheMap.lookup path = some buf)
    (henter : enterHandler task (.getdents64 fd dirp count) w.maps (w.mem task.pid) =
      (w.maps.cachePut path { buf with lastPidTgid := mark }, mem, some ret))
    (hP : path = P → Alternates T P w →
      (w.enter task (.getdents64 fd dirp count)).returns T P = w.returns T P ++ [ret] →
      (w.enter task (.getdents64 fd dirp count)).maps.getdents64CacheMap.lookup P =
        some { buf with lastPidTgid := mark } →
      Alternates T P (w.enter task (.getdents64 fd dirp count)))
    (hown : path = P → task.pidTgid = T) :
    AlternationInv T P (w.enter task (.getdents64 fd dirp count)) := by
  have hworld := enter_override henter
  have hreplies : (w.enter task (.getdents64 fd dirp count)).replies = w.replies ++
      [⟨task, fd, dirp, ret, none, w.maps.pathOf task.pid fd,
        CharArray.probeRead dentsBufSize mem dirp⟩] := by
    rw [hworld]
    rfl
  have hlisting : ∀ id fd' dirp' count',
      (w.enter task (.getdents64 fd dirp count)).listing id fd' dirp' count' ↔
        w.listing id fd' dirp' count' := by
    intro id fd' dirp' count'
    rw [World.listing, hworld, World.listing]
  by_cases hsame : path = P
  · subst hsame
    have hnew := BoundedMap.lookup_update_self { buf with lastPidTgid := mark }
      (BoundedMap.hasRoom_of_lookup hbuf)
    have hlookup : (w.enter task (.getdents64 fd dirp count)).maps.getdents64CacheMap.lookup
        path = some { buf with lastPidTgid := mark } := by
      rw [hworld]
      exact hnew
    have hreturns := returns_append_self hreplies (hown rfl) hpath
    refine ⟨?_, ?_, hP rfl hi.alternates hreturns hlookup⟩
    · intro id fd' dirp' count' h args hargs
      rw [hworld] at hargs
      exact hi.record id fd' dirp' count' ((hlisting _ _ _ _).mp h) args hargs
    · intro id fd' dirp' count' h
      obtain ⟨other, hother, hnone⟩ := hi.path id fd' dirp' count' ((hlisting _ _ _ _).mp h)
      refine ⟨other, ?_, ?_⟩
      · rw [hworld]
        exact hother
      · intro heq
        rw [(hnone heq).2] at hbuf
        cases hbuf
  · refine alternationInv_of_quiet hi ?_ ?_ (returns_append_ne hreplies ?_)
    · intro id fd' dirp' count' h
      refine ⟨(hlisting _ _ _ _).mp h, ?_, ?_⟩ <;> rw [hworld] <;> rfl
    · rw [hworld]
      exact BoundedMap.lookup_update_ne _ (Ne.symm hsame)
    · intro heq
      exact hsame (Option.some.inj (hpath.symm.trans heq))

/-- An uncached path: the call is recorded and goes to the kernel. -/
theorem alternationInv_enter_missed {task : Task} {fd : CInt} {dirp : Nat}
    {count : U32} {path : DirFdData} (hi : AlternationInv T P w)
    (hpath : w.maps.pathOf task.pid fd = some path)
    (habsent : w.maps.getdents64CacheMap.lookup path = none)
    (henter : enterHandler task (.getdents64 fd dirp count) w.maps (w.mem task.pid) =
      (storeGetdentsArgs task ⟨fd, dirp, count⟩ w.maps, w.mem task.pid, none))
    (hown : path = P → task.pidTgid = T) :
    AlternationInv T P (w.enter task (.getdents64 fd dirp count)) := by
  have hworld := enter_pass henter
  have hphase : (w.enter task (.getdents64 fd dirp count)).phase = Function.update w.phase
      task.pidTgid (.entered (.getdents64 fd dirp count)) := by rw [hworld]
  have hpaths : ∀ pid fd', (w.enter task (.getdents64 fd dirp count)).maps.pathOf pid fd' =
      w.maps.pathOf pid fd' := by
    intro pid fd'
    rw [hworld]
    rfl
  have hcache : (w.enter task (.getdents64 fd dirp count)).maps.getdents64CacheMap =
      w.maps.getdents64CacheMap := by rw [hworld]; rfl
  constructor
  · intro id fd' dirp' count' h args hargs
    rw [hworld] at hargs
    rcases listing_of_update hphase h with ⟨rfl, hcall⟩ | ⟨hne, hbefore⟩
    · cases hcall
      rw [BoundedMap.eq_of_lookup_update hargs]
    · simp only [storeGetdentsArgs, BoundedMap.lookup_update_ne _ hne] at hargs
      exact hi.record id fd' dirp' count' hbefore args hargs
  · intro id fd' dirp' count' h
    rw [hpaths, hcache]
    rcases listing_of_update hphase h with ⟨rfl, hcall⟩ | ⟨hne, hbefore⟩
    · cases hcall
      refine ⟨path, hpath, fun hsame => ⟨hown hsame, ?_⟩⟩
      rw [← hsame]
      exact habsent
    · exact hi.path id fd' dirp' count' hbefore
  · unfold Alternates
    rw [returns_of_eq (w := w) (by rw [hworld]), hcache]
    exact hi.alternates

theorem alternationInv_enter (hT : T ≠ 0) {task : Task} {call : Syscall}
    (hi : AlternationInv T P w) (hok : SoleLister K T P w (.enter task call))
    (hstep : step K w (.enter task call) = some (w.enter task call)) :
    AlternationInv T P (w.enter task call) := by
  by_cases hcall : ∃ fd dirp count, call = .getdents64 fd dirp count
  · obtain ⟨fd, dirp, count, rfl⟩ := hcall
    obtain ⟨known, hknown, hown⟩ := hok.recorded task fd dirp count rfl
    rcases sysEnterGetdents64_cases task fd dirp count w.maps (w.mem task.pid) with
      ⟨hnone, -⟩ | ⟨path, buf, hpath, hbuf, hlast, henter⟩ |
      ⟨path, buf, hpath, hbuf, hlast, henter⟩ | ⟨path, hpath, habsent, henter⟩
    · rw [hknown] at hnone
      cases hnone
    · have hsame := Option.some.inj (hknown.symm.trans hpath)
      subst hsame
      refine alternationInv_enter_cached hi hpath hbuf henter ?_ hown
      intro hP halternates hreturns hnew
      rw [hP] at hbuf
      exact alternates_mark hT halternates hbuf ((hown hP).symm.trans hlast) hnew hreturns
    · have hsame := Option.some.inj (hknown.symm.trans hpath)
      subst hsame
      refine alternationInv_enter_cached hi hpath hbuf henter ?_ hown
      intro hP halternates hreturns hnew
      rw [hP] at hbuf
      rw [hown hP] at hlast hnew
      exact alternates_serve halternates hbuf hlast hnew hreturns
    · have hsame := Option.some.inj (hknown.symm.trans hpath)
      subst hsame
      exact alternationInv_enter_missed hi hpath habsent henter hown
  · apply alternationInv_enter_other hi hok hstep
    intro fd dirp count heq
    exact hcall ⟨fd, dirp, count, heq⟩

/-- Leaving starts no call and ends its own. -/
theorem listing_of_leave {task : Task} {call : Syscall} {ret : CInt} {id : U64}
    {fd : CInt} {dirp : Nat} {count : U32}
    (h : (w.leave K task call ret).listing id fd dirp count) :
    id ≠ task.pidTgid ∧ w.listing id fd dirp count := by
  have hphase : (w.leave K task call ret).phase =
      Function.update w.phase task.pidTgid .idle := rfl
  rcases listing_of_update hphase h with ⟨-, hcall⟩ | hbefore
  · cases hcall
  · exact hbefore

/-- A listing of another path leaves `P` alone. -/
theorem alternationInv_leave_foreign {task : Task} {fd : CInt} {dirp : Nat}
    {count : U32} {ret : CInt} {path : DirFdData} (hi : AlternationInv T P w)
    (hpath : w.maps.pathOf task.pid fd = some path) (hforeign : path ≠ P)
    (hargs : (w.leave K task (.getdents64 fd dirp count) ret).maps.getdents64ArgsStart =
      w.maps.getdents64ArgsStart)
    (hfds : (w.leave K task (.getdents64 fd dirp count) ret).maps.dirFdMap =
      w.maps.dirFdMap)
    (hcache : (w.leave K task (.getdents64 fd dirp count) ret).maps.getdents64CacheMap.lookup
      P = w.maps.getdents64CacheMap.lookup P) :
    AlternationInv T P (w.leave K task (.getdents64 fd dirp count) ret) := by
  have hreplies : (w.leave K task (.getdents64 fd dirp count) ret).replies = w.replies ++
      [⟨task, fd, dirp, ret, w.listed task.pidTgid, w.maps.pathOf task.pid fd,
        CharArray.probeRead dentsBufSize (w.mem task.pid) dirp⟩] := rfl
  refine alternationInv_of_quiet hi ?_ hcache (returns_append_ne hreplies ?_)
  · intro id fd' dirp' count' h
    refine ⟨(listing_of_leave h).2, by rw [hargs], ?_⟩
    rw [Maps.pathOf, hfds, Maps.pathOf]
  · intro heq
    exact hforeign (Option.some.inj (hpath.symm.trans heq))

/-- The fill of `P`. -/
theorem alternationInv_leave_filled {task : Task} {fd : CInt} {dirp : Nat}
    {count : U32} {ret : CInt} {buf : CharArray dentsBufSize}
    (hi : AlternationInv T P w) (hid : task.pidTgid = T)
    (hpath : w.maps.pathOf task.pid fd = some P)
    (habsent : w.maps.getdents64CacheMap.lookup P = none) (hpos : 0 < ret.toInt)
    (hroom : w.maps.getdents64CacheMap.HasRoom P)
    (hmaps : (w.leave K task (.getdents64 fd dirp count) ret).maps =
      w.maps.cachePut P ⟨ret, task.pidTgid, buf⟩) :
    AlternationInv T P (w.leave K task (.getdents64 fd dirp count) ret) := by
  refine ⟨?_, ?_, ?_⟩
  · intro id fd' dirp' count' h args hargs
    rw [hmaps] at hargs
    exact hi.record id fd' dirp' count' (listing_of_leave h).2 args hargs
  · intro id fd' dirp' count' h
    obtain ⟨hne, hbefore⟩ := listing_of_leave h
    obtain ⟨other, hother, hforeign⟩ := hi.path id fd' dirp' count' hbefore
    refine ⟨other, by rw [hmaps]; exact hother, fun heq => ?_⟩
    exact absurd ((hforeign heq).1.trans hid.symm) hne
  · have hentry : (w.leave K task (.getdents64 fd dirp count)
        ret).maps.getdents64CacheMap.lookup P = some ⟨ret, T, buf⟩ := by
      rw [hmaps, ← hid]
      exact BoundedMap.lookup_update_self _ hroom
    exact alternates_fill hi.alternates habsent hpos hentry
      (returns_append_self (r := ⟨task, fd, dirp, ret, _, _, _⟩) rfl hid hpath)

/-- A call leaves: unless it fills the entry of `P`, nothing about `P` changes. -/
theorem alternationInv_leave {task : Task} {call : Syscall} {ret : CInt}
    (hi : AlternationInv T P w) (hok : SoleLister K T P w (.leave task call ret))
    (hreturned : w.phase task.pidTgid = .returned call ret) :
    AlternationInv T P (w.leave K task call ret) := by
  have hstep : step K w (.leave task call ret) = some (w.leave K task call ret) := by
    simp [step, hreturned]
  by_cases hcall : ∃ fd dirp count, call = .getdents64 fd dirp count
  · obtain ⟨fd, dirp, count, rfl⟩ := hcall
    have hlisting : w.listing task.pidTgid fd dirp count := by
      rw [World.listing, hreturned]
      rfl
    obtain ⟨path, hpath, hP⟩ := hi.path _ fd dirp count hlisting
    rcases sysExitGetdents64_eq task ret w.maps (w.mem task.pid) with
      hsame | ⟨args, path', -, hargs, hpath', habsent, hroom, hfill⟩
    · have hmaps : (w.leave K task (.getdents64 fd dirp count) ret).maps = w.maps := hsame
      by_cases hown : path = P
      · obtain ⟨hid, hnone⟩ := hP hown
        rw [hown] at hpath
        have hentry := (hok.filled task fd dirp count ret _ rfl hid hpath hstep).2
        rw [hmaps, hnone] at hentry
        cases hentry
      · exact alternationInv_leave_foreign hi hpath hown (by rw [hmaps]) (by rw [hmaps])
          (by rw [hmaps])
    · have hmaps : (w.leave K task (.getdents64 fd dirp count) ret).maps =
          w.maps.cachePut path' ⟨ret, task.pidTgid,
            CharArray.probeRead dentsBufSize (w.mem task.pid) args.dirp⟩ := hfill
      rw [hi.record _ fd dirp count hlisting args hargs] at hpath'
      have hpaths := Option.some.inj (hpath.symm.trans hpath')
      subst hpaths
      by_cases hown : path = P
      · obtain ⟨hid, -⟩ := hP hown
        subst hown
        have hpos := (hok.filled task fd dirp count ret _ rfl hid hpath hstep).1
        exact alternationInv_leave_filled hi hid hpath habsent hpos hroom hmaps
      · refine alternationInv_leave_foreign hi hpath hown ?_ ?_ ?_ <;> rw [hmaps]
        · rfl
        · rfl
        · exact BoundedMap.lookup_update_ne _ (Ne.symm hown)
  · have hother : ∀ fd dirp count, call ≠ .getdents64 fd dirp count :=
      fun fd dirp count heq => hcall ⟨fd, dirp, count, heq⟩
    obtain ⟨hargs, hcache⟩ := exitHandler_other (K.getAbsPath w.kernel task.pid) task ret
      w.maps (w.mem task.pid) hother
    refine alternationInv_of_quiet hi ?_ ?_ (returns_of_eq ?_)
    · intro id fd dirp count h
      have hbefore := (listing_of_leave h).2
      exact ⟨hbefore, by simp only [World.leave, hargs], hok.path_eq hstep hbefore⟩
    · simp only [World.leave, hcache]
    · simp only [World.leave, replyOf_other hother, List.append_nil]

theorem alternationInv_step (hT : T ≠ 0) {l : Label} (hi : AlternationInv T P w)
    (hok : SoleLister K T P w l) (hstep : step K w l = some t) :
    AlternationInv T P t := by
  cases stepResult_of_step hstep with
  | enter hidle => exact alternationInv_enter hT hi hok hstep
  | kernel hentered hexec =>
      refine alternationInv_of_quiet hi ?_ rfl rfl
      intro id fd dirp count h
      exact ⟨listing_of_step hstep (by simp) h, rfl, rfl⟩
  | leave hreturned => exact alternationInv_leave hi hok hreturned
  | store => exact alternationInv_of_quiet hi (fun _ _ _ _ h => ⟨h, rfl, rfl⟩) rfl rfl

theorem alternationInv_attached (h : Attached w) : AlternationInv T P w := by
  have hidle : ∀ id fd dirp count, ¬ w.listing id fd dirp count := by
    intro id fd dirp count hlisting
    simp [World.listing, h.phase, Phase.call] at hlisting
  refine ⟨?_, ?_, Or.inl ⟨?_, ?_⟩⟩
  · intro id fd dirp count hlisting
    exact absurd hlisting (hidle id fd dirp count)
  · intro id fd dirp count hlisting
    exact absurd hlisting (hidle id fd dirp count)
  · simp [World.returns, h.replies]
  · simp [h.getdents64CacheMap]

/-- In every run in which `T` alone lists `P`, its calls there return the length
of the first listing and 0 in turn. -/
theorem returns_alternate (hT : T ≠ 0)
    (h : RunsUnder (system K Attached) (SoleLister K T P) w) :
    ∃ n : CInt, 0 < n.toInt ∧
      w.returns T P = alternating n (w.returns T P).length := by
  have hinv : AlternationInv T P w := h.invariant
    (fun _ hstart => alternationInv_attached hstart)
    (fun _ _ _ hi hok hstep => alternationInv_step hT hi hok hstep)
  rcases hinv.alternates with ⟨hnone, -⟩ | ⟨n, k, -, hpos, hdone, -, -, -⟩
  · exact ⟨1, by decide, by rw [hnone]; rfl⟩
  · refine ⟨n, hpos, ?_⟩
    rw [hdone, length_alternating]

/-- While nobody lists anything an `open` meets the guard. -/
theorem soleLister_openDir (hno : ∀ id fd dirp count, ¬ w.listing id fd dirp count) :
    SoleLister K T P w (.enter firstThread openDir) ∧
      (∀ resp, SoleLister K T P w (.kernel firstThread openDir resp)) ∧
      ∀ ret, SoleLister K T P w (.leave firstThread openDir ret) := by
  refine ⟨⟨?_, ?_, ?_⟩, fun resp => ⟨?_, ?_, ?_⟩, fun ret => ⟨?_, ?_, ?_⟩⟩ <;>
    first
    | exact fun _ _ id fd dirp count h => absurd h (hno id fd dirp count)
    | simp [openDir]

/-- A `getdents64` leaves the recorded paths alone. -/
theorem pathOf_getdents64 {task : Task} {fd : CInt} {dirp : Nat} {count : U32} {l : Label}
    (hl : l = .enter task (.getdents64 fd dirp count) ∨
      (∃ resp, l = .kernel task (.getdents64 fd dirp count) resp) ∨
      ∃ ret, l = .leave task (.getdents64 fd dirp count) ret)
    (hstep : step K w l = some t) (pid : U32) (fd' : CInt) :
    t.maps.pathOf pid fd' = w.maps.pathOf pid fd' := by
  rcases hl with rfl | ⟨resp, rfl⟩ | ⟨ret, rfl⟩
  · cases stepResult_of_step hstep with
    | enter _ =>
      rw [enter_maps, Maps.pathOf, dirFdMap_enterHandler_getdents64, Maps.pathOf]
  · cases stepResult_of_step hstep with
    | kernel _ _ => rfl
  · cases stepResult_of_step hstep with
    | leave _ =>
      rw [World.leave, Maps.pathOf, dirFdMap_exitHandler_getdents64, Maps.pathOf]

/-- A `getdents64` of `T` on `P` meets it if the fill succeeds. -/
theorem soleLister_getdents64 {task : Task} {fd : CInt} {dirp : Nat} {count : U32}
    (hid : task.pidTgid = T) (hpath : w.maps.pathOf task.pid fd = some P) :
    SoleLister K T P w (.enter task (.getdents64 fd dirp count)) ∧
      (∀ resp, SoleLister K T P w (.kernel task (.getdents64 fd dirp count) resp)) ∧
      ∀ ret t, step K w (.leave task (.getdents64 fd dirp count) ret) = some t →
        0 < ret.toInt → (t.maps.getdents64CacheMap.lookup P).isSome →
        SoleLister K T P w (.leave task (.getdents64 fd dirp count) ret) := by
  refine ⟨⟨?_, ?_, by simp⟩, fun resp => ⟨by simp, ?_, by simp⟩,
    fun ret t ht hpos hentry => ⟨by simp, ?_, ?_⟩⟩
  · rintro _ _ _ _ ⟨⟩
    exact ⟨P, hpath, fun _ => hid⟩
  · intro t ht id fd' dirp' count' _
    exact pathOf_getdents64 (.inl rfl) ht _ _
  · intro t ht id fd' dirp' count' _
    exact pathOf_getdents64 (.inr (.inl ⟨_, rfl⟩)) ht _ _
  · intro t' ht' id fd' dirp' count' _
    exact pathOf_getdents64 (.inr (.inr ⟨_, rfl⟩)) ht' _ _
  · rintro _ _ _ _ _ t' ⟨⟩ _ _ ht'
    rw [ht] at ht'
    cases ht'
    exact ⟨hpos, hentry⟩

/-- The first listing of `/d` and the call after it. -/
theorem returns_alternate_firstListing :
    ∃ (t : World FdTables) (earlier : List CInt),
      t.returns firstThread.pidTgid ⟨plainPath [47, 100]⟩ = earlier ++ [24, 0] ∧
      ∃ n : CInt, 0 < n.toInt ∧ t.returns firstThread.pidTgid ⟨plainPath [47, 100]⟩ =
        alternating n (t.returns firstThread.pidTgid ⟨plainPath [47, 100]⟩).length := by
  obtain ⟨v, w, hv, hw, -, -, hpath, buf, hbuf, -, hlast⟩ := firstListing_run
  generalize (⟨plainPath [47, 100]⟩ : DirFdData) = P at hpath hbuf ⊢
  obtain ⟨a, ha, hv⟩ := Option.bind_eq_some_iff.mp hv
  obtain ⟨b, hb, hv⟩ := Option.bind_eq_some_iff.mp hv
  obtain ⟨c, hc, hv⟩ := Option.bind_eq_some_iff.mp hv
  obtain ⟨d, hd, hv⟩ := Option.bind_eq_some_iff.mp hv
  obtain ⟨e, he, hv⟩ := Option.bind_eq_some_iff.mp hv
  cases hv
  have hpid : firstThread.pid = 1 := by decide
  rw [← hpid] at hpath
  -- Nobody lists anything until the fourth step, and the path stays from there.
  have hno : ∀ id fd dirp count, ¬ (loadedWorld ∅).listing id fd dirp count := by
    intro id fd dirp count h
    cases h
  have hstep_a : step (fdKernel plainPath) (loadedWorld ∅)
      (.enter firstThread openDir) = some a := ha
  have hstep_b : step (fdKernel plainPath) a
      (.kernel firstThread openDir ⟨3, []⟩) = some b := hb
  have hno_a : ∀ id fd dirp count, ¬ a.listing id fd dirp count :=
    fun _ _ _ _ h => hno _ _ _ _ (listing_of_step hstep_a (by simp [openDir]) h)
  have hno_b : ∀ id fd dirp count, ¬ b.listing id fd dirp count :=
    fun _ _ _ _ h => hno_a _ _ _ _ (listing_of_step hstep_b (by simp) h)
  have hpath_v : v.maps.pathOf firstThread.pid 3 = some P :=
    (pathOf_getdents64 (.inr (.inr ⟨_, rfl⟩)) hw _ _).symm.trans hpath
  have hpath_d : d.maps.pathOf firstThread.pid 3 = some P :=
    (pathOf_getdents64 (.inr (.inl ⟨_, rfl⟩)) he _ _).symm.trans hpath_v
  have hpath_c : c.maps.pathOf firstThread.pid 3 = some P :=
    (pathOf_getdents64 (K := fdKernel plainPath) (.inl rfl) hd _ _).symm.trans hpath_d
  have hentry : (w.maps.getdents64CacheMap.lookup P).isSome := by
    rw [hbuf]
    rfl
  have hopened : RunsUnder (system (fdKernel plainPath) Attached)
      (SoleLister (fdKernel plainPath) firstThread.pidTgid P) c :=
    .step (.step (.step (.start (attached_loadedWorld ∅))
      (soleLister_openDir hno).1 ha) ((soleLister_openDir hno_a).2.1 _) hb)
      ((soleLister_openDir hno_b).2.2 _) hc
  have hlisted : RunsUnder (system (fdKernel plainPath) Attached)
      (SoleLister (fdKernel plainPath) firstThread.pidTgid P) w :=
    .step (.step (.step hopened (soleLister_getdents64 rfl hpath_c).1 hd)
      ((soleLister_getdents64 rfl hpath_d).2.1 _) he)
      ((soleLister_getdents64 rfl hpath_v).2.2 24 w hw (by decide) hentry) hw
  have hidle : w.phase firstThread.pidTgid = .idle := by
    cases StepResult.of_system hw with
    | leave _ => simp [World.leave]
  have hagain : (system (fdKernel plainPath) Attached).step w
      (.enter firstThread (.getdents64 3 4096 2048)) =
        some (w.enter firstThread (.getdents64 3 4096 2048)) := by
    simp [system, step, hidle]
  have henter : enterHandler firstThread (.getdents64 3 4096 2048) w.maps
      (w.mem firstThread.pid) = (w.maps.cachePut P { buf with lastPidTgid := 0 },
        w.mem firstThread.pid, some 0) :=
    sysEnterGetdents64_marked 4096 2048 _ hpath hbuf hlast.symm
  have hreturns_w : w.returns firstThread.pidTgid P =
      v.returns firstThread.pidTgid P ++ [24] := by
    cases StepResult.of_system hw with
    | leave _ =>
      exact returns_append_self (r := ⟨firstThread, 3, 4096, 24, _, _, _⟩) rfl rfl
        hpath_v
  have hreturns : (w.enter firstThread (.getdents64 3 4096 2048)).returns
      firstThread.pidTgid P = w.returns firstThread.pidTgid P ++ [0] :=
    returns_append_self (r := ⟨firstThread, 3, 4096, 0, none, _, _⟩)
      (by rw [enter_override henter]; rfl) rfl hpath
  refine ⟨w.enter firstThread (.getdents64 3 4096 2048),
    v.returns firstThread.pidTgid P, ?_, ?_⟩
  · rw [hreturns, hreturns_w, List.append_assoc]
    rfl
  · exact @returns_alternate _ (fdKernel plainPath) _ _ _ (by decide)
      (.step hlisted (soleLister_getdents64 rfl hpath).1 hagain)

end BpftimeBenchmark.FsCache
