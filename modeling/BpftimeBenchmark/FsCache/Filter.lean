import BpftimeBenchmark.FsCache.Handlers

/-!
The open blacklist of `fs-cache.bpf.c`. The map is described as holding one
filter for each user, but both handlers look it up under the high half of
`bpf_get_current_uid_gid()`, which is the group. The `openat` handler further
skips the lookup when `dirfd` is not a recorded directory.
-/

namespace BpftimeBenchmark.FsCache

open CString

/-- The number both handlers look up is the group id. -/
theorem filterKey_eq_gid (task : Task) : filterKey task = task.gid := by
  apply BitVec.eq_of_getLsbD_eq
  intro i hi
  simp [filterKey, bpfGetCurrentUidGid]
  grind

def openDenied (task : Task) (name : List UInt8) (flags : CInt) (m : Maps) : Bool :=
  (sysEnterOpen task name flags m).2 = some (-1)

def openatDenied (task : Task) (fd : CInt) (name : List UInt8) (flags : CInt)
    (m : Maps) : Bool :=
  (sysEnterOpenat task fd name flags m).2 = some (-1)

theorem openDenied_eq (task : Task) (name : List UInt8) (flags : CInt) (m : Maps) :
    openDenied task name flags m = m.denied task.gid name := by
  rw [openDenied, sysEnterOpen_eq, filterKey_eq_gid]
  cases m.denied task.gid name <;> simp

theorem openatDenied_eq (task : Task) (fd : CInt) (name : List UInt8)
    (flags : CInt) (m : Maps) :
    openatDenied task fd name flags m =
      (!unfiltered task fd m &&
        m.denied task.gid (CharArray.probeReadStr nameMax name).bytes) := by
  rw [openatDenied, sysEnterOpenat_eq, filterKey_eq_gid]
  cases unfiltered task fd m <;>
    cases m.denied task.gid (CharArray.probeReadStr nameMax name).bytes <;> simp

/-- A denied open leaves every map as it was. -/
theorem maps_of_openDenied {task : Task} {name : List UInt8} {flags : CInt} {m : Maps}
    (h : openDenied task name flags m = true) :
    (sysEnterOpen task name flags m).1 = m := by
  rw [openDenied, sysEnterOpen_eq] at h
  rw [sysEnterOpen_eq]
  cases hdenied : m.denied (filterKey task) name <;> simp_all

theorem maps_of_openatDenied {task : Task} {fd : CInt} {name : List UInt8}
    {flags : CInt} {m : Maps} (h : openatDenied task fd name flags m = true) :
    (sysEnterOpenat task fd name flags m).1 = m := by
  rw [openatDenied, sysEnterOpenat_eq] at h
  rw [sysEnterOpenat_eq]
  split at h
  · rename_i hdenied
    rw [if_pos hdenied]
  · simp at h

/-- Two callers of one user get one decision from each handler, and it is the
verdict of the entry stored for that user. -/
structure DecidedByUser (m : Maps) (t₁ t₂ : Task) (fd : CInt) (name : List UInt8)
    (flags : CInt) : Prop where
  openSame : openDenied t₁ name flags m = openDenied t₂ name flags m
  openEntry : openDenied t₁ name flags m = m.denied t₁.uid name
  openatSame : openatDenied t₁ fd name flags m = openatDenied t₂ fd name flags m
  openatEntry : openatDenied t₁ fd name flags m =
    m.denied t₁.uid (CharArray.probeReadStr nameMax name).bytes

/-- The entries stored under the caller's gid and under its uid agree on the
name, and no entry for the uid is bypassed by an unrecorded `dirfd`. -/
def GroupAgreesWithUser (m : Maps) (task : Task) (fd : CInt) (name : List UInt8) :
    Prop :=
  let copy := (CharArray.probeReadStr nameMax name).bytes
  m.denied task.gid name = m.denied task.uid name ∧
    (if unfiltered task fd m then m.denied task.uid copy = false
      else m.denied task.gid copy = m.denied task.uid copy)

/-- For one caller the agreement says that both handlers decide as the entry
of the user does. -/
theorem groupAgreesWithUser_iff (m : Maps) (task : Task) (fd : CInt)
    (name : List UInt8) (flags : CInt) :
    GroupAgreesWithUser m task fd name ↔
      openDenied task name flags m = m.denied task.uid name ∧
      openatDenied task fd name flags m =
        m.denied task.uid (CharArray.probeReadStr nameMax name).bytes := by
  simp only [GroupAgreesWithUser, openDenied_eq, openatDenied_eq]
  cases unfiltered task fd m <;>
    cases m.denied task.uid (CharArray.probeReadStr nameMax name).bytes <;> simp

/-- The filter follows the user exactly where the entries found under the two
group numbers happen to agree with the entry of the user. -/
theorem decidedByUser_iff (m : Maps) (t₁ t₂ : Task) (fd : CInt) (name : List UInt8)
    (flags : CInt) (huid : t₁.uid = t₂.uid) :
    DecidedByUser m t₁ t₂ fd name flags ↔
      GroupAgreesWithUser m t₁ fd name ∧ GroupAgreesWithUser m t₂ fd name := by
  rw [groupAgreesWithUser_iff m t₁ fd name flags,
    groupAgreesWithUser_iff m t₂ fd name flags, ← huid]
  constructor
  · intro h
    exact ⟨⟨h.openEntry, h.openatEntry⟩,
      h.openSame.symm.trans h.openEntry, h.openatSame.symm.trans h.openatEntry⟩
  · rintro ⟨⟨hopen₁, hopenat₁⟩, hopen₂, hopenat₂⟩
    exact ⟨hopen₁.trans hopen₂.symm, hopen₁, hopenat₁.trans hopenat₂.symm, hopenat₁⟩

/-- `fuse/data/arch/x`. -/
def archPath : List UInt8 :=
  ['f', 'u', 's', 'e', '/', 'd', 'a', 't', 'a', '/', 'a', 'r', 'c', 'h', '/', 'x'].map
    (fun c => UInt8.ofNat c.toNat)

def rootTask : Task := ⟨0x100000001, 0, 0⟩
def rootOfGroup1000 : Task := ⟨0x200000002, 0, 1000⟩

/-- With the filter `main` installs, root in group 0 is refused the path and
root in group 1000 is not. -/
theorem filter_depends_on_group :
    rootTask.uid = rootOfGroup1000.uid ∧
    (getDirFdData rootTask atFdcwd Maps.loaded = none ↔
      getDirFdData rootOfGroup1000 atFdcwd Maps.loaded = none) ∧
    ¬ DecidedByUser Maps.loaded rootTask rootOfGroup1000 atFdcwd archPath 0 := by
  refine ⟨rfl, by decide +kernel, ?_⟩
  intro h
  have hsame := h.openSame
  revert hsame
  decide +kernel

/-- The filter of user 0 is stored for group 1000 as well. -/
def sharedFilter : Maps :=
  { Maps.loaded with
    openFileFilter := Maps.loaded.openFileFilter.update 1000 installedFilter }

/-- With that entry root is refused the path in both groups. -/
theorem decidedByUser_iff_rootTask :
    rootTask.gid ≠ rootOfGroup1000.gid ∧
    DecidedByUser sharedFilter rootTask rootOfGroup1000 atFdcwd archPath 0 ∧
    openDenied rootOfGroup1000 archPath 0 sharedFilter = true := by
  refine ⟨by decide, ?_, by decide +kernel⟩
  apply (decidedByUser_iff sharedFilter rootTask rootOfGroup1000 atFdcwd archPath 0 rfl).mpr
  constructor
  · exact ⟨by decide +kernel, by decide +kernel⟩
  · exact ⟨by decide +kernel, by decide +kernel⟩

/-- The first `fname_len` bytes of a filter entry. -/
def OpenArgs.blacklisted (e : OpenArgs) : List UInt8 :=
  e.fname.bytes.take e.fnameLen.toNat

/-- An entry whose prefix is a C string that fits the array. -/
structure OpenArgs.WellFormed (e : OpenArgs) : Prop where
  nonneg : 0 ≤ e.fnameLen.toInt
  fits : e.fnameLen.toInt ≤ 254
  nulFree : 0 ∉ e.blacklisted

theorem OpenArgs.WellFormed.cmpLen_eq {e : OpenArgs} (h : e.WellFormed) :
    e.cmpLen = e.fnameLen.toNat ∧ e.fnameLen.toNat ≤ 254 := by
  have hnonneg := h.nonneg
  have hfits := h.fits
  have hlen : (e.fnameLen.toNat : Int) = e.fnameLen.toInt := by
    rw [BitVec.toInt_eq_toNat_cond] at hnonneg ⊢
    split <;> omega
  have hmax : nameMax = 255 := rfl
  refine ⟨?_, by omega⟩
  rw [cmpLen, if_neg (by omega)]

/-- On a well-formed entry the comparison is the prefix test. -/
theorem OpenArgs.WellFormed.denies_iff {e : OpenArgs} (h : e.WellFormed)
    (s : List UInt8) : e.denies s = true ↔ e.blacklisted <+: s := by
  obtain ⟨hcmp, hsmall⟩ := h.cmpLen_eq
  have hlength : e.blacklisted.length = e.cmpLen := by
    rw [hcmp, blacklisted, List.length_take, e.fname.length_eq]
    exact Nat.min_eq_left (by omega : e.fnameLen.toNat ≤ 255)
  have hbyte : ∀ i < e.cmpLen, byteAt e.fname.bytes i = byteAt e.blacklisted i := by
    intro i hi
    simp [byteAt, blacklisted, List.getElem?_take_of_lt (hcmp ▸ hi)]
  have hnul : ∀ i < e.cmpLen, byteAt e.fname.bytes i ≠ 0 := by
    intro i hi
    rw [hbyte i hi]
    exact byteAt_ne_zero h.nulFree (by omega)
  rw [denies, decide_eq_true_iff, strncmp_eq_zero_iff hnul,
    ← forall_byteAt_iff_isPrefix h.nulFree, hlength]
  constructor
  · intro heq i hi
    rw [← hbyte i hi]
    exact heq i hi
  · intro heq i hi
    rw [hbyte i hi]
    exact heq i hi

/-- The bounded copy of a name that fits is judged like the name itself. -/
theorem denied_probeReadStr {m : Maps} {key : U32} {name : List UInt8}
    (hnul : 0 ∉ name) (hlen : name.length < nameMax) :
    m.denied key (CharArray.probeReadStr nameMax name).bytes = m.denied key name := by
  unfold Maps.denied
  cases m.openFileFilter.lookup key with
  | none => rfl
  | some e =>
      simp only [OpenArgs.denies]
      rw [strncmp_congr e.cmpLen (fun _ => rfl)
        (CharArray.byteAt_probeReadStr hnul hlen)]

/-- `open` and `openat` refuse the same names, namely those that begin with the
blacklisted prefix, and a refusal changes no map. -/
structure SameBlacklist (m : Maps) (task : Task) (fd : CInt) (name : List UInt8)
    (flags : CInt) (e : OpenArgs) : Prop where
  agree : openatDenied task fd name flags m = true ↔
    openDenied task name flags m = true
  byPrefix : openDenied task name flags m = true ↔ e.blacklisted <+: name
  openKeeps : openDenied task name flags m = true →
    (sysEnterOpen task name flags m).1 = m
  openatKeeps : openatDenied task fd name flags m = true →
    (sysEnterOpenat task fd name flags m).1 = m

/-- The two paths enforce one blacklist unless a blacklisted name is opened
relative to a descriptor that the tracker has not recorded. -/
theorem sameBlacklist_iff (m : Maps) (task : Task) (fd : CInt) (name : List UInt8)
    (flags : CInt) (e : OpenArgs)
    (hfound : m.openFileFilter.lookup (filterKey task) = some e)
    (hentry : e.WellFormed) (hnul : 0 ∉ name) (hlen : name.length < nameMax) :
    SameBlacklist m task fd name flags e ↔
      (fd = atFdcwd ∨ (getDirFdData task fd m).isSome ∨
        ¬ e.blacklisted <+: name) := by
  have hverdict : m.denied task.gid name = true ↔ e.blacklisted <+: name := by
    rw [filterKey_eq_gid] at hfound
    rw [← hentry.denies_iff name, Maps.denied, hfound]
  have hopen : openDenied task name flags m = true ↔ e.blacklisted <+: name := by
    rw [openDenied_eq, hverdict]
  have hopenat : openatDenied task fd name flags m = true ↔
      unfiltered task fd m = false ∧ e.blacklisted <+: name := by
    rw [openatDenied_eq, denied_probeReadStr hnul hlen, Bool.and_eq_true, hverdict,
      Bool.not_eq_true']
  have hfree : unfiltered task fd m = false ↔
      fd = atFdcwd ∨ (getDirFdData task fd m).isSome := by
    rw [unfiltered, decide_eq_false_iff_not, not_and_or, not_not,
      ← ne_eq, Option.ne_none_iff_isSome]
  constructor
  · intro h
    by_cases hpre : e.blacklisted <+: name
    · have hchecked := (hopenat.mp (h.agree.mpr (hopen.mpr hpre))).1
      rcases hfree.mp hchecked with hcwd | hrecorded
      · exact Or.inl hcwd
      · exact Or.inr (Or.inl hrecorded)
    · exact Or.inr (Or.inr hpre)
  · intro h
    refine ⟨?_, hopen, maps_of_openDenied, maps_of_openatDenied⟩
    rw [hopenat, hopen]
    constructor
    · exact And.right
    · intro hpre
      refine ⟨hfree.mpr ?_, hpre⟩
      rcases h with hcwd | hrecorded | hother
      · exact Or.inl hcwd
      · exact Or.inr hrecorded
      · exact absurd hpre hother

theorem installedFilter_wellFormed : installedFilter.WellFormed :=
  ⟨by decide +kernel, by decide +kernel, by decide +kernel⟩

theorem loaded_lookup_rootTask :
    Maps.loaded.openFileFilter.lookup (filterKey rootTask) = some installedFilter := by
  decide +kernel

/-- Relative to descriptor 5, which no handler has recorded, `openat` lets the
name through that `open` refuses. -/
theorem unrecorded_dirfd_bypasses :
    Maps.loaded.openFileFilter.lookup (filterKey rootTask) = some installedFilter ∧
    installedFilter.WellFormed ∧ 0 ∉ archPath ∧ archPath.length < nameMax ∧
    ¬ SameBlacklist Maps.loaded rootTask 5 archPath 0 installedFilter := by
  refine ⟨loaded_lookup_rootTask, installedFilter_wellFormed, by decide, by decide, ?_⟩
  intro h
  have hdenied : openatDenied rootTask 5 archPath 0 Maps.loaded = true :=
    h.agree.mpr (by decide +kernel)
  revert hdenied
  decide +kernel

theorem sameBlacklist_iff_atFdcwd :
    SameBlacklist Maps.loaded rootTask atFdcwd archPath 0 installedFilter ↔
      (atFdcwd = atFdcwd ∨ (getDirFdData rootTask atFdcwd Maps.loaded).isSome ∨
        ¬ installedFilter.blacklisted <+: archPath) :=
  sameBlacklist_iff Maps.loaded rootTask atFdcwd archPath 0 installedFilter
    loaded_lookup_rootTask installedFilter_wellFormed (by decide) (by decide)

end BpftimeBenchmark.FsCache
