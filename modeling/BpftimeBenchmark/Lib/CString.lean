import Mathlib.Data.List.Basic
import Mathlib.Data.List.GetD
import Mathlib.Data.List.TakeWhile
import Mathlib.Logic.Function.Basic

/-!
C strings and byte buffers. A user string is the list of bytes in front of its
terminator, so a read at or past the end yields NUL. A `char` array of a
struct is a list of fixed length.
-/

namespace BpftimeBenchmark

/-- Contents of one address space. -/
abbrev Memory := Nat → UInt8

/-- The `n` bytes at address `p`. -/
def Memory.read (mem : Memory) (p n : Nat) : List UInt8 :=
  (List.range n).map (fun i => mem (p + i))

/-- `char a[n]`. -/
@[ext] structure CharArray (n : Nat) where
  bytes : List UInt8
  length_eq : bytes.length = n
  deriving DecidableEq

namespace CString

/-- The byte a C pointer to `s` finds at offset `i`. -/
def byteAt (s : List UInt8) (i : Nat) : UInt8 := s.getD i 0

/-- `strncmp(s1, s2, n)`: at most `n` bytes are compared, and a NUL in both
strings ends the comparison early. -/
def strncmp (s1 s2 : List UInt8) : Nat → Int
  | 0 => 0
  | n + 1 =>
      let a := byteAt s1 0
      let b := byteAt s2 0
      if a ≠ b then (a.toNat : Int) - b.toNat
      else if a = 0 then 0
      else strncmp s1.tail s2.tail n

theorem byteAt_tail (s : List UInt8) (i : Nat) :
    byteAt s.tail i = byteAt s (i + 1) := by
  cases s <;> simp [byteAt]

/-- A comparison only reads its two arguments through `byteAt`. -/
theorem strncmp_congr {s1 s2 t1 t2 : List UInt8} (n : Nat)
    (h1 : ∀ i, byteAt s1 i = byteAt t1 i) (h2 : ∀ i, byteAt s2 i = byteAt t2 i) :
    strncmp s1 s2 n = strncmp t1 t2 n := by
  induction n generalizing s1 s2 t1 t2 with
  | zero => rfl
  | succ n ih =>
      have htail : strncmp s1.tail s2.tail n = strncmp t1.tail t2.tail n :=
        ih (by simp [byteAt_tail, h1]) (by simp [byteAt_tail, h2])
      simp only [strncmp, h1, h2, htail]

theorem toNat_sub_ne_zero {a b : UInt8} (h : a ≠ b) :
    (a.toNat : Int) - b.toNat ≠ 0 := by
  intro hzero
  apply h
  apply UInt8.toNat_inj.mp
  omega

/-- Without a NUL among the first `n` bytes of the left string, equality up to
`n` is equality of these bytes. -/
theorem strncmp_eq_zero_iff {s1 s2 : List UInt8} {n : Nat}
    (hnul : ∀ i < n, byteAt s1 i ≠ 0) :
    strncmp s1 s2 n = 0 ↔ ∀ i < n, byteAt s1 i = byteAt s2 i := by
  induction n generalizing s1 s2 with
  | zero => simp [strncmp]
  | succ n ih =>
      have hhead : byteAt s1 0 ≠ 0 := hnul 0 (by omega)
      have hnul' : ∀ i < n, byteAt s1.tail i ≠ 0 := by
        intro i hi
        rw [byteAt_tail]
        exact hnul (i + 1) (by omega)
      have htail : strncmp s1.tail s2.tail n = 0 ↔
          ∀ i < n, byteAt s1.tail i = byteAt s2.tail i := ih hnul'
      by_cases heq : byteAt s1 0 = byteAt s2 0
      · have hstep : strncmp s1 s2 (n + 1) = strncmp s1.tail s2.tail n := by
          simp [strncmp, heq, heq ▸ hhead]
        rw [hstep, htail]
        constructor
        · intro h i hi
          cases i with
          | zero => exact heq
          | succ i => simpa [byteAt_tail] using h i (by omega)
        · intro h i hi
          simpa [byteAt_tail] using h (i + 1) (by omega)
      · have hstep : strncmp s1 s2 (n + 1) ≠ 0 := by
          simpa [strncmp, heq] using toNat_sub_ne_zero heq
        constructor
        · intro h
          exact absurd h hstep
        · intro h
          exact absurd (h 0 (by omega)) heq

/-- The sign of a comparison turns with its arguments. -/
theorem strncmp_swap (s1 s2 : List UInt8) (n : Nat) :
    strncmp s1 s2 n = -strncmp s2 s1 n := by
  induction n generalizing s1 s2 with
  | zero => rfl
  | succ n ih =>
      by_cases heq : byteAt s1 0 = byteAt s2 0
      · simp only [strncmp, heq, ne_eq, not_true_eq_false, if_false, ih s1.tail s2.tail]
        split <;> rfl
      · have hne : ¬ byteAt s2 0 = byteAt s1 0 := fun h => heq h.symm
        simp only [strncmp, ne_eq, heq, hne, not_false_eq_true, if_true]
        omega

theorem byteAt_ne_zero {s : List UInt8} (hnul : 0 ∉ s) {i : Nat}
    (hi : i < s.length) : byteAt s i ≠ 0 := by
  intro h
  apply hnul
  rw [byteAt, List.getD_eq_getElem _ _ hi] at h
  rw [← h]
  exact List.getElem_mem hi

theorem byteAt_of_length_le {s : List UInt8} {i : Nat} (hi : s.length ≤ i) :
    byteAt s i = 0 :=
  List.getD_eq_default _ _ hi

/-- For a NUL-free pattern the byte-wise test is the prefix test. -/
theorem forall_byteAt_iff_isPrefix {s1 s2 : List UInt8} (hnul : 0 ∉ s1) :
    (∀ i < s1.length, byteAt s1 i = byteAt s2 i) ↔ s1 <+: s2 := by
  constructor
  · intro h
    have hlen : s1.length ≤ s2.length := by
      by_contra hlt
      have hi : s2.length < s1.length := by omega
      have heq := h s2.length hi
      rw [byteAt_of_length_le (le_refl _)] at heq
      exact byteAt_ne_zero hnul hi heq
    rw [List.prefix_iff_eq_take]
    apply List.ext_getElem
    · simp [hlen]
    · intro i h1 h2
      have heq := h i h1
      simp only [byteAt] at heq
      rw [List.getD_eq_getElem _ _ h1,
        List.getD_eq_getElem _ _ (by omega : i < s2.length)] at heq
      simpa using heq
  · rintro ⟨rest, rfl⟩ i hi
    simp [byteAt, List.getElem?_append_left hi]

/-- Comparing as many bytes as a NUL-free pattern has is the prefix test. -/
theorem strncmp_pattern_iff {s pattern : List UInt8} (hnul : 0 ∉ pattern) :
    strncmp s pattern pattern.length = 0 ↔ pattern <+: s := by
  rw [strncmp_swap, Int.neg_eq_zero, strncmp_eq_zero_iff (fun _ hi => byteAt_ne_zero hnul hi)]
  exact forall_byteAt_iff_isPrefix hnul

end CString

namespace CharArray

open CString

def zeros (n : Nat) : CharArray n := ⟨List.replicate n 0, by simp⟩

/-- The C string an array holds: its bytes in front of the first NUL. -/
def cstr {n : Nat} (a : CharArray n) : List UInt8 := a.bytes.takeWhile (· ≠ 0)

/-- `bpf_probe_read_str(dst, n, s)` into a zeroed array: copies up to the
terminator and at most `n - 1` bytes. -/
def probeReadStr (n : Nat) (s : List UInt8) : CharArray n :=
  let copied := (s.takeWhile (· ≠ 0)).take (n - 1)
  ⟨copied ++ List.replicate (n - copied.length) 0, by
    have hcopied : copied.length ≤ n - 1 := List.length_take_le _ _
    simp only [List.length_append, List.length_replicate]
    omega⟩

/-- `bpf_probe_read(dst, n, p)`. -/
def probeRead (n : Nat) (mem : Memory) (p : Nat) : CharArray n :=
  ⟨mem.read p n, by simp [Memory.read]⟩

theorem takeWhile_of_nul_free {s : List UInt8} (hnul : 0 ∉ s) :
    s.takeWhile (· ≠ 0) = s := by
  rw [List.takeWhile_eq_self_iff]
  intro b hb
  have hne : b ≠ 0 := fun h => hnul (h ▸ hb)
  simpa using hne

theorem probeReadStr_bytes {n : Nat} {s : List UInt8} (hnul : 0 ∉ s)
    (hlen : s.length < n) :
    (probeReadStr n s).bytes = s ++ List.replicate (n - s.length) 0 := by
  simp only [probeReadStr, takeWhile_of_nul_free hnul]
  rw [List.take_of_length_le (by omega)]

/-- A copy that fits reads like the string it was made from. -/
theorem byteAt_probeReadStr {n : Nat} {s : List UInt8} (hnul : 0 ∉ s)
    (hlen : s.length < n) (i : Nat) :
    byteAt (probeReadStr n s).bytes i = byteAt s i := by
  rw [probeReadStr_bytes hnul hlen]
  by_cases hi : i < s.length
  · simp [byteAt, List.getElem?_append_left hi]
  · have hle : s.length ≤ i := by omega
    rw [byteAt_of_length_le hle]
    simp only [byteAt, List.getD_eq_getElem?_getD]
    rw [List.getElem?_append_right hle, List.getElem?_replicate]
    split <;> rfl

theorem cstr_probeReadStr {n : Nat} {s : List UInt8} (hnul : 0 ∉ s)
    (hlen : s.length < n) : (probeReadStr n s).cstr = s := by
  have hpos : n - s.length = (n - s.length - 1) + 1 := by omega
  rw [cstr, probeReadStr_bytes hnul hlen, hpos, List.replicate_succ,
    List.takeWhile_append, takeWhile_of_nul_free hnul]
  simp

/-- Reading where `s` is stored yields `s`. -/
theorem take_probeRead {n : Nat} {mem : Memory} {p : Nat} {s : List UInt8}
    (hlen : s.length ≤ n) (hmem : ∀ i < s.length, mem (p + i) = byteAt s i) :
    (probeRead n mem p).bytes.take s.length = s := by
  apply List.ext_getElem
  · simp [probeRead, Memory.read, hlen]
  · intro i h1 h2
    have hbyte := hmem i h2
    rw [byteAt, List.getD_eq_getElem _ _ h2] at hbyte
    simpa [probeRead, Memory.read] using hbyte

end CharArray

/-- `bpf_probe_write_user(p, src, n)`. -/
def Memory.write (mem : Memory) (p : Nat) (src : List UInt8) : Memory :=
  fun a => if p ≤ a ∧ a < p + src.length then CString.byteAt src (a - p) else mem a

theorem Memory.write_outside {mem : Memory} {p a : Nat} {src : List UInt8}
    (h : a < p ∨ p + src.length ≤ a) : mem.write p src a = mem a := by
  have hnot : ¬ (p ≤ a ∧ a < p + src.length) := by omega
  simp [write, hnot]

theorem Memory.write_inside {mem : Memory} {p : Nat} {src : List UInt8} {i : Nat}
    (h : i < src.length) : mem.write p src (p + i) = CString.byteAt src i := by
  simp [write, h]

/-- A store that changes nothing inside the range changes nothing that is read. -/
theorem Memory.read_update {mem : Memory} {p buf n : Nat} {b : UInt8}
    (h : buf ≤ p → p < buf + n → mem p = b) :
    Memory.read (Function.update mem p b) buf n = mem.read buf n := by
  apply List.map_congr_left
  intro i hi
  have hlt := List.mem_range.mp hi
  by_cases hp : buf + i = p
  · subst hp
    rw [Function.update_self]
    exact (h (by omega) (by omega)).symm
  · rw [Function.update_of_ne hp]

end BpftimeBenchmark
