import Lab4Kernel.Syscall.Regions
import Mathlib.Data.List.TakeWhile

/-!
# The loads of `write`

* `writeLoop_among`: the output loop loads from `buf` up to `buf + count` only;
* `writeLoop_out`: what it prints is what memory holds there, up to the first zero;
* `write_permitted_iff`: the check of `max_addr` is sound exactly when the end does not wrap around,
  or the call is refused, or the count itself reads as `-EFAULT`;
* `write_reports_iff`: the value returned is the number of characters printed exactly when it reads
  as an error, or is a count below `2 ^ 31` of bytes none of which is zero.
-/

namespace Lab4Kernel

open Ranges

section Loop

variable (mem : Memory) (buf : Word)

theorem writeLoop_loads (n i : ℕ) :
    ∀ a ∈ (writeLoop mem buf n i).2, ∃ j, j < i + n ∧ a = buf + BitVec.ofNat 32 j := by
  induction n generalizing i with
  | zero =>
    intro a ha
    cases ha
  | succ n ih =>
    unfold writeLoop
    intro a ha
    have hfirst : ∃ j, j < i + (n + 1) ∧ buf + BitVec.ofNat 32 i = buf + BitVec.ofNat 32 j :=
      ⟨i, by omega, rfl⟩
    dsimp only at ha
    split_ifs at ha
    · rw [List.mem_singleton.mp ha]
      exact hfirst
    · rcases List.mem_cons.mp ha with rfl | ha
      · exact hfirst
      · obtain ⟨j, hj, rfl⟩ := ih (i + 1) a ha
        exact ⟨j, by omega, rfl⟩

/-- The bytes from index `i` on, `n` of them. -/
def bytesFrom (n i : ℕ) : List Byte :=
  (List.range' i n).map fun j => mem (buf + BitVec.ofNat 32 j)

theorem writeLoop_out (n i : ℕ) :
    (writeLoop mem buf n i).1 = (bytesFrom mem buf n i).takeWhile (· ≠ 0) := by
  induction n generalizing i with
  | zero => rfl
  | succ n ih =>
    unfold writeLoop bytesFrom
    rw [List.range'_succ, List.map_cons, List.takeWhile_cons]
    dsimp only
    by_cases hz : mem (buf + BitVec.ofNat 32 i) = 0
    · simp [hz]
    · rw [if_neg hz, if_pos (decide_eq_true hz), ih (i + 1)]
      rfl

end Loop

/-- The loop loads within the buffer; a count from `2 ^ 31` on is negative, and it loads nothing. -/
theorem writeLoop_among (mem : Memory) (buf count : Word) :
    Among buf count (writeLoop mem buf count.toInt.toNat 0).2 := by
  intro a ha
  obtain ⟨j, hj, rfl⟩ := writeLoop_loads mem buf _ 0 a ha
  have hint := toInt_le_toNat count
  exact ⟨j, by omega, rfl⟩

/-! ## The check of `max_addr` -/

/-- What `write` refuses with `-EFAULT`. -/
def WriteRefused (buf count : Word) : Prop :=
  ¬(buf + count ≤ romEnd ∨ (buf ≥ sdramBegin ∧ buf + count ≤ sdramEnd))

instance (buf count : Word) : Decidable (WriteRefused buf count) :=
  inferInstanceAs (Decidable ¬_)

theorem write_refused {buf count : Word} (h : WriteRefused buf count) (mem : Memory) :
    write stdoutFileno buf count mem = (-efault, [], []) := by
  unfold write
  rw [if_neg (not_not.mpr rfl)]
  exact if_pos h

theorem write_accepted {buf count : Word} (h : ¬WriteRefused buf count) (mem : Memory) :
    write stdoutFileno buf count mem =
      (count.toInt, writeLoop mem buf count.toInt.toNat 0) := by
  unfold write
  rw [if_neg (not_not.mpr rfl)]
  exact if_neg h

theorem write_efault_iff (buf count : Word) (mem : Memory) :
    (write stdoutFileno buf count mem).1 = -efault ↔
      WriteRefused buf count ∨ count.toInt = -efault := by
  by_cases href : WriteRefused buf count
  · rw [write_refused href]
    exact iff_of_true rfl (Or.inl href)
  · rw [write_accepted href]
    exact (or_iff_right href).symm

theorem encloses_of_writable {buf count : Word} (h : ¬WriteRefused buf count)
    (hwrap : buf.toNat + count.toNat < 2 ^ 32) :
    ∃ r ∈ [Region.rom, Region.sdram], r.Encloses buf count := by
  have hsum : (buf + count).toNat = buf.toNat + count.toNat := by
    rw [BitVec.toNat_add, Nat.mod_eq_of_lt hwrap]
  rcases not_not.mp h with hend | ⟨hbase, hend⟩ <;> rw [BitVec.le_def, hsum] at hend
  · exact ⟨Region.rom, by simp, Nat.zero_le _, Nat.lt_succ_of_le hend⟩
  · exact ⟨Region.sdram, by simp, hbase, Nat.lt_succ_of_le hend⟩

/-- `write` accepts the buffer only when it is permitted, and loads from permitted addresses only,
whatever memory holds. -/
def WritePermitted (buf count : Word) : Prop :=
  ∀ mem : Memory, (write stdoutFileno buf count mem).1 ≠ -efault →
    Permitted [Region.rom, Region.sdram] buf count (write stdoutFileno buf count mem).2.2

/-- **When `write` keeps to ROM and SDRAM**: when the end does not wrap around, or the call is
refused, or it returns a count that reads as `-EFAULT`. -/
theorem write_permitted_iff (buf count : Word) :
    WritePermitted buf count ↔
      buf.toNat + count.toNat < 2 ^ 32 ∨ WriteRefused buf count ∨ count.toInt = -efault := by
  constructor
  · intro h
    by_cases hret : WriteRefused buf count ∨ count.toInt = -efault
    · exact Or.inr hret
    · have hperm := h (fun _ => 0) (mt (write_efault_iff _ _ _).mp hret)
      exact Or.inl hperm.no_wrap
  · intro h mem hret
    have hok := mt (write_efault_iff _ _ mem).mpr hret
    have hacc : ¬WriteRefused buf count := fun hr => hok (Or.inl hr)
    have hwrap := h.resolve_right hok
    obtain ⟨r, hr, henc⟩ := encloses_of_writable hacc hwrap
    rw [write_accepted hacc]
    exact permitted_of_among (writeLoop_among mem buf count) hr henc

/-- One byte at `0xffffffff`: the end wraps around to `0`, below `ROM_END`, the call is accepted,
and the byte loaded is printed. -/
theorem write_discloses :
    (write stdoutFileno 0xffffffff 1 (fun _ => 115)) = (1, [115], [0xffffffff]) ∧
    ¬Region.rom.Holds 0xffffffff ∧ ¬Region.sdram.Holds 0xffffffff ∧
    ¬WritePermitted 0xffffffff 1 := by
  refine ⟨by decide, by decide, by decide, ?_⟩
  intro h
  have hperm := h (fun _ => 0) (by decide)
  exact absurd hperm.no_wrap (by decide)

/-! ## The value returned -/

/-- A value returned that is not an error is the number of characters printed, and these are the
first so many bytes of the buffer. The errors of `write` are `-EFAULT` and `-EBADF`. -/
def WriteReports (buf count : Word) (mem : Memory) : Prop :=
  let r := write stdoutFileno buf count mem
  r.1 ≠ -efault → r.1 ≠ -ebadf → r.1 = r.2.1.length ∧ r.2.1 = bytesFrom mem buf r.1.toNat 0

theorem mem_bytesFrom {mem : Memory} {buf : Word} {n : ℕ} {ch : Byte} :
    ch ∈ bytesFrom mem buf n 0 ↔ ∃ i, i < n ∧ mem (buf + BitVec.ofNat 32 i) = ch := by
  unfold bytesFrom
  rw [← List.range_eq_range', List.mem_map]
  simp only [List.mem_range]

theorem length_bytesFrom (mem : Memory) (buf : Word) (n i : ℕ) :
    (bytesFrom mem buf n i).length = n := by
  unfold bytesFrom
  rw [List.length_map, List.length_range']

theorem writeLoop_all {mem : Memory} {buf : Word} {n : ℕ}
    (h : (writeLoop mem buf n 0).1.length = n) :
    (writeLoop mem buf n 0).1 = bytesFrom mem buf n 0 := by
  rw [writeLoop_out] at h ⊢
  apply (List.takeWhile_prefix _).eq_of_length
  rw [h, length_bytesFrom]

theorem writeLoop_all_iff (mem : Memory) (buf : Word) (n : ℕ) :
    (writeLoop mem buf n 0).1.length = n ↔ ∀ i, i < n → mem (buf + BitVec.ofNat 32 i) ≠ 0 := by
  constructor
  · intro hlen i hi hz
    have hself := writeLoop_all hlen
    rw [writeLoop_out] at hself
    have hne := List.takeWhile_eq_self_iff.mp hself 0 (mem_bytesFrom.mpr ⟨i, hi, hz⟩)
    simp at hne
  · intro hall
    have hself : (bytesFrom mem buf n 0).takeWhile (· ≠ 0) = bytesFrom mem buf n 0 := by
      rw [List.takeWhile_eq_self_iff]
      intro ch hch
      obtain ⟨i, hi, rfl⟩ := mem_bytesFrom.mp hch
      exact decide_eq_true (hall i hi)
    rw [writeLoop_out, hself, length_bytesFrom]

/-- An accepted call reports what it printed when the count is not negative as `ssize_t` and none of
the bytes is zero. -/
theorem accepted_reports_iff (buf count : Word) (mem : Memory) :
    (count.toInt = (writeLoop mem buf count.toInt.toNat 0).1.length ∧
      (writeLoop mem buf count.toInt.toNat 0).1 = bytesFrom mem buf count.toInt.toNat 0) ↔
      count.toNat < 2 ^ 31 ∧ ∀ i, i < count.toNat → mem (buf + BitVec.ofNat 32 i) ≠ 0 := by
  have hcond := BitVec.toInt_eq_toNat_cond count
  by_cases hneg : count.toInt < 0
  · have hbig : ¬count.toNat < 2 ^ 31 := by
      intro hlt
      rw [if_pos (by omega)] at hcond
      omega
    exact iff_of_false (fun h => by omega) (fun h => hbig h.1)
  · have hnat : count.toInt = count.toNat := toInt_eq_toNat (not_lt.mp hneg)
    have hsmall : count.toNat < 2 ^ 31 := by
      by_contra hge
      rw [if_neg (by omega)] at hcond
      omega
    have hn : count.toInt.toNat = count.toNat := by omega
    rw [hn, and_iff_right hsmall, ← writeLoop_all_iff, hnat]
    constructor
    · intro h
      exact (Int.natCast_inj.mp h.1).symm
    · intro hlen
      exact ⟨congrArg _ hlen.symm, writeLoop_all hlen⟩

/-- **When `write` reports what it printed**: when the call is refused, or returns a count that reads
as one of the errors, or the count is below `2 ^ 31` and none of the bytes is zero. -/
theorem write_reports_iff (buf count : Word) (mem : Memory) :
    WriteReports buf count mem ↔
      WriteRefused buf count ∨ count.toInt = -efault ∨ count.toInt = -ebadf ∨
        (count.toNat < 2 ^ 31 ∧ ∀ i, i < count.toNat → mem (buf + BitVec.ofNat 32 i) ≠ 0) := by
  unfold WriteReports
  by_cases href : WriteRefused buf count
  · rw [write_refused href]
    exact iff_of_true (fun h => absurd rfl h) (.inl href)
  · rw [write_accepted href, or_iff_right href]
    dsimp only
    rw [accepted_reports_iff]
    tauto

/-- Two calls that report what they did not print: of one byte that is zero `write` prints nothing
and returns one, and of `2 ^ 31` bytes it prints nothing either and returns a number below every
error. -/
theorem write_misreports :
    (write stdoutFileno 0xa0000000 1 (fun _ => 0) = (1, [], [0xa0000000]) ∧
      ¬WriteReports 0xa0000000 1 (fun _ => 0)) ∧
    (write stdoutFileno 0xa0000000 0x80000000 (fun _ => 115) = (-2147483648, [], []) ∧
      ¬WriteReports 0xa0000000 0x80000000 (fun _ => 115)) := by
  have hzero : write stdoutFileno 0xa0000000 1 (fun _ => 0) = (1, [], [0xa0000000]) := by decide
  have hneg : write stdoutFileno 0xa0000000 0x80000000 (fun _ => 115) = (-2147483648, [], []) := by
    decide
  refine ⟨⟨hzero, fun h => ?_⟩, hneg, fun h => ?_⟩
  · unfold WriteReports at h
    rw [hzero] at h
    exact absurd (h (by decide) (by decide)).1 (by decide)
  · unfold WriteReports at h
    rw [hneg] at h
    exact absurd (h (by decide) (by decide)).1 (by decide)

end Lab4Kernel
