import Lab4Kernel.Syscall.Regions

/-!
# The stores of `read`

* `readLoop_filling`: the input loop stores between `buf` and `buf + count` only, and returns a
  number of characters between `0` and `count`;
* `read_frame`: `read` changes no other memory;
* `read_permitted_iff`: the check of the arguments is sound for a buffer exactly when it is longer
  than `buffersize`, and so refused, or its end does not wrap around.
-/

namespace Lab4Kernel

open Ranges

/-- The input loop has gone no further than the buffer, and memory differs from `mem₀` only at the
addresses stored to. -/
structure Filling (charbuf count : Word) (mem₀ : Memory) (st : ReadState) : Prop where
  low : -1 ≤ st.readcount
  high : st.readcount < count.toNat
  stored : Among charbuf count st.stores
  frame : ∀ a, a ∉ st.stores → st.mem a = mem₀ a

section Loop

variable {charbuf count : Word} {mem₀ : Memory} {st : ReadState}

theorem Filling.start (charbuf count : Word) (mem : Memory) :
    Filling charbuf count mem { mem := mem } := by
  refine ⟨le_refl _, ?_, ?_, fun _ _ => rfl⟩
  · show (-1 : ℤ) < count.toNat
    omega
  · intro a ha
    cases ha

theorem Filling.store (h : Filling charbuf count mem₀ st) (h0 : 0 ≤ st.readcount) (ch : Byte) :
    Filling charbuf count mem₀ (st.store charbuf ch) := by
  refine ⟨h.low, h.high, ?_, ?_⟩
  · intro a ha
    rcases List.mem_cons.mp ha with rfl | ha
    · obtain ⟨i, hi⟩ := Int.eq_ofNat_of_zero_le h0
      have hhigh := h.high
      refine ⟨i, by omega, ?_⟩
      rw [hi, BitVec.ofInt_natCast]
    · exact h.stored a ha
  · intro a ha
    obtain ⟨hne, ha⟩ := not_or.mp (mt List.mem_cons.mpr ha)
    show Function.update st.mem _ ch a = mem₀ a
    rw [Function.update_of_ne hne, h.frame a ha]

theorem Filling.putc (h : Filling charbuf count mem₀ st) (ch : Byte) :
    Filling charbuf count mem₀ (st.putc ch) :=
  ⟨h.low, h.high, h.stored, h.frame⟩

theorem Filling.back (h : Filling charbuf count mem₀ st) (h0 : 0 ≤ st.readcount) :
    Filling charbuf count mem₀ { st with readcount := st.readcount - 1 } := by
  have hhigh := h.high
  refine ⟨?_, ?_, h.stored, h.frame⟩
  · show -1 ≤ st.readcount - 1
    omega
  · show st.readcount - 1 < count.toNat
    omega

theorem Filling.push (h : Filling charbuf count mem₀ st) (hroom : st.readcount + 1 < count.toInt)
    (ch : Byte) :
    Filling charbuf count mem₀
      (({ st with readcount := st.readcount + 1 } : ReadState).store charbuf ch) := by
  have hlow := h.low
  -- a count from `2 ^ 31` on is negative as `ssize_t`, and leaves no room
  have hint := toInt_le_toNat count
  apply Filling.store _ (by show 0 ≤ st.readcount + 1; omega)
  refine ⟨?_, ?_, h.stored, h.frame⟩
  · show -1 ≤ st.readcount + 1
    omega
  · show st.readcount + 1 < count.toNat
    omega

theorem Filling.returns (h : Filling charbuf count mem₀ st) :
    0 ≤ st.readcount + 1 ∧ st.readcount + 1 ≤ count.toNat := by
  have hlow := h.low
  have hhigh := h.high
  omega

/-- **The input loop stays in the buffer**, whatever is typed. -/
theorem readLoop_filling (input : List Byte) (h : Filling charbuf count mem₀ st) :
    Filling charbuf count mem₀ (readLoop charbuf count input st).2 ∧
      ∀ v, (readLoop charbuf count input st).1 = some v → 0 ≤ v ∧ v ≤ count.toNat := by
  induction input generalizing st with
  | nil => exact ⟨h, by intro v hv; cases hv⟩
  | cons ch input ih =>
    have hstop : Filling charbuf count mem₀ st ∧
        ∀ v, some (st.readcount + 1) = some v → 0 ≤ v ∧ v ≤ count.toNat := by
      refine ⟨h, ?_⟩
      rintro _ ⟨⟩
      exact h.returns
    unfold readLoop
    split_ifs with heot hback hheld hnl hroom hroom
    · exact hstop
    · exact ih (((((h.store hheld 0).back hheld).putc 8).putc 32).putc 8)
    · exact ih h
    · have hpush := (h.push hroom 10).putc 10
      refine ⟨hpush, ?_⟩
      rintro _ ⟨⟩
      exact hpush.returns
    · exact hstop
    · exact ih ((h.push hroom ch).putc ch)
    · exact hstop

end Loop

/-! ## The check of the arguments -/

/-- What `read` refuses with `-EFAULT`. -/
def ReadRefused (buf count sp : Word) : Prop :=
  count > buffersize ∨
    ¬((buf + count < sp ∧ buf ≥ heapbtm) ∨ (buf + count ≤ freetop ∧ buf ≥ freebtm))

instance (buf count sp : Word) : Decidable (ReadRefused buf count sp) :=
  inferInstanceAs (Decidable (_ ∨ _))

theorem read_refused {buf count sp : Word} (h : ReadRefused buf count sp) (input : List Byte)
    (mem : Memory) :
    read stdinFileno buf count sp input mem = (some (-efault), { mem := mem }) := by
  unfold read
  rw [if_neg (not_not.mpr rfl)]
  exact if_pos h

theorem read_accepted {buf count sp : Word} (h : ¬ReadRefused buf count sp) (input : List Byte)
    (mem : Memory) :
    read stdinFileno buf count sp input mem = readLoop buf count input { mem := mem } := by
  unfold read
  rw [if_neg (not_not.mpr rfl)]
  exact if_neg h

theorem read_efault_iff (buf count sp : Word) (input : List Byte) (mem : Memory) :
    (read stdinFileno buf count sp input mem).1 = some (-efault) ↔ ReadRefused buf count sp := by
  constructor
  · intro hret
    by_contra hacc
    rw [read_accepted hacc] at hret
    have hv := (readLoop_filling input (Filling.start buf count mem)).2 _ hret
    exact absurd hv.1 (by decide)
  · intro h
    rw [read_refused h]

theorem read_frame (fd : ℤ) (buf count sp : Word) (input : List Byte) (mem : Memory) (a : Word)
    (ha : ∀ i, i < count.toNat → a ≠ buf + BitVec.ofNat 32 i) :
    (read fd buf count sp input mem).2.mem a = mem a := by
  unfold read
  have hfill := (readLoop_filling input (Filling.start buf count mem)).1
  split_ifs
  · rfl
  · rfl
  · apply hfill.frame
    intro hst
    obtain ⟨i, hi, hai⟩ := hfill.stored a hst
    exact ha i hi hai

theorem encloses_of_accepted {buf count sp : Word} (h : ¬ReadRefused buf count sp)
    (hwrap : buf.toNat + count.toNat < 2 ^ 32) :
    ∃ r ∈ [Region.heap sp, Region.free], r.Encloses buf count := by
  have hsum : (buf + count).toNat = buf.toNat + count.toNat := by
    rw [BitVec.toNat_add, Nat.mod_eq_of_lt hwrap]
  unfold ReadRefused at h
  obtain ⟨-, harm⟩ := not_or.mp h
  rcases not_not.mp harm with ⟨hend, hbase⟩ | ⟨hend, hbase⟩
  · refine ⟨Region.heap sp, by simp, ?_⟩
    rw [BitVec.lt_def, hsum] at hend
    exact ⟨hbase, hend⟩
  · refine ⟨Region.free, by simp, ?_⟩
    rw [BitVec.le_def, hsum] at hend
    exact ⟨hbase, Nat.lt_succ_of_le hend⟩

/-- A buffer of an accepted size whose end wraps around satisfies the arm of the free region. -/
theorem accepted_of_wrap {buf count : Word} (sp : Word) (hsize : ¬count > buffersize)
    (hwrap : 2 ^ 32 ≤ buf.toNat + count.toNat) : ¬ReadRefused buf count sp := by
  have hcount : count.toNat ≤ 0x4000000 := not_lt.mp hsize
  have hsum : (buf + count).toNat + 2 ^ 32 = buf.toNat + count.toNat := by
    rcases add_cases buf count with ⟨hlt, -⟩ | ⟨-, h⟩
    · omega
    · exact h
  have hbuf := buf.isLt
  rintro (hbig | harm)
  · exact hsize hbig
  · apply harm
    refine Or.inr ⟨?_, ?_⟩
    · rw [BitVec.le_def]
      show (buf + count).toNat ≤ 0xa3efffff
      omega
    · show 0xa3edf000 ≤ buf.toNat
      omega

/-- `read` accepts the buffer only when it is permitted, and stores to permitted addresses only,
for whatever is typed and whatever memory holds. -/
def ReadPermitted (buf count sp : Word) : Prop :=
  ∀ (input : List Byte) (mem : Memory),
    (read stdinFileno buf count sp input mem).1 ≠ some (-efault) →
      Permitted [Region.heap sp, Region.free] buf count
        (read stdinFileno buf count sp input mem).2.stores

/-- **When `read` keeps to its regions**: when the buffer is refused for its size, or its end does
not wrap around. -/
theorem read_permitted_iff (buf count sp : Word) :
    ReadPermitted buf count sp ↔
      count > buffersize ∨ buf.toNat + count.toNat < 2 ^ 32 := by
  constructor
  · intro h
    by_contra hcon
    obtain ⟨hsize, hwrap⟩ := not_or.mp hcon
    have hacc := accepted_of_wrap sp hsize (not_lt.mp hwrap)
    have hperm := h [] (fun _ => 0) (mt (read_efault_iff _ _ _ _ _).mp hacc)
    exact hwrap hperm.no_wrap
  · intro h input mem hret
    have hacc : ¬ReadRefused buf count sp := mt (read_efault_iff _ _ _ _ _).mpr hret
    rcases h with hbig | hwrap
    · exact absurd (Or.inl hbig) hacc
    · obtain ⟨r, hr, henc⟩ := encloses_of_accepted hacc hwrap
      rw [read_accepted hacc]
      have hfill := (readLoop_filling input (Filling.start buf count mem)).1
      exact permitted_of_among hfill.stored hr henc

/-- One byte at `0xffffffff`: the end wraps around to `0`, the call is accepted, and the letter
typed is stored outside both regions. -/
theorem read_stores_outside :
    (read stdinFileno 0xffffffff 1 0xa3df0000 [97, 4] (fun _ => 0)).1 = some 1 ∧
    (read stdinFileno 0xffffffff 1 0xa3df0000 [97, 4] (fun _ => 0)).2.stores = [0xffffffff] ∧
    ¬(Region.heap 0xa3df0000).Holds 0xffffffff ∧ ¬Region.free.Holds 0xffffffff ∧
    ¬ReadPermitted 0xffffffff 1 0xa3df0000 := by
  refine ⟨by decide, by decide, by decide, by decide, ?_⟩
  intro h
  have hperm := h [] (fun _ => 0) (by decide)
  exact absurd hperm.no_wrap (by decide)

end Lab4Kernel
