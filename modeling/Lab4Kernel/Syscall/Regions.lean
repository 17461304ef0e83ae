import Lab4Kernel.Kernel.Io
import Lab4Kernel.Lib.Ranges

/-!
# The regions of the system calls, and the kernel's range check

* `validAddr_iff`: what `valid_addr` accepts, with the sum taken in the integers;
* `Permitted`: a range that lies in one of the regions, with `valid_addr` and the addresses touched;
* `permitted_of_among`: a loop that stays in a range that lies in a region.
-/

namespace Lab4Kernel

open Ranges

namespace Region

/-- `[heapbtm, sp)`. -/
def heap (sp : Word) : Region 32 := ⟨heapbtm, sp⟩

/-- `[freebtm, freetop]`. -/
def free : Region 32 := ⟨freebtm, freetop + 1⟩

/-- `[ROM_BEGIN, ROM_END]`. -/
def rom : Region 32 := ⟨romBegin, romEnd + 1⟩

/-- `[SDRAM_BEGIN, SDRAM_END]`. -/
def sdram : Region 32 := ⟨sdramBegin, sdramEnd + 1⟩

end Region

/-- **What `valid_addr` accepts**: the start lies in the segment, and the end, in the integers, does
not pass the bound. -/
theorem validAddr_iff (start count base bound : Word) :
    validAddr start count base bound = true ↔
      base ≤ start ∧ start < bound ∧ start.toNat + count.toNat ≤ bound.toNat := by
  unfold validAddr
  have hbound := bound.isLt
  simp only [BitVec.lt_def, BitVec.le_def, ge_iff_le, gt_iff_lt]
  rcases add_cases start count with ⟨hlt, hsum⟩ | ⟨hge, hsum⟩
  · rw [hsum]
    split_ifs <;> simp <;> omega
  · split_ifs <;> simp <;> omega

/-- The range from `buf` to `buf + count` lies in one of the regions, `valid_addr` accepts it for
that region, and every address touched is of that region. -/
def Permitted (regions : List (Region 32)) (buf count : Word) (touched : List Word) : Prop :=
  ∃ r ∈ regions, r.Encloses buf count ∧ validAddr buf count r.base r.bound = true ∧
    ∀ a ∈ touched, r.Holds a

section Permitted

variable {r : Region 32} {regions : List (Region 32)} {buf count : Word} {touched : List Word}

theorem validAddr_of_encloses (h : r.Encloses buf count) :
    validAddr buf count r.base r.bound = true := by
  rw [validAddr_iff, BitVec.le_def, BitVec.lt_def]
  obtain ⟨hbase, hend⟩ := h
  omega

theorem permitted_of_among (h : Among buf count touched) (hr : r ∈ regions)
    (henc : r.Encloses buf count) : Permitted regions buf count touched :=
  ⟨r, hr, henc, validAddr_of_encloses henc, h.holds henc⟩

theorem Permitted.no_wrap (h : Permitted regions buf count touched) :
    buf.toNat + count.toNat < 2 ^ 32 := by
  obtain ⟨r, -, henc, -⟩ := h
  exact henc.no_wrap

end Permitted

end Lab4Kernel
