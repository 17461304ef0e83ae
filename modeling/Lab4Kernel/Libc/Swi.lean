import Lab4Kernel.Lib.Arm
import Mathlib.Tactic.SplitIfs

/-!
# The wrappers of the system calls

`tasks/libc/swi`. A negative result of the kernel becomes `-1`, with its absolute value in `errno`.

* `wrapper`, with `read` and `write`; `time` and `sleep` pass the result on, `time_sleep_eq`;
* `SvcContract`: what a wrapper relies on in the kernel;
* **`wrapper_errno`**: what the caller gets back.
-/

namespace Lab4Kernel

open Arm

namespace Swi

/-- `READ_SWI`. -/
def readSwi : ℕ := 0x900003

/-- `WRITE_SWI`. -/
def writeSwi : ℕ := 0x900004

/-- `TIME_SWI`. -/
def timeSwi : ℕ := 0x900006

/-- `SLEEP_SWI`. -/
def sleepSwi : ℕ := 0x900007

section Definitions

variable (errno : Arm.Word) (svc : ℕ → State → State)

/-- `mov pc, lr`. -/
def movPcLr (s : State) : State := { s with pc := s.get .lr }

/-- What a wrapper does when the result is negative. -/
def setErrno : List Instr :=
  [.const (.r .r1) errno,
    .neg (.r .r0) (.r .r0),
    .str (.r .r0) (.r .r1),
    .const (.r .r0) (-1)]

/-- The wrapper of a system call. `bpl` skips the handling of an error. -/
def wrapper (number : ℕ) (s : State) : State :=
  let s := (Instr.push .sp [.r .r1]).exec s
  let s := svc number s
  let s := if 0 ≤ (s.get (.r .r0)).toInt then s else run (setErrno errno) s
  let s := (Instr.pop .sp [.r .r1]).exec s
  movPcLr s

/-- `read`. -/
def read : State → State := wrapper errno svc readSwi

/-- `write`. -/
def write : State → State := wrapper errno svc writeSwi

/-- `time`. -/
def time (s : State) : State := movPcLr (svc timeSwi s)

/-- `sleep`. -/
def sleep (s : State) : State := movPcLr (svc sleepSwi s)

end Definitions

/-- The kernel, called in `s`, returns to user mode with the stack pointer, the link register and
the word on top of the stack as they were. The rest of memory is its own. -/
structure SvcContract (svc : State → State) (s : State) : Prop where
  bank : (svc s).bank = .usr
  sp : (svc s).sp .usr = s.sp .usr
  lr : (svc s).lr .usr = s.lr .usr
  top : (svc s).mem (s.sp .usr) = s.mem (s.sp .usr)

variable {errno : Arm.Word} {svc : ℕ → State → State} {number : ℕ} {s t : State}

theorem run_setErrno (errno : Arm.Word) (t : State) :
    run (setErrno errno) t =
      { t with
        r := Function.update (Function.update t.r .r1 errno) .r0 (-1)
        mem := Function.update t.mem errno (-t.r .r0) } := by
  simp [run, setErrno, Instr.exec, State.get, State.set]

theorem exec_push (hs : s.bank = .usr) :
    (Instr.push .sp [.r .r1]).exec s =
      { s with
        sp := Function.update s.sp .usr (s.sp .usr - 4)
        mem := Function.update s.mem (s.sp .usr - 4) (s.r .r1) } := by
  simp [Instr.exec, State.get, State.set, bytes, storeAt, hs]

theorem movPcLr_eq (ht : t.bank = .usr) : movPcLr t = { t with pc := t.lr .usr } := by
  unfold movPcLr State.get
  rw [ht]

theorem exec_pop (ht : t.bank = .usr) :
    movPcLr ((Instr.pop .sp [.r .r1]).exec t) =
      { t with
        r := Function.update t.r .r1 (t.mem (t.sp .usr))
        sp := Function.update t.sp .usr (t.sp .usr + 4)
        pc := t.lr .usr } := by
  unfold State.bank at ht
  simp [movPcLr, Instr.exec, State.get, State.set, State.bank, bytes, loadAt, ht]

/-- `time` and `sleep` go on behind the call with what the kernel left. -/
theorem time_sleep_eq (htime : SvcContract (svc timeSwi) s) (hsleep : SvcContract (svc sleepSwi) s) :
    time svc s = { svc timeSwi s with pc := s.lr .usr } ∧
      sleep svc s = { svc sleepSwi s with pc := s.lr .usr } := by
  unfold time sleep
  rw [movPcLr_eq htime.bank, movPcLr_eq hsleep.bank, htime.lr, hsleep.lr]
  exact ⟨rfl, rfl⟩

theorem SvcContract.called (hs : s.bank = .usr)
    (hsvc : SvcContract (svc number) ((Instr.push .sp [.r .r1]).exec s)) :
    let t := svc number ((Instr.push .sp [.r .r1]).exec s)
    t.bank = .usr ∧ t.sp .usr = s.sp .usr - 4 ∧ t.lr .usr = s.lr .usr ∧
      t.mem (s.sp .usr - 4) = s.r .r1 := by
  intro t
  obtain ⟨s₁, hs₁⟩ : ∃ s₁, s₁ = (Instr.push .sp [.r .r1]).exec s := ⟨_, rfl⟩
  have ht : t = svc number s₁ := by rw [hs₁]
  rw [← hs₁] at hsvc
  rw [exec_push hs] at hs₁
  have hsp : s₁.sp .usr = s.sp .usr - 4 := by
    rw [hs₁]
    exact Function.update_self Bank.usr _ s.sp
  have htop : s₁.mem (s.sp .usr - 4) = s.r .r1 := by
    rw [hs₁]
    exact Function.update_self (s.sp .usr - 4) _ s.mem
  have hkept := hsvc.top
  rw [hsp, htop] at hkept
  rw [ht]
  refine ⟨hsvc.bank, hsvc.sp.trans hsp, hsvc.lr.trans ?_, hkept⟩
  rw [hs₁]

/-- **What the caller of a wrapper gets back.** A result that is not negative is passed on, and
another one becomes `-1`, with its absolute value in `errno`. `r1`, the stack pointer and the link
register are those of the caller, and the other registers and memory those that the kernel left. -/
theorem wrapper_errno (hs : s.bank = .usr)
    (hsvc : SvcContract (svc number) ((Instr.push .sp [.r .r1]).exec s))
    (herrno : errno ≠ s.sp .usr - 4) :
    let t := svc number ((Instr.push .sp [.r .r1]).exec s)
    let u := wrapper errno svc number s
    u.pc = s.lr .usr ∧ u.sp .usr = s.sp .usr ∧ u.lr .usr = s.lr .usr ∧
      u.r = Function.update (Function.update t.r .r0 (if 0 ≤ (t.r .r0).toInt then t.r .r0 else -1))
        .r1 (s.r .r1) ∧
      u.mem = if 0 ≤ (t.r .r0).toInt then t.mem else Function.update t.mem errno (-t.r .r0) := by
  intro t u
  obtain ⟨hbank, hsp, hlr, htop⟩ := SvcContract.called hs hsvc
  have hu : u = movPcLr ((Instr.pop .sp [.r .r1]).exec
      (if 0 ≤ (t.r .r0).toInt then t else run (setErrno errno) t)) := rfl
  rw [hu]
  split_ifs with hneg
  · rw [exec_pop hbank, hsp, htop]
    refine ⟨hlr, ?_, hlr, ?_, rfl⟩
    · dsimp only
      rw [Function.update_self, BitVec.sub_add_cancel]
    · rw [Function.update_eq_self]
  · have herr : (run (setErrno errno) t).bank = .usr := by
      rw [run_setErrno]
      exact hbank
    rw [exec_pop herr, run_setErrno]
    dsimp only
    refine ⟨hlr, ?_, hlr, ?_, rfl⟩
    · rw [Function.update_self, hsp, BitVec.sub_add_cancel]
    · have h01 : Gpr.r0 ≠ .r1 := by decide
      rw [hsp, Function.update_of_ne herrno.symm, htop, Function.update_comm h01.symm,
        Function.update_idem]

/-- The kernel when `write` is given another file than 1: the call is saved on the supervisor stack,
and the result is `-EBADF`. -/
def badFile (_ : ℕ) (s : State) : State :=
  { s with
    r := Function.update (Function.update s.r .r0 (-9)) .r12 0
    lr := Function.update s.lr .svc (s.pc + 4)
    spsr := Function.update s.spsr .svc s.cpsr
    mem := Function.update s.mem (s.sp .svc - 4) (s.pc + 4) }

theorem badFile_contract {s : State} (number : ℕ) (hs : s.bank = .usr)
    (hstack : s.sp .usr ≠ s.sp .svc - 4) : SvcContract (badFile number) s where
  bank := hs
  sp := rfl
  lr := by simp [badFile]
  top := Function.update_of_ne hstack _ _

/-- `write(5, ..)`: the result is `-1`, and `errno` is 9. -/
theorem wrapper_errno_badFile :
    let s : State :=
      { r := fun _ => 5, sp := fun b => if b = .usr then 0xa2000000 else 0xa0400000
        lr := fun _ => 0xa0001000, spsr := fun _ => 0, pc := 0xa0000800, cpsr := 0x10
        mem := fun _ => 0 }
    let t := badFile writeSwi ((Instr.push .sp [.r .r1]).exec s)
    let u := write 0xa0300000 badFile s
    u.pc = 0xa0001000 ∧ u.sp .usr = 0xa2000000 ∧ u.lr .usr = 0xa0001000 ∧
      u.r = Function.update (Function.update t.r .r0 (if 0 ≤ (t.r .r0).toInt then t.r .r0 else -1))
        .r1 5 ∧
      u.mem = if 0 ≤ (t.r .r0).toInt then t.mem else Function.update t.mem 0xa0300000 (-t.r .r0) :=
  wrapper_errno (by decide) (badFile_contract writeSwi (by decide) (by decide)) (by decide)

end Swi

end Lab4Kernel
