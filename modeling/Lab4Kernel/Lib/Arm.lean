import Mathlib.Algebra.Group.Nat.Defs
import Mathlib.Logic.Function.Basic

/-!
# A part of the ARM instruction set

Register banks, program status words and the multiple loads and stores, as far as exception
handlers use them. Memory holds a word at each aligned address.

* `Bank`, `Gpr`, `Reg`, `State`, with `State.get` and `State.set` for the bank of the current mode;
* `Instr`, `Instr.exec`, `run`: the instructions;
* `irqEntry`: what the processor does on an interrupt;
* `bankOf_svc`, `bankOf_irqEntry`: the modes that `msr cpsr_c` and an interrupt switch to;
* `Holds`, `holds_iff`: words in memory one behind the other;
* `run_append`: a sequence runs part by part.
-/

namespace Arm

abbrev Word : Type := BitVec 32

/-! ## States -/

/-- The banks of `sp`, `lr` and `spsr`. -/
inductive Bank where
  | usr
  | irq
  | svc
  deriving DecidableEq

/-- The registers that are not banked. -/
inductive Gpr where
  | r0
  | r1
  | r2
  | r3
  | r4
  | r5
  | r6
  | r7
  | r8
  | r9
  | r10
  | r11
  | r12
  deriving DecidableEq

/-- The registers that a function gives back to its caller. -/
def calleeSaved : List Gpr := [.r4, .r5, .r6, .r7, .r8, .r9, .r10, .r11]

theorem ne_of_calleeSaved {i : Gpr} (h : i ∈ calleeSaved) :
    i ≠ .r0 ∧ i ≠ .r1 ∧ i ≠ .r2 ∧ i ≠ .r3 ∧ i ≠ .r12 := by
  refine ⟨?_, ?_, ?_, ?_, ?_⟩ <;> rintro rfl <;> exact absurd h (by decide)

/-- Registers other than the program counter. -/
inductive Reg where
  | r (i : Gpr)
  | sp
  | lr
  deriving DecidableEq

/-- Registers and memory. User mode has no `spsr`; its entry is not used. -/
structure State where
  r : Gpr → Word
  sp : Bank → Word
  lr : Bank → Word
  spsr : Bank → Word
  pc : Word
  cpsr : Word
  mem : Word → Word

/-- The bank that the mode bits of a status word select. -/
def bankOf (psr : Word) : Bank :=
  if psr &&& 0x1f = 0x12 then .irq else if psr &&& 0x1f = 0x13 then .svc else .usr

/-- `msr cpsr_c, #0x93` switches to supervisor mode. -/
theorem bankOf_svc (psr : Word) : bankOf ((psr &&& 0xffffff00) ||| 0x93) = .svc := by
  have h : ((psr &&& 0xffffff00#32) ||| 0x93#32) &&& 0x1f#32 = 0x13#32 := by
    rw [BitVec.and_or_distrib_right, BitVec.and_assoc]
    simp
  simp [bankOf, h]

namespace State

/-- The current bank. -/
def bank (s : State) : Bank := bankOf s.cpsr

/-- A register of the current mode. -/
def get (s : State) : Reg → Word
  | .r i => s.r i
  | .sp => s.sp s.bank
  | .lr => s.lr s.bank

/-- A register of the current mode is written. -/
def set (s : State) (v : Word) : Reg → State
  | .r i => { s with r := Function.update s.r i v }
  | .sp => { s with sp := Function.update s.sp s.bank v }
  | .lr => { s with lr := Function.update s.lr s.bank v }

/-- A register of user mode. -/
def getUsr (s : State) : Reg → Word
  | .r i => s.r i
  | .sp => s.sp .usr
  | .lr => s.lr .usr

/-- A register of user mode is written. -/
def setUsr (s : State) (v : Word) : Reg → State
  | .r i => { s with r := Function.update s.r i v }
  | .sp => { s with sp := Function.update s.sp .usr v }
  | .lr => { s with lr := Function.update s.lr .usr v }

end State

/-! ## Instructions -/

/-- Words stored at an address and behind it. -/
def storeAt (mem : Word → Word) (a : Word) : List Word → Word → Word
  | [] => mem
  | w :: ws => storeAt (Function.update mem a w) (a + 4) ws

/-- The size of a list of registers in memory. -/
def bytes (l : List Reg) : Word := BitVec.ofNat 32 (4 * l.length)

/-- The words are in memory at an address and behind it. -/
def Holds (mem : Word → Word) : Word → List Word → Prop
  | _, [] => True
  | a, w :: ws => mem a = w ∧ Holds mem (a + 4) ws

theorem holds_iff {mem : Word → Word} {a : Word} {ws : List Word} : Holds mem a ws ↔
    ∀ (k : ℕ) (hk : k < ws.length), mem (a + BitVec.ofNat 32 (4 * k)) = ws[k] := by
  induction ws generalizing a with
  | nil => simp [Holds]
  | cons w ws ih =>
    have hstep : ∀ k, a + BitVec.ofNat 32 (4 * (k + 1)) = a + 4 + BitVec.ofNat 32 (4 * k) := by
      intro k
      rw [Nat.mul_add, BitVec.ofNat_add, BitVec.add_comm (BitVec.ofNat 32 (4 * k)),
        BitVec.add_assoc]
      rfl
    simp only [Holds, ih]
    constructor
    · rintro ⟨h, hs⟩ k hk
      cases k with
      | zero => simpa using h
      | succ k =>
        rw [hstep]
        exact hs k (by simpa using hk)
    · intro h
      constructor
      · have h0 : mem (a + BitVec.ofNat 32 (4 * 0)) = w := h 0 (Nat.zero_lt_succ _)
        simpa only [Nat.mul_zero, BitVec.ofNat_eq_ofNat, BitVec.add_zero] using h0
      · intro k hk
        rw [← hstep]
        exact h (k + 1) (Nat.succ_lt_succ hk)

/-- Registers loaded from an address and behind it. -/
def loadAt (a : Word) : List Reg → State → State
  | [], s => s
  | g :: l, s => loadAt (a + 4) l (s.set (s.mem a) g)

/-- Registers of user mode loaded from an address and behind it. -/
def loadUsrAt (a : Word) : List Reg → State → State
  | [], s => s
  | g :: l, s => loadUsrAt (a + 4) l (s.setUsr (s.mem a) g)

/-- Instructions. The lists of registers are in ascending order. -/
inductive Instr where
  /-- `add d, n, #k` -/
  | add (d n : Reg) (k : Word)
  /-- `mov d, n` -/
  | mov (d n : Reg)
  /-- `mov d, #k` and `ldr d, =k` -/
  | const (d : Reg) (k : Word)
  /-- `rsb d, n, #0` -/
  | neg (d n : Reg)
  /-- `ldr d, [n]` -/
  | ldr (d n : Reg)
  /-- `str d, [n]` -/
  | str (d n : Reg)
  /-- `stmfd n!, {l}` -/
  | push (n : Reg) (l : List Reg)
  /-- `ldmfd n!, {l}` -/
  | pop (n : Reg) (l : List Reg)
  /-- `ldm n, {l}` -/
  | ldm (n : Reg) (l : List Reg)
  /-- `stmfd n, {l}^` -/
  | stmUsr (n : Reg) (l : List Reg)
  /-- `ldmfd n, {l}^` -/
  | ldmUsr (n : Reg) (l : List Reg)
  /-- `ldmfd n!, {l, pc}^` -/
  | popRet (n : Reg) (l : List Reg)
  /-- `mrs d, spsr` -/
  | mrs (d : Reg)
  /-- `msr spsr, n` -/
  | msrSpsr (n : Reg)
  /-- `msr cpsr_c, #k` -/
  | msrControl (k : Word)
  /-- `bl f` or `swi`, up to the return to `next` -/
  | call (next : Word) (f : State → State)

namespace Instr

/-- What an instruction does, the program counter apart. -/
def exec : Instr → State → State
  | add d n k, s => s.set (s.get n + k) d
  | mov d n, s => s.set (s.get n) d
  | const d k, s => s.set k d
  | neg d n, s => s.set (-s.get n) d
  | ldr d n, s => s.set (s.mem (s.get n)) d
  | str d n, s => { s with mem := Function.update s.mem (s.get n) (s.get d) }
  | push n l, s =>
    let a := s.get n - bytes l
    { s.set a n with mem := storeAt s.mem a (l.map s.get) }
  | pop n l, s =>
    let a := s.get n
    loadAt a l (s.set (a + bytes l) n)
  | ldm n l, s => loadAt (s.get n) l s
  | stmUsr n l, s => { s with mem := storeAt s.mem (s.get n - bytes l) (l.map s.getUsr) }
  | ldmUsr n l, s => loadUsrAt (s.get n) l s
  | popRet n l, s =>
    let a := s.get n
    let s := loadAt a l (s.set (a + bytes l + 4) n)
    { s with pc := s.mem (a + bytes l), cpsr := s.spsr s.bank }
  | mrs d, s => s.set (s.spsr s.bank) d
  | msrSpsr n, s => { s with spsr := Function.update s.spsr s.bank (s.get n) }
  | msrControl k, s => { s with cpsr := (s.cpsr &&& 0xffffff00) ||| k }
  | call next f, s => f (s.set next .lr)

end Instr

/-- A sequence of instructions. -/
def run (l : List Instr) (s : State) : State := l.foldl (fun s i => i.exec s) s

theorem run_append (l l' : List Instr) (s : State) : run (l ++ l') s = run l' (run l s) :=
  List.foldl_append

/-- An interrupt is taken: the return address is four bytes too far, interrupts are masked, and the
instruction set is ARM. -/
def irqEntry (vector : Word) (s : State) : State :=
  { s with
    lr := Function.update s.lr .irq (s.pc + 4)
    spsr := Function.update s.spsr .irq s.cpsr
    cpsr := (s.cpsr &&& 0xffffffc0) ||| 0x92
    pc := vector }

theorem bankOf_irqEntry (vector : Word) (s : State) :
    bankOf (irqEntry vector s).cpsr = .irq := by
  have h : ((s.cpsr &&& 0xffffffc0#32) ||| 0x92#32) &&& 0x1f#32 = 0x12#32 := by
    rw [BitVec.and_or_distrib_right, BitVec.and_assoc]
    simp
  simp [irqEntry, bankOf, h]

end Arm
