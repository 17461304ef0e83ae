import Lab4Kernel.Lib.Arm

/-!
# Interrupts

`kernel/arm/int_asm.S`. An interrupt is taken in user mode or in supervisor mode; the registers are
moved over to the supervisor stack, `irq_handler` is called, and the registers are restored. The
handler may switch to other tasks before it returns.

* `irqSave`, `irqRestore`, `irqWrapper`: the assembly before the call, behind it, and as a whole;
* `irqCall`: the state of the call, and `irqFrame`: what is on the supervisor stack there;
* `HandlerContract`: what the wrapper relies on in `irq_handler`, a C function;
* **`irq_transparent`**: the interrupted code gets back every register, its status word and its
  program counter.
-/

namespace Lab4Kernel

open Arm

namespace Interrupt

variable (irqStackLo globalData next vector : Arm.Word)

/-- `irq_wrapper`, up to the call. -/
def irqSave : List Instr :=
  [.add .lr .lr (-4),
    .const .sp (irqStackLo + 8),
    .push .sp [.r .r0, .r .r1],
    .mrs (.r .r0),
    .mov (.r .r1) .lr,
    .msrControl 0x93,
    .msrSpsr (.r .r0),
    .push .sp [.r .r1],
    .const (.r .r1) irqStackLo,
    .ldm (.r .r1) [.r .r0, .r .r1],
    .push .sp [.r .r0, .r .r1, .r .r2, .r .r3, .r .r8, .r .r12, .lr],
    .mrs (.r .r0),
    .stmUsr .sp [.r .r0, .sp, .lr],
    .add .sp .sp (-12),
    .const (.r .r12) globalData,
    .ldr (.r .r8) (.r .r12)]

/-- `irq_wrapper`, behind the call. -/
def irqRestore : List Instr :=
  [.ldmUsr .sp [.r .r0, .sp, .lr],
    .add .sp .sp 12,
    .msrSpsr (.r .r0),
    .popRet .sp [.r .r0, .r .r1, .r .r2, .r .r3, .r .r8, .r .r12, .lr]]

/-- `irq_wrapper`. -/
def irqWrapper (handler : State → State) : List Instr :=
  irqSave irqStackLo globalData ++ .call next handler :: irqRestore

/-- The state that `irq_handler` is called in. -/
def irqCall (s : State) : State :=
  (run (irqSave irqStackLo globalData) (irqEntry vector s)).set next .lr

/-- `irq_handler`, called in `s`, returns on the supervisor stack. It keeps the registers that a C
function keeps and the eleven words above its stack pointer; the rest of memory is its own. Nothing
is said about the registers of user mode, which other tasks may have used. -/
structure HandlerContract (handler : State → State) (s : State) : Prop where
  bank : (handler s).bank = .svc
  r : ∀ i ∈ calleeSaved, (handler s).r i = s.r i
  sp : (handler s).sp .svc = s.sp .svc
  frame : ∀ k : Fin 11, (handler s).mem (s.sp .svc + BitVec.ofNat 32 (4 * k.val)) =
    s.mem (s.sp .svc + BitVec.ofNat 32 (4 * k.val))

/-! ## Up to the call -/

/-- The words on the supervisor stack while the handler runs, from the top of the stack on. -/
def irqFrame (s : State) : List Arm.Word :=
  [s.cpsr, s.sp .usr, s.lr .usr, s.r .r0, s.r .r1, s.r .r2, s.r .r3, s.r .r8, s.r .r12, s.lr .svc,
    s.pc]

/-- In interrupt mode: `r0` and `r1` go to the interrupt stack, and take the status word and the
return address. -/
theorem run_irqSave_take {t : State} (ht : bankOf t.cpsr = .irq) :
    run ((irqSave irqStackLo globalData).take 5) t =
      { t with
        r := Function.update (Function.update t.r .r0 (t.spsr .irq)) .r1 (t.lr .irq - 4)
        sp := Function.update t.sp .irq irqStackLo
        lr := Function.update t.lr .irq (t.lr .irq - 4)
        mem := Function.update (Function.update t.mem irqStackLo (t.r .r0)) (irqStackLo + 4)
          (t.r .r1) } := by
  simp [run, irqSave, Instr.exec, State.get, State.set, bytes, storeAt, State.bank, ht,
    BitVec.add_assoc, BitVec.sub_eq_add_neg]

/-- In supervisor mode: the frame is built. The first word goes to the stack before the interrupt
stack is read, so it must not be stored over the interrupt stack. -/
theorem run_irqSave_drop {t : State} {x y : Arm.Word} (ht : bankOf t.cpsr = .svc)
    (hx : t.mem irqStackLo = x) (hy : t.mem (irqStackLo + 4) = y)
    (hlo : irqStackLo ≠ t.sp .svc - 4) (hhi : irqStackLo + 4 ≠ t.sp .svc - 4) :
    let u := run ((irqSave irqStackLo globalData).drop 6) t
    u.bank = .svc ∧ u.sp .svc = t.sp .svc - 44 ∧
      (∀ i ∈ calleeSaved, i ≠ .r8 → u.r i = t.r i) ∧
      Holds u.mem (t.sp .svc - 44)
        [t.r .r0, t.sp .usr, t.lr .usr, x, y, t.r .r2, t.r .r3, t.r .r8, t.r .r12, t.lr .svc,
          t.r .r1] := by
  simp only [BitVec.ofNat_eq_ofNat, BitVec.sub_eq_add_neg, BitVec.reduceNeg] at hlo hhi hy
  simp [run, irqSave, Instr.exec, State.get, State.set, bytes, loadAt, storeAt, State.bank, ht,
    State.getUsr, BitVec.add_assoc, BitVec.sub_eq_add_neg, Holds, Function.update_apply, hlo, hhi,
    hx, hy]
  -- only the registers are left
  intro i hi h8
  simp [ne_of_calleeSaved hi, h8]

theorem run_irqSave {s : State} (hlo : irqStackLo ≠ s.sp .svc - 4)
    (hhi : irqStackLo + 4 ≠ s.sp .svc - 4) :
    let t := run (irqSave irqStackLo globalData) (irqEntry vector s)
    t.bank = .svc ∧ t.sp .svc = s.sp .svc - 44 ∧
      (∀ i ∈ calleeSaved, i ≠ .r8 → t.r i = s.r i) ∧
      Holds t.mem (s.sp .svc - 44) (irqFrame s) := by
  intro t
  obtain ⟨t₁, ht₁⟩ :
      ∃ t₁, t₁ = run ((irqSave irqStackLo globalData).take 5) (irqEntry vector s) := ⟨_, rfl⟩
  obtain ⟨t₂, ht₂⟩ : ∃ t₂, t₂ = (Instr.msrControl 0x93).exec t₁ := ⟨_, rfl⟩
  have ht : t = run ((irqSave irqStackLo globalData).drop 6) t₂ := by
    rw [ht₂, ht₁]
    rfl
  rw [run_irqSave_take _ _ (bankOf_irqEntry vector s)] at ht₁
  have hmem : t₂.mem = Function.update (Function.update s.mem irqStackLo (s.r .r0))
      (irqStackLo + 4) (s.r .r1) := by
    rw [ht₂, ht₁]
    rfl
  have hsp : t₂.sp .svc = s.sp .svc := by simp [ht₂, ht₁, Instr.exec, irqEntry]
  have hspec := run_irqSave_drop irqStackLo globalData (t := t₂) (x := s.r .r0) (y := s.r .r1)
    (by rw [ht₂]; exact bankOf_svc _) (by simp [hmem]) (by simp [hmem]) (by rwa [hsp])
    (by rwa [hsp])
  rw [← ht, hsp] at hspec
  obtain ⟨hb, hs, hr, hf⟩ := hspec
  refine ⟨hb, hs, fun i hi h8 => ?_, ?_⟩
  · rw [hr i hi h8, ht₂, ht₁]
    simp [Instr.exec, irqEntry, ne_of_calleeSaved hi]
  · simpa [ht₂, ht₁, irqFrame, Instr.exec, irqEntry, BitVec.add_sub_cancel] using hf

theorem irqCall_spec {s : State} (hlo : irqStackLo ≠ s.sp .svc - 4)
    (hhi : irqStackLo + 4 ≠ s.sp .svc - 4) :
    let t := irqCall irqStackLo globalData next vector s
    t.bank = .svc ∧ t.sp .svc = s.sp .svc - 44 ∧
      (∀ i ∈ calleeSaved, i ≠ .r8 → t.r i = s.r i) ∧
      Holds t.mem (t.sp .svc) (irqFrame s) := by
  obtain ⟨t₀, ht₀⟩ : ∃ t₀, t₀ = run (irqSave irqStackLo globalData) (irqEntry vector s) :=
    ⟨_, rfl⟩
  obtain ⟨hb, hsp, hr, hf⟩ := run_irqSave irqStackLo globalData vector hlo hhi
  unfold irqCall
  rw [← ht₀] at hb hsp hr hf ⊢
  rw [← hsp] at hf
  exact ⟨hb, hsp, hr, hf⟩

/-! ## Behind the call -/

/-- The registers of `s` are restored from its frame. Restoring writes nothing to memory; the saved
status word of supervisor mode is lost. -/
theorem run_irqRestore {s t : State} (ht : bankOf t.cpsr = .svc)
    (hf : Holds t.mem (t.sp .svc) (irqFrame s))
    (hr : ∀ i ∈ calleeSaved, i ≠ .r8 → t.r i = s.r i) :
    run irqRestore t =
      { t with
        r := s.r
        sp := Function.update (Function.update t.sp .usr (s.sp .usr)) .svc (t.sp .svc + 44)
        lr := Function.update (Function.update t.lr .usr (s.lr .usr)) .svc (s.lr .svc)
        spsr := Function.update t.spsr .svc s.cpsr
        pc := s.pc
        cpsr := s.cpsr } := by
  simp [Holds, irqFrame, BitVec.add_assoc] at hf
  simp [run, irqRestore, Instr.exec, State.get, State.set, bytes, loadAt, loadUsrAt, State.setUsr,
    State.bank, ht, BitVec.add_assoc, hf]
  funext i
  cases i with
  | r0 | r1 | r2 | r3 | r8 | r12 => simp
  | r4 | r5 | r6 | r7 | r9 | r10 | r11 =>
    simp
    exact hr _ (by decide) (by decide)

/-! ## The whole -/

theorem HandlerContract.handled {handler : State → State} {s t : State}
    (hh : HandlerContract handler t) (hf : Holds t.mem (t.sp .svc) (irqFrame s))
    (hr : ∀ i ∈ calleeSaved, i ≠ .r8 → t.r i = s.r i) :
    let t' := handler t
    t'.bank = .svc ∧ t'.sp .svc = t.sp .svc ∧ Holds t'.mem (t'.sp .svc) (irqFrame s) ∧
      ∀ i ∈ calleeSaved, i ≠ .r8 → t'.r i = s.r i := by
  refine ⟨hh.bank, hh.sp, ?_, fun i hi h8 => ?_⟩
  · rw [hh.sp, holds_iff]
    intro k hk
    rw [hh.frame ⟨k, hk⟩]
    exact holds_iff.1 hf k hk
  · rw [hh.r i hi]
    exact hr i hi h8

/-- An interrupt, in user mode or in supervisor mode, is not seen by the code it interrupts: when
`irq_wrapper` is through, that code goes on at its next instruction, with its status word and every
register of user mode and of supervisor mode as they were. The wrapper relies on the word below the
supervisor stack not being the interrupt stack. -/
theorem irq_transparent {handler : State → State} {s : State}
    (hh : HandlerContract handler (irqCall irqStackLo globalData next vector s))
    (hlo : irqStackLo ≠ s.sp .svc - 4) (hhi : irqStackLo + 4 ≠ s.sp .svc - 4) :
    let u := run (irqWrapper irqStackLo globalData next handler) (irqEntry vector s)
    u.pc = s.pc ∧ u.cpsr = s.cpsr ∧ u.r = s.r ∧ u.sp .usr = s.sp .usr ∧ u.lr .usr = s.lr .usr ∧
      u.sp .svc = s.sp .svc ∧ u.lr .svc = s.lr .svc := by
  intro u
  obtain ⟨t, ht⟩ : ∃ t, t = irqCall irqStackLo globalData next vector s := ⟨_, rfl⟩
  obtain ⟨-, hsp, hr, hf⟩ := irqCall_spec irqStackLo globalData next vector hlo hhi
  rw [← ht] at hh hsp hr hf
  obtain ⟨hb', hsp', hf', hr'⟩ := hh.handled hf hr
  have hu : u = run irqRestore (handler t) := by
    rw [ht]
    exact run_append _ _ _
  rw [hu, run_irqRestore hb' hf' hr', hsp', hsp]
  refine ⟨rfl, rfl, rfl, ?_, ?_, ?_, ?_⟩
  · simp
  · simp
  · dsimp only
    rw [Function.update_self, BitVec.sub_add_cancel]
  · simp

/-- A handler that counts the interrupt in a variable. It saves its return address below its stack
pointer, and leaves other values in the scratch registers and in the registers of user mode. -/
def countHandler (counter : Arm.Word) (s : State) : State :=
  { s with
    r := Function.update (Function.update s.r .r0 counter) .r12 (s.mem counter + 1)
    sp := Function.update s.sp .usr 3
    lr := Function.update s.lr .usr 4
    mem := Function.update (Function.update s.mem (s.sp .svc - 4) (s.lr .svc)) counter
      (s.mem counter + 1) }

theorem countHandler_contract {counter : Arm.Word} {s : State} (hs : s.bank = .svc)
    (hout : ∀ k : Fin 11, s.sp .svc + BitVec.ofNat 32 (4 * k.val) ≠ counter) :
    HandlerContract (countHandler counter) s where
  bank := hs
  r i hi := by simp [countHandler, ne_of_calleeSaved hi]
  sp := by simp [countHandler]
  frame k := by
    have hne : s.sp .svc + BitVec.ofNat 32 (4 * k.val) ≠ s.sp .svc - 4 := by
      rw [BitVec.sub_eq_add_neg, Ne, BitVec.add_right_inj]
      revert k
      decide
    unfold countHandler
    dsimp only
    rw [Function.update_of_ne (hout k), Function.update_of_ne hne]

/-- User code is interrupted at 0xa0001000, with condition flags set. -/
theorem irq_transparent_user :
    let s : State :=
      { r := fun i => if i = .r8 then 0xa3edf000 else 100, sp := fun _ => 0xa2000000, lr := fun _ => 8
        spsr := fun _ => 0, pc := 0xa0001000, cpsr := 0x60000010, mem := fun _ => 0 }
    let u := run (irqWrapper 0xa0500000 0xa0500100 0xa0000400 (countHandler 0xa0500200))
      (irqEntry 0x18 s)
    u.pc = 0xa0001000 ∧ u.cpsr = 0x60000010 ∧ u.r = s.r ∧ u.sp .usr = 0xa2000000 ∧ u.lr .usr = 8 ∧
      u.sp .svc = 0xa2000000 ∧ u.lr .svc = 8 := by
  intro s
  obtain ⟨hb, hsp, -⟩ :=
    irqCall_spec (s := s) 0xa0500000 0xa0500100 0xa0000400 0x18 (by decide) (by decide)
  have hout : ∀ k : Fin 11, s.sp .svc - 44 + BitVec.ofNat 32 (4 * k.val) ≠ 0xa0500200 := by decide
  rw [← hsp] at hout
  exact irq_transparent 0xa0500000 0xa0500100 0xa0000400 0x18 (countHandler_contract hb hout)
    (by decide) (by decide)

end Interrupt

end Lab4Kernel
