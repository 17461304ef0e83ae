import Mathlib.Data.Fintype.Basic
import Mathlib.Order.Bounds.Basic
import Mathlib.Logic.Function.Basic

/-!
# The run queue

`kernel/sched/run_queue.c`: one slot per priority (`runList`), one bit per slot (`runBits`, eight
bytes) and one bit per byte (`groupRunBits`). A priority is an index of `runList`, so it is below
`osMaxTasks`; pointers to task control blocks are elements of an arbitrary type `T`, and `NULL` is
`none`.

* `RunQueue.Agree`: the two levels of bits say which slots are occupied;
* `agree_init`, `Agree.add`, `Agree.remove`: every operation keeps them in step;
* **`Agree.highestPrio_isLeast`**: on a queue that is not empty `highestPrio` is the least
  occupied priority, and **`Agree.highestPrio_empty`** says that it is `0` on the empty queue.
-/

namespace Lab4Kernel

/-- `OS_MAX_TASKS`. -/
abbrev osMaxTasks : ℕ := 64

/-- `SHIFT`. -/
abbrev shift : ℕ := 3

/-- `POSITION_MASK`. -/
abbrev positionMask : ℕ := 0x7

/-- A priority, as an index of `run_list`. -/
abbrev Prio : Type := Fin osMaxTasks

/-- `IDLE_PRIO`. -/
def idlePrio : Prio := 63

/-- `prio >> SHIFT`: the group of a priority. -/
def group (prio : Prio) : Fin (osMaxTasks / 8) :=
  ⟨prio.val >>> shift, by
    have h : prio.val < 64 := prio.isLt
    rw [Nat.shiftRight_eq_div_pow]
    exact Nat.div_lt_of_lt_mul h⟩

/-- `prio & POSITION_MASK`: the place of a priority in its group. -/
def position (prio : Prio) : Fin 8 :=
  ⟨prio.val &&& positionMask, Nat.lt_succ_of_le Nat.and_le_right⟩

theorem group_val (p : Prio) : (group p).val = p.val / 8 :=
  Nat.shiftRight_eq_div_pow p.val 3

theorem position_val (p : Prio) : (position p).val = p.val % 8 :=
  Nat.and_two_pow_sub_one_eq_mod p.val 3

/-- `(group_num << SHIFT) + group_pos`. -/
def prioOf (groupNum : Fin (osMaxTasks / 8)) (groupPos : Fin 8) : Prio :=
  ⟨(groupNum.val <<< shift) + groupPos.val, by
    have hg : groupNum.val < 8 := groupNum.isLt
    have hk := groupPos.isLt
    have hs : groupNum.val <<< shift = groupNum.val * 8 := Nat.shiftLeft_eq _ 3
    have : groupNum.val <<< shift + groupPos.val < 64 := by omega
    exact this⟩

theorem prioOf_val (g : Fin (osMaxTasks / 8)) (k : Fin 8) :
    (prioOf g k).val = g.val * 8 + k.val :=
  congrArg (· + k.val) (Nat.shiftLeft_eq g.val 3)

@[simp] theorem group_prioOf (g : Fin (osMaxTasks / 8)) (k : Fin 8) : group (prioOf g k) = g := by
  apply Fin.ext
  rw [group_val, prioOf_val]
  omega

@[simp] theorem position_prioOf (g : Fin (osMaxTasks / 8)) (k : Fin 8) :
    position (prioOf g k) = k := by
  apply Fin.ext
  rw [position_val, prioOf_val]
  omega

theorem prioOf_group_position (p : Prio) : prioOf (group p) (position p) = p := by
  apply Fin.ext
  rw [prioOf_val, group_val, position_val]
  omega

theorem prio_ext {p q : Prio} (hg : group p = group q) (hk : position p = position q) : p = q := by
  rw [← prioOf_group_position p, ← prioOf_group_position q, hg, hk]

/-- `prio_unmap_table`. -/
def prioUnmapTable : List (Fin 8) :=
  [0, 0, 1, 0, 2, 0, 1, 0, 3, 0, 1, 0, 2, 0, 1, 0] ++
  [4, 0, 1, 0, 2, 0, 1, 0, 3, 0, 1, 0, 2, 0, 1, 0] ++
  [5, 0, 1, 0, 2, 0, 1, 0, 3, 0, 1, 0, 2, 0, 1, 0] ++
  [4, 0, 1, 0, 2, 0, 1, 0, 3, 0, 1, 0, 2, 0, 1, 0] ++
  [6, 0, 1, 0, 2, 0, 1, 0, 3, 0, 1, 0, 2, 0, 1, 0] ++
  [4, 0, 1, 0, 2, 0, 1, 0, 3, 0, 1, 0, 2, 0, 1, 0] ++
  [5, 0, 1, 0, 2, 0, 1, 0, 3, 0, 1, 0, 2, 0, 1, 0] ++
  [4, 0, 1, 0, 2, 0, 1, 0, 3, 0, 1, 0, 2, 0, 1, 0] ++
  [7, 0, 1, 0, 2, 0, 1, 0, 3, 0, 1, 0, 2, 0, 1, 0] ++
  [4, 0, 1, 0, 2, 0, 1, 0, 3, 0, 1, 0, 2, 0, 1, 0] ++
  [5, 0, 1, 0, 2, 0, 1, 0, 3, 0, 1, 0, 2, 0, 1, 0] ++
  [4, 0, 1, 0, 2, 0, 1, 0, 3, 0, 1, 0, 2, 0, 1, 0] ++
  [6, 0, 1, 0, 2, 0, 1, 0, 3, 0, 1, 0, 2, 0, 1, 0] ++
  [4, 0, 1, 0, 2, 0, 1, 0, 3, 0, 1, 0, 2, 0, 1, 0] ++
  [5, 0, 1, 0, 2, 0, 1, 0, 3, 0, 1, 0, 2, 0, 1, 0] ++
  [4, 0, 1, 0, 2, 0, 1, 0, 3, 0, 1, 0, 2, 0, 1, 0]

/-- `prio_unmap_table[b]`; the table has an entry for every byte, so the default is never read. -/
def unmap (b : BitVec 8) : Fin 8 := prioUnmapTable.getD b.toNat 0

theorem unmap_ofFin : ∀ n : Fin (2 ^ 8), n ≠ 0 →
    (BitVec.ofFin n).getLsbD (unmap (.ofFin n)) = true ∧
      ∀ j < unmap (.ofFin n), (BitVec.ofFin n).getLsbD j = false := by
  decide +kernel

/-- **The table finds the lowest set bit of a byte.** -/
theorem unmap_lowest {b : BitVec 8} (hb : b ≠ 0) :
    b.getLsbD (unmap b) = true ∧ ∀ j < unmap b, b.getLsbD j = false :=
  unmap_ofFin b.toFin fun h => hb (BitVec.eq_of_toFin_eq h)

@[simp] theorem unmap_zero : unmap 0 = 0 := by decide

/-! ## The data structure and its operations -/

/-- `run_list`, `run_bits` and `group_run_bits`. -/
structure RunQueue (T : Type*) where
  runList : Prio → Option T
  runBits : Fin (osMaxTasks / 8) → BitVec 8
  groupRunBits : BitVec 8

namespace RunQueue

variable {T : Type*}

/-- `runqueue_init`. The two loops clear every entry of both arrays. -/
def runqueueInit : RunQueue T where
  runList _ := none
  runBits _ := 0
  groupRunBits := 0

/-- `runqueue_add`. -/
def runqueueAdd (rq : RunQueue T) (tcb : T) (prio : Prio) : RunQueue T where
  runList := Function.update rq.runList prio (some tcb)
  groupRunBits := rq.groupRunBits ||| (1#8 <<< (group prio).val)
  runBits := Function.update rq.runBits (group prio)
    (rq.runBits (group prio) ||| (1#8 <<< (position prio).val))

/-- `runqueue_remove`, with the pointer it returns. -/
def runqueueRemove (rq : RunQueue T) (prio : Prio) : Option T × RunQueue T :=
  let removedTcb := rq.runList prio
  let runBits := Function.update rq.runBits (group prio)
    (rq.runBits (group prio) &&& ~~~(1#8 <<< (position prio).val))
  (removedTcb,
    { runList := Function.update rq.runList prio none
      runBits := runBits
      groupRunBits :=
        if runBits (group prio) = 0 then rq.groupRunBits &&& ~~~(1#8 <<< (group prio).val)
        else rq.groupRunBits })

/-- `highest_prio`. The source reads `prio_umap_table`, declared as `prio_unmap_table`. -/
def highestPrio (rq : RunQueue T) : Prio :=
  let groupNum := unmap rq.groupRunBits
  let groupPos := unmap (rq.runBits groupNum)
  prioOf groupNum groupPos

variable {rq : RunQueue T} {t : T} {p q : Prio}

@[simp] theorem runList_init : (runqueueInit : RunQueue T).runList p = none := rfl

theorem runList_add :
    (rq.runqueueAdd t p).runList q = if q = p then some t else rq.runList q :=
  Function.update_apply _ _ _ _

@[simp] theorem remove_fst : (rq.runqueueRemove p).1 = rq.runList p := rfl

theorem runList_remove :
    (rq.runqueueRemove p).2.runList q = if q = p then none else rq.runList q :=
  Function.update_apply _ _ _ _

/-! ## The bits agree with the slots -/

/-- The bit of each slot and the bit of each group say which slots are occupied. -/
structure Agree (rq : RunQueue T) : Prop where
  bit : ∀ p, (rq.runBits (group p)).getLsbD (position p) = true ↔ rq.runList p ≠ none
  groupBit : ∀ g, rq.groupRunBits.getLsbD g.val = true ↔ rq.runBits g ≠ 0

theorem getLsbD_one_shiftLeft (k j : Fin 8) : (1#8 <<< k.val).getLsbD j = decide (j = k) := by
  revert k j
  decide

theorem getLsbD_setBit (b : BitVec 8) (k j : Fin 8) :
    (b ||| (1#8 <<< k.val)).getLsbD j = true ↔ b.getLsbD j = true ∨ j = k := by
  rw [BitVec.getLsbD_or, getLsbD_one_shiftLeft, Bool.or_eq_true, decide_eq_true_iff]

theorem getLsbD_clearBit (b : BitVec 8) (k j : Fin 8) :
    (b &&& ~~~(1#8 <<< k.val)).getLsbD j = true ↔ b.getLsbD j = true ∧ j ≠ k := by
  rw [BitVec.getLsbD_and, BitVec.getLsbD_not, getLsbD_one_shiftLeft]
  simp [j.isLt]

theorem ne_zero_iff_exists_bit {b : BitVec 8} : b ≠ 0 ↔ ∃ j : Fin 8, b.getLsbD j = true := by
  constructor
  · exact fun h => ⟨unmap b, (unmap_lowest h).1⟩
  · rintro ⟨j, hj⟩ rfl
    simp at hj

theorem agree_init : (runqueueInit : RunQueue T).Agree where
  bit p := by simp [runqueueInit]
  groupBit g := by simp [runqueueInit]

theorem Agree.add (h : rq.Agree) : (rq.runqueueAdd t p).Agree where
  bit q := by
    rw [runList_add]
    simp only [runqueueAdd]
    by_cases hg : group q = group p
    · rw [hg, Function.update_self, getLsbD_setBit, ← hg, h.bit q]
      by_cases hq : q = p
      · simp [hq]
      · have hk : position q ≠ position p := fun e => hq (prio_ext hg e)
        simp [hq, hk]
    · have hq : q ≠ p := fun e => hg (by rw [e])
      rw [Function.update_of_ne hg, h.bit q, if_neg hq]
  groupBit g := by
    simp only [runqueueAdd]
    rw [getLsbD_setBit _ (group p) g, h.groupBit g]
    by_cases hg : g = group p
    · subst hg
      rw [Function.update_self]
      exact iff_of_true (.inr rfl)
        (ne_zero_iff_exists_bit.mpr ⟨position p, (getLsbD_setBit _ _ _).mpr (.inr rfl)⟩)
    · rw [Function.update_of_ne hg]
      simp [hg]

theorem Agree.remove (h : rq.Agree) : (rq.runqueueRemove p).2.Agree where
  bit q := by
    rw [runList_remove]
    simp only [runqueueRemove]
    by_cases hg : group q = group p
    · rw [hg, Function.update_self, getLsbD_clearBit, ← hg, h.bit q]
      by_cases hq : q = p
      · simp [hq]
      · have hk : position q ≠ position p := fun e => hq (prio_ext hg e)
        simp [hq, hk]
    · have hq : q ≠ p := fun e => hg (by rw [e])
      rw [Function.update_of_ne hg, h.bit q, if_neg hq]
  groupBit g := by
    simp only [runqueueRemove, Function.update_self]
    by_cases hg : g = group p
    · subst hg
      rw [Function.update_self]
      split_ifs with h0
      · rw [getLsbD_clearBit _ (group p) (group p)]
        exact iff_of_false (fun e => e.2 rfl) (fun e => e h0)
      · -- a bit that is left was set before, so the byte was not zero either
        have hne : rq.runBits (group p) ≠ 0 := fun e => h0 (by rw [e]; simp)
        exact iff_of_true ((h.groupBit _).mpr hne) h0
    · rw [Function.update_of_ne hg]
      split_ifs with h0
      · rw [getLsbD_clearBit _ (group p) g, h.groupBit g]
        exact and_iff_left hg
      · exact h.groupBit g

/-! ## The least occupied priority -/

theorem Agree.runBits_ne_zero (h : rq.Agree) (hp : rq.runList p ≠ none) :
    rq.runBits (group p) ≠ 0 :=
  ne_zero_iff_exists_bit.mpr ⟨position p, (h.bit p).mpr hp⟩

theorem Agree.groupRunBits_ne_zero (h : rq.Agree) (hp : rq.runList p ≠ none) :
    rq.groupRunBits ≠ 0 :=
  ne_zero_iff_exists_bit.mpr ⟨group p, (h.groupBit _).mpr (h.runBits_ne_zero hp)⟩

theorem Agree.highestPrio_le (h : rq.Agree) (hq : rq.runList q ≠ none) : rq.highestPrio ≤ q := by
  have hgmin := (unmap_lowest (h.groupRunBits_ne_zero hq)).2
  have hgle : unmap rq.groupRunBits ≤ group q := by
    by_contra hlt
    have hfalse := hgmin (group q) (not_le.mp hlt)
    rw [(h.groupBit _).mpr (h.runBits_ne_zero hq)] at hfalse
    exact Bool.noConfusion hfalse
  have h2 := group_val q
  have h3 := position_val q
  apply Fin.le_def.mpr
  simp only [highestPrio, prioOf_val]
  -- a smaller priority would have a lower group bit, or a lower bit in the same group
  rcases lt_or_eq_of_le hgle with hlt | heq
  · have h1 := Fin.lt_def.mp hlt
    omega
  · have hkmin := (unmap_lowest (heq ▸ h.runBits_ne_zero hq)).2
    have hkle : unmap (rq.runBits (unmap rq.groupRunBits)) ≤ position q := by
      by_contra hlt
      have hfalse := hkmin (position q) (not_le.mp hlt)
      rw [heq, (h.bit q).mpr hq] at hfalse
      exact Bool.noConfusion hfalse
    have h1 := Fin.le_def.mp hkle
    rw [← heq] at h2
    omega

/-- **`highest_prio` returns the least occupied priority.** -/
theorem Agree.highestPrio_isLeast (h : rq.Agree) (hp : rq.runList p ≠ none) :
    IsLeast {q | rq.runList q ≠ none} rq.highestPrio := by
  refine ⟨?_, fun q hq => h.highestPrio_le hq⟩
  have hg := (unmap_lowest (h.groupRunBits_ne_zero hp)).1
  have hk := (unmap_lowest ((h.groupBit _).mp hg)).1
  have hbit := h.bit rq.highestPrio
  simp only [highestPrio, group_prioOf, position_prioOf] at hbit
  exact hbit.mp hk

/-- **On the empty queue `highest_prio` returns `0`**, not the priority of the idle task. -/
theorem Agree.highestPrio_empty (h : rq.Agree) (hempty : ∀ p, rq.runList p = none) :
    rq.highestPrio = 0 := by
  have hbits : ∀ g, rq.runBits g = 0 := by
    intro g
    by_contra hne
    obtain ⟨j, hj⟩ := ne_zero_iff_exists_bit.mp hne
    have hbit := h.bit (prioOf g j)
    rw [group_prioOf, position_prioOf] at hbit
    exact hbit.mp hj (hempty _)
  have hgroup : rq.groupRunBits = 0 := by
    by_contra hne
    obtain ⟨g, hg⟩ := ne_zero_iff_exists_bit.mp hne
    exact (h.groupBit g).mp hg (hbits g)
  simp only [highestPrio, hgroup, hbits, unmap_zero]
  rfl

/-- `runqueue_remove(highest_prio())` returns `NULL` only when no slot is occupied. -/
theorem Agree.runList_highestPrio_eq_none (h : rq.Agree) :
    rq.runList rq.highestPrio = none ↔ ∀ p, rq.runList p = none := by
  constructor
  · intro hn p
    by_contra hp
    exact (h.highestPrio_isLeast hp).1 hn
  · exact fun hempty => hempty _

end RunQueue

end Lab4Kernel
