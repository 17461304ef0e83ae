import Mathlib.Algebra.Group.Nat.Defs
import Mathlib.Data.List.GetD
import Mathlib.Data.List.Induction
import Mathlib.Logic.Function.Basic
import Mathlib.Order.Nat

/-!
# Strings that end with a zero

Strings in a memory whose addresses are words of `w` bits and wrap around.

* `off`: the address some cells further on;
* `put`, with `put_concat`, `put_append`: cells stored one after the other;
* `IsString`: the string at an address. It stays when its cells do, `IsString.congr`.
-/

namespace CString

variable {w : ℕ} {V : Type*}

/-! ## Addresses -/

/-- `p + i`. -/
def off (p : BitVec w) (i : ℕ) : BitVec w := p + BitVec.ofNat w i

theorem off_zero (p : BitVec w) : off p 0 = p := by
  unfold off
  exact BitVec.add_zero p

theorem off_off (p : BitVec w) (i j : ℕ) : off (off p i) j = off p (i + j) := by
  unfold off
  rw [BitVec.add_assoc, BitVec.ofNat_add]

theorem off_succ (p : BitVec w) (i : ℕ) : off (p + 1) i = off p (i + 1) := by
  rw [Nat.add_comm i 1, ← off_off]
  rfl

theorem off_sub (p : BitVec w) {i : ℕ} (hi : i < 2 ^ w) : (off p i - p).toNat = i := by
  unfold off
  rw [BitVec.add_comm, BitVec.add_sub_cancel, BitVec.toNat_ofNat, Nat.mod_eq_of_lt hi]

theorem off_inj {p : BitVec w} {i j : ℕ} (hi : i < 2 ^ w) (hj : j < 2 ^ w)
    (h : off p i = off p j) : i = j := by
  rw [← off_sub p hi, ← off_sub p hj, h]

theorem off_toNat_sub (p a : BitVec w) : off p (a - p).toNat = a := by
  unfold off
  rw [BitVec.ofNat_toNat, BitVec.setWidth_eq, BitVec.add_comm, BitVec.sub_add_cancel]

/-! ## Stores -/

/-- Memory with the cells `l` at `p`. -/
def put (mem : BitVec w → V) (p : BitVec w) (l : List V) : BitVec w → V :=
  fun a => l.getD (a - p).toNat (mem a)

variable {mem : BitVec w → V} {p q : BitVec w} {l l' : List V} {v : V}

theorem put_nil (mem : BitVec w → V) (p : BitVec w) : put mem p [] = mem := rfl

theorem put_off {i : ℕ} (hi : i < 2 ^ w) : put mem p l (off p i) = l.getD i (mem (off p i)) := by
  unfold put
  rw [off_sub p hi]

theorem put_of_le {a : BitVec w} (h : l.length ≤ (a - p).toNat) : put mem p l a = mem a :=
  List.getD_eq_default _ _ h

theorem put_other {a : BitVec w} (h : ∀ i, i < l.length → a ≠ off p i) :
    put mem p l a = mem a := by
  apply put_of_le
  by_contra hlt
  exact h _ (not_le.mp hlt) (off_toNat_sub p a).symm

theorem put_concat (h : l.length < 2 ^ w) :
    Function.update (put mem p l) (off p l.length) v = put mem p (l ++ [v]) := by
  funext a
  by_cases ha : a = off p l.length
  · rw [ha, Function.update_self, put_off h, List.getD_append_right _ _ _ _ le_rfl, Nat.sub_self]
    rfl
  · rw [Function.update_of_ne ha]
    have hne : (a - p).toNat ≠ l.length := fun he => ha (by rw [← he, off_toNat_sub])
    unfold put
    rcases Nat.lt_or_ge (a - p).toNat l.length with hlt | hge
    · rw [List.getD_append _ _ _ _ hlt]
    · have hge' : (l ++ [v]).length ≤ (a - p).toNat := by
        rw [List.length_append, List.length_singleton]
        exact Nat.lt_of_le_of_ne hge hne.symm
      rw [List.getD_eq_default _ _ hge, List.getD_eq_default _ _ hge']

theorem put_append (h : (l ++ l').length ≤ 2 ^ w) :
    put (put mem p l) (off p l.length) l' = put mem p (l ++ l') := by
  induction l' using List.reverseRecOn with
  | nil => rw [put_nil, List.append_nil]
  | append_singleton l' v ih =>
    rw [← List.append_assoc, List.length_append, List.length_singleton] at h
    have hlen : (l ++ l').length < 2 ^ w := h
    have hlen' : l'.length < 2 ^ w := lt_of_le_of_lt (by rw [List.length_append]; omega) hlen
    rw [← put_concat hlen', ih hlen.le, off_off, ← List.length_append, put_concat hlen,
      List.append_assoc]

theorem put_singleton (mem : BitVec w → V) (p : BitVec w) (v : V) :
    put mem p [v] = Function.update mem p v := by
  rw [← List.nil_append [v], ← put_concat (Nat.two_pow_pos w), List.length_nil, off_zero, put_nil]

theorem put_cons (h : l.length < 2 ^ w) :
    put (Function.update mem p v) (p + 1) l = put mem p (v :: l) := by
  have happ : put (put mem p [v]) (off p [v].length) l = put mem p ([v] ++ l) := by
    apply put_append
    rw [List.length_append, List.length_singleton, Nat.add_comm]
    exact h
  rw [← put_singleton]
  exact happ

theorem put_same (h : ∀ (i : ℕ) (hi : i < l.length), mem (off p i) = l[i]) :
    put mem p l = mem := by
  funext a
  rcases Nat.lt_or_ge (a - p).toNat l.length with hlt | hge
  · have hcell := h _ hlt
    rw [off_toNat_sub] at hcell
    unfold put
    rw [List.getD_eq_getElem _ _ hlt, hcell]
  · exact put_of_le hge

/-- None of `m` cells at `p` is one of `n` cells at `q`. -/
def Apart (p : BitVec w) (m : ℕ) (q : BitVec w) (n : ℕ) : Prop :=
  ∀ i < m, ∀ j < n, off p i ≠ off q j

theorem Apart.tail {m n : ℕ} (h : Apart p (m + 1) q (n + 1)) : Apart (p + 1) m (q + 1) n := by
  intro i hi j hj
  rw [off_succ, off_succ]
  exact h _ (Nat.succ_lt_succ hi) _ (Nat.succ_lt_succ hj)

/-! ## Strings -/

variable [Zero V]

/-- The string at `p`: cells that are not zero, and a zero behind them. -/
structure IsString (mem : BitVec w → V) (p : BitVec w) (l : List V) : Prop where
  ne_zero : ∀ c ∈ l, c ≠ 0
  cells : ∀ i, i ≤ l.length → mem (off p i) = l.getD i 0

namespace IsString

theorem end_zero (h : IsString mem p l) : mem (off p l.length) = 0 := by
  rw [h.cells _ le_rfl]
  exact List.getD_eq_default _ _ le_rfl

theorem cell_ne (h : IsString mem p l) {i : ℕ} (hi : i < l.length) : mem (off p i) ≠ 0 := by
  rw [h.cells i hi.le, List.getD_eq_getElem _ _ hi]
  exact h.ne_zero _ (List.getElem_mem hi)

theorem length_lt (h : IsString mem p l) : l.length < 2 ^ w := by
  by_contra hge
  -- the address of the zero is met before
  have hround : off p (l.length % 2 ^ w) = off p l.length := by
    unfold off
    rw [BitVec.add_right_inj, ← BitVec.toNat_inj, BitVec.toNat_ofNat, BitVec.toNat_ofNat,
      Nat.mod_mod]
  have hlt : l.length % 2 ^ w < l.length :=
    lt_of_lt_of_le (Nat.mod_lt _ (Nat.two_pow_pos w)) (not_lt.mp hge)
  exact h.cell_ne hlt (hround ▸ h.end_zero)

theorem congr {mem' : BitVec w → V} (h : IsString mem p l)
    (hsame : ∀ i, i ≤ l.length → mem' (off p i) = mem (off p i)) : IsString mem' p l :=
  ⟨h.ne_zero, fun i hi => (hsame i hi).trans (h.cells i hi)⟩

theorem tail {c : V} (h : IsString mem p (c :: l)) : IsString mem (off p 1) l := by
  refine ⟨fun v hv => h.ne_zero v (List.mem_cons_of_mem _ hv), fun i hi => ?_⟩
  rw [off_off, Nat.add_comm]
  exact h.cells (i + 1) (Nat.succ_le_succ hi)

theorem head {c : V} (h : IsString mem p (c :: l)) : mem p = c := by
  have hcell := h.cells 0 (Nat.zero_le _)
  rw [off_zero] at hcell
  exact hcell

theorem nil (h : IsString mem p []) : mem p = 0 := by
  have hcell := h.cells 0 le_rfl
  rw [off_zero] at hcell
  exact hcell

theorem eq_nil (h : IsString mem p l) (hz : mem p = 0) : l = [] := by
  cases l with
  | nil => rfl
  | cons c l => exact absurd (h.head.symm.trans hz) (h.ne_zero c List.mem_cons_self)

theorem exists_cons (h : IsString mem p l) (hz : mem p ≠ 0) :
    ∃ l', l = mem p :: l' ∧ IsString mem (p + 1) l' := by
  cases l with
  | nil => exact absurd h.nil hz
  | cons c l => exact ⟨l, by rw [h.head], h.tail⟩

theorem put_self (h : IsString mem p l) : CString.put mem p l = mem := by
  apply put_same
  intro i hi
  rw [h.cells i hi.le, List.getD_eq_getElem _ _ hi]

theorem headD (h : IsString mem p l) : l.headD 0 = mem p := by
  cases l with
  | nil => exact h.nil.symm
  | cons c l => exact h.head.symm

end IsString

theorem isString_put (hne : ∀ c ∈ l, c ≠ 0) (hlen : l.length < 2 ^ w) :
    IsString (put mem p (l ++ [0])) p l := by
  refine ⟨hne, fun i hi => ?_⟩
  rw [put_off (lt_of_le_of_lt hi hlen)]
  rcases Nat.lt_or_eq_of_le hi with hlt | rfl
  · rw [List.getD_append _ _ _ _ hlt, List.getD_eq_getElem _ _ hlt, List.getD_eq_getElem _ _ hlt]
  · rw [List.getD_append_right _ _ _ _ le_rfl, Nat.sub_self, List.getD_eq_default _ _ le_rfl]
    rfl

end CString
