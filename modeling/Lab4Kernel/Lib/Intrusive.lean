import Mathlib.Data.List.Basic
import Mathlib.Data.List.Nodup
import Mathlib.Logic.Function.Basic

/-!
# Intrusive linked lists

The nodes of an intrusive list carry their own link field. `IsChain link p l` says that following
`link` from the pointer `p` visits exactly the nodes of `l`, in order, and then reaches `NULL`.

* `IsChain.unique`, `IsChain.nodup`: the chain from a pointer is determined by it and has no cycle;
* `IsChain.frame`: writing the link of a node outside the chain leaves the chain alone;
* `IsChain.push`, `IsChain.pop`, `IsChain.append`: the three operations on a list;
* `walk`: the loop that finds the last node, with `walk_chain` for its result.
-/

namespace Intrusive

variable {T : Type*}

/-- Following `link` from `p` visits the nodes of the list, then reaches `NULL`. -/
def IsChain (link : T → Option T) : Option T → List T → Prop
  | p, [] => p = none
  | p, t :: l => p = some t ∧ IsChain link (link t) l

variable {link : T → Option T}

@[simp] theorem isChain_nil {p : Option T} : IsChain link p [] ↔ p = none := Iff.rfl

@[simp] theorem isChain_cons {p : Option T} {t : T} {l : List T} :
    IsChain link p (t :: l) ↔ p = some t ∧ IsChain link (link t) l := Iff.rfl

theorem IsChain.eq_nil {l : List T} (h : IsChain link none l) : l = [] := by
  cases l with
  | nil => rfl
  | cons t l => exact absurd h.1 (by simp)

theorem IsChain.exists_cons {t : T} {l : List T} (h : IsChain link (some t) l) :
    ∃ l', l = t :: l' ∧ IsChain link (link t) l' := by
  cases l with
  | nil => exact absurd h (by simp)
  | cons u l =>
    obtain ⟨hu, hl⟩ := h
    cases hu
    exact ⟨l, rfl, hl⟩

theorem IsChain.head?_eq {p : Option T} {l : List T} (h : IsChain link p l) : l.head? = p := by
  cases l with
  | nil => exact h.symm
  | cons t l => exact h.1.symm

/-- **The chain from a pointer is unique.** -/
theorem IsChain.unique {p : Option T} {l l' : List T} (h : IsChain link p l)
    (h' : IsChain link p l') : l = l' := by
  induction l generalizing p l' with
  | nil =>
    rw [isChain_nil] at h
    subst h
    exact h'.eq_nil.symm
  | cons t l ih =>
    obtain ⟨rfl, hl⟩ := h
    obtain ⟨l₁, rfl, hl₁⟩ := h'.exists_cons
    rw [ih hl hl₁]

theorem IsChain.suffix {p : Option T} {l : List T} (h : IsChain link p l) {t : T} (ht : t ∈ l) :
    ∃ l', IsChain link (link t) l' ∧ l'.length < l.length := by
  induction l generalizing p with
  | nil => exact absurd ht List.not_mem_nil
  | cons u l ih =>
    rcases List.mem_cons.mp ht with rfl | ht
    · exact ⟨l, h.2, by simp⟩
    · obtain ⟨l', h', hlt⟩ := ih h.2 ht
      exact ⟨l', h', by simp only [List.length_cons]; omega⟩

/-- **A chain has no cycle.** -/
theorem IsChain.nodup {p : Option T} {l : List T} (h : IsChain link p l) : l.Nodup := by
  induction l generalizing p with
  | nil => exact List.nodup_nil
  | cons t l ih =>
    refine List.nodup_cons.mpr ⟨fun ht => ?_, ih h.2⟩
    -- a second visit to `t` would make the chain from `t` a proper suffix of itself
    obtain ⟨l', h', hlt⟩ := h.2.suffix ht
    rw [h'.unique h.2] at hlt
    exact Nat.lt_irrefl _ hlt

theorem IsChain.congr {link' : T → Option T} {p : Option T} {l : List T} (h : IsChain link p l)
    (hl : ∀ t ∈ l, link' t = link t) : IsChain link' p l := by
  induction l generalizing p with
  | nil => exact h
  | cons t l ih =>
    refine ⟨h.1, ?_⟩
    rw [hl t List.mem_cons_self]
    exact ih h.2 fun u hu => hl u (List.mem_cons_of_mem _ hu)

section Operations

variable [DecidableEq T]

/-- **Frame.** Writing the link of a node outside the chain leaves the chain alone. -/
theorem IsChain.frame {p x : Option T} {l : List T} {t : T} (h : IsChain link p l) (ht : t ∉ l) :
    IsChain (Function.update link t x) p l :=
  h.congr fun u hu => Function.update_of_ne (fun e : u = t => ht (e ▸ hu)) _ _

theorem IsChain.push {p : Option T} {l : List T} {t : T} (h : IsChain link p l) (ht : t ∉ l) :
    IsChain (Function.update link t p) (some t) (t :: l) := by
  refine ⟨rfl, ?_⟩
  rw [Function.update_self]
  exact h.frame ht

theorem IsChain.pop {p x : Option T} {l : List T} {t : T} (h : IsChain link p (t :: l)) :
    IsChain (Function.update link t x) (link t) l :=
  h.2.frame (List.nodup_cons.mp h.nodup).1

theorem IsChain.append {p : Option T} {l : List T} {last t : T} (h : IsChain link p l)
    (hl : l.getLast? = some last) (ht : t ∉ l) :
    IsChain (Function.update (Function.update link last (some t)) t none) p (l ++ [t]) := by
  induction l generalizing p with
  | nil => exact absurd hl (by simp)
  | cons u l ih =>
    have hut : u ≠ t := fun e => ht (e ▸ List.mem_cons_self)
    refine ⟨h.1, ?_⟩
    rw [Function.update_of_ne hut]
    cases l with
    | nil =>
      obtain rfl : u = last := by simpa using hl
      simp
    | cons v l =>
      have hul : u ≠ last := by
        rintro rfl
        refine (List.nodup_cons.mp h.nodup).1 (List.mem_of_getLast? ?_)
        rwa [List.getLast?_cons_cons] at hl
      rw [Function.update_of_ne hul]
      exact ih h.2 (by rwa [List.getLast?_cons_cons] at hl) fun e => ht (List.mem_cons_of_mem _ e)

end Operations

/-- The loop `while (p != NULL) { tmp = p; p = p->link; }`, run for at most `fuel` nodes. It
returns the last node visited, or `none` when the fuel runs out first. -/
def walk (link : T → Option T) : ℕ → Option T → Option T → Option (Option T)
  | _, none, tmp => some tmp
  | 0, some _, _ => none
  | n + 1, some t, _ => walk link n (link t) (some t)

/-- **The walk over a chain ends at its last node.** -/
theorem walk_chain {fuel : ℕ} {p tmp : Option T} {l : List T} (h : IsChain link p l)
    (hf : l.length ≤ fuel) : walk link fuel p tmp = some (l.getLast?.or tmp) := by
  induction l generalizing fuel p tmp with
  | nil =>
    rw [isChain_nil] at h
    subst h
    cases fuel <;> rfl
  | cons t l ih =>
    obtain ⟨rfl, hl⟩ := h
    obtain ⟨n, rfl⟩ : ∃ n, fuel = n + 1 := ⟨fuel - 1, by simp at hf; omega⟩
    rw [walk, ih hl (by simpa using hf)]
    cases l with
    | nil => rfl
    | cons u l => rw [List.getLast?_cons_cons, List.getLast?_cons, Option.some_or, Option.some_or]

theorem walk_eq_some {fuel : ℕ} {p tmp r : Option T} {l : List T} (h : IsChain link p l)
    (hw : walk link fuel p tmp = some r) : r = l.getLast?.or tmp := by
  induction l generalizing fuel p tmp with
  | nil =>
    rw [isChain_nil] at h
    subst h
    cases fuel <;> exact (Option.some.inj hw).symm
  | cons t l ih =>
    obtain ⟨rfl, hl⟩ := h
    cases fuel with
    | zero => cases hw
    | succ n =>
      rw [ih hl hw]
      cases l with
      | nil => rfl
      | cons u l => rw [List.getLast?_cons_cons, List.getLast?_cons, Option.some_or, Option.some_or]

end Intrusive
