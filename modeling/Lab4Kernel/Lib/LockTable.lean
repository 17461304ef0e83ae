import Mathlib.Data.List.Basic
import Mathlib.Logic.Function.Basic

/-!
# A table of locks with first-in first-out waiters

Locks that are named by an id, which may name no lock at all. A task that finds a lock taken waits
at the end of its queue; an unlock wakes the first waiter.

* `Table.lock`, `Table.unlock`: the two calls, with their replies;
* **`Table.lock_waiters`**, **`Table.unlock_waiters`**: what a call adds to a queue, and takes off
  it;
* **`fifo_extend`**: the tasks that ever waited for a lock are the tasks that were woken and then
  its waiters, in this order.
-/

namespace LockTable

/-- One lock of the table. -/
@[ext] structure Entry (T : Type*) where
  created : Bool
  locked : Bool
  holder : Option T
  waiters : List T

/-- The reply to a call. -/
inductive Reply where
  | invalid
  | deadlock
  | notHolder
  | waits
  | done
  deriving DecidableEq

/-- The locks, by their names. -/
abbrev Table (M T : Type*) : Type _ := M → Entry T

/-- **First in, first out**: from one step to the whole history. -/
theorem fifo_extend {T : Type*} {blocked woken b w q q' : List T} (h : blocked = woken ++ q)
    (hstep : w ++ q' = q ++ b) : blocked ++ b = (woken ++ w) ++ q' := by
  rw [h, List.append_assoc, ← hstep, List.append_assoc]

variable {M T : Type*} [DecidableEq T]

/-- A call of lock by `c`. -/
def Entry.lock (c : T) (e : Entry T) : Reply × Entry T :=
  if e.created = false then (.invalid, e)
  else if e.holder = some c then (.deadlock, e)
  else if e.locked then (.waits, { e with waiters := e.waiters ++ [c] })
  else (.done, { e with locked := true, holder := some c })

/-- A call of unlock by `c`. -/
def Entry.unlock (c : T) (e : Entry T) : Reply × Entry T :=
  if e.created = false then (.invalid, e)
  else if e.holder ≠ some c then (.notHolder, e)
  else (.done, { e with locked := false, holder := none, waiters := e.waiters.tail })

theorem Entry.lock_waiters (c : T) (e : Entry T) : (e.lock c).2.waiters =
    e.waiters ++ if (e.lock c).1 = .waits then [c] else [] := by
  unfold Entry.lock
  split_ifs <;> simp_all

theorem Entry.unlock_waiters (c : T) (e : Entry T) :
    (if (e.unlock c).1 = .done then e.waiters.head?.toList else []) ++ (e.unlock c).2.waiters =
      e.waiters := by
  obtain ⟨created, locked, holder, waiters⟩ := e
  unfold Entry.unlock
  cases waiters <;> split_ifs <;> simp_all

namespace Table

variable [DecidableEq M] (tab : Table M T) (c : T)

/-- A call of lock, on the lock that the id names. -/
def lock : Option M → Reply × Table M T
  | none => (.invalid, tab)
  | some m => (((tab m).lock c).1, Function.update tab m ((tab m).lock c).2)

/-- A call of unlock, on the lock that the id names. -/
def unlock : Option M → Reply × Table M T
  | none => (.invalid, tab)
  | some m => (((tab m).unlock c).1, Function.update tab m ((tab m).unlock c).2)

section Replies

variable {tab c} {i : Option M} {m : M}

theorem lock_invalid (h : ∀ m, i = some m → (tab m).created = false) :
    tab.lock c i = (.invalid, tab) := by
  rcases i with _ | m
  · rfl
  · simp [lock, Entry.lock, h m rfl]

theorem lock_deadlock (hcreated : (tab m).created = true) (hholder : (tab m).holder = some c) :
    tab.lock c (some m) = (.deadlock, tab) := by
  simp [lock, Entry.lock, hcreated, hholder]

theorem lock_waits (hcreated : (tab m).created = true) (hholder : (tab m).holder ≠ some c)
    (hlocked : (tab m).locked = true) : tab.lock c (some m) =
      (.waits, Function.update tab m { tab m with waiters := (tab m).waiters ++ [c] }) := by
  simp [lock, Entry.lock, hcreated, hholder, hlocked]

theorem lock_done (hcreated : (tab m).created = true) (hholder : (tab m).holder ≠ some c)
    (hlocked : (tab m).locked = false) : tab.lock c (some m) =
      (.done, Function.update tab m { tab m with locked := true, holder := some c }) := by
  simp [lock, Entry.lock, hcreated, hholder, hlocked]

theorem unlock_invalid (h : ∀ m, i = some m → (tab m).created = false) :
    tab.unlock c i = (.invalid, tab) := by
  rcases i with _ | m
  · rfl
  · simp [unlock, Entry.unlock, h m rfl]

theorem unlock_notHolder (hcreated : (tab m).created = true) (hholder : (tab m).holder ≠ some c) :
    tab.unlock c (some m) = (.notHolder, tab) := by
  simp [unlock, Entry.unlock, hcreated, hholder]

theorem unlock_done (hcreated : (tab m).created = true) (hholder : (tab m).holder = some c) :
    tab.unlock c (some m) = (.done, Function.update tab m
      { tab m with locked := false, holder := none, waiters := (tab m).waiters.tail }) := by
  simp [unlock, Entry.unlock, hcreated, hholder]

end Replies

/-- The task that a call of lock adds to the queue of `m`. -/
def blocked (i : Option M) (m : M) : List T :=
  if i = some m ∧ (tab.lock c i).1 = .waits then [c] else []

/-- The task that a call of unlock takes off the queue of `m`. -/
def woken (i : Option M) (m : M) : List T :=
  if i = some m ∧ (tab.unlock c i).1 = .done then (tab m).waiters.head?.toList else []

theorem lock_waiters (i : Option M) (m : M) :
    ((tab.lock c i).2 m).waiters = (tab m).waiters ++ tab.blocked c i m := by
  rcases i with _ | m'
  · simp [lock, blocked]
  · by_cases e : m = m'
    · subst e
      simpa [lock, blocked] using Entry.lock_waiters c (tab m)
    · simp [lock, blocked, Function.update_of_ne e, Ne.symm e]

theorem unlock_waiters (i : Option M) (m : M) :
    tab.woken c i m ++ ((tab.unlock c i).2 m).waiters = (tab m).waiters := by
  rcases i with _ | m'
  · simp [unlock, woken]
  · by_cases e : m = m'
    · subst e
      simpa [unlock, woken] using Entry.unlock_waiters c (tab m)
    · simp [unlock, woken, Function.update_of_ne e, Ne.symm e]

end Table

end LockTable
