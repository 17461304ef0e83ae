import Lab4Kernel.Kernel.State

/-!
# Time

`kernel/syscall/time.c`, over the tick counter `num_of_10ms`.

* `time`: the milliseconds since boot;
* `sleep`: the waiting loop, over the moments at which it reads the counter.
-/

namespace Lab4Kernel

/-- `time`. -/
def time (numOf10ms : Word) : Word := numOf10ms * 10

/-- `while (num_of_10ms < expected_num_of_10ms) {}`, which reads the counter at the given moments:
the moment of the read that ends the loop, or `none` when it goes on. -/
def sleepLoop {M : Type*} (numOf10ms : M → Word) (expectedNumOf10ms : Word) : List M → Option M
  | [] => none
  | y :: moments =>
    if numOf10ms y < expectedNumOf10ms then sleepLoop numOf10ms expectedNumOf10ms moments
    else some y

/-- `sleep(millis)`, called at the moment `call`. -/
def sleep {M : Type*} (numOf10ms : M → Word) (call : M) (millis : Word) (moments : List M) :
    Option M :=
  let expectedNumOf10ms := numOf10ms call + millis / 10
  sleepLoop numOf10ms expectedNumOf10ms moments

theorem time_ofNat (n : ℕ) : time (BitVec.ofNat 32 n) = BitVec.ofNat 32 (10 * n) := by
  unfold time
  rw [Nat.mul_comm, BitVec.ofNat_mul]
  rfl

end Lab4Kernel
