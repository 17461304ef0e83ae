import Lab4Kernel.Kernel.State

/-!
# The read and write system calls

`kernel/memcheck.c` and `kernel/syscall/io.c`. Addresses are words and their sums wrap around.

* `validAddr`: the kernel's own range check;
* `read`: the check of the arguments and the input loop, over the characters that `getc` delivers;
* `write`: the check of the arguments and the output loop.
-/

namespace Lab4Kernel

/-- A `char`. -/
abbrev Byte : Type := BitVec 8

/-- Memory, byte by byte. -/
abbrev Memory : Type := Word → Byte

/-- `STDIN_FILENO`. -/
def stdinFileno : ℤ := 0

/-- `STDOUT_FILENO`. -/
def stdoutFileno : ℤ := 1

/-- `EBADF`. -/
def ebadf : ℤ := 9

/-- `EFAULT`. -/
def efault : ℤ := 14

/-- `buffersize`. -/
def buffersize : Word := 0x4000000

/-- `heapbtm`. -/
def heapbtm : Word := 0xa0000000

/-- `freetop`. -/
def freetop : Word := 0xa3efffff

/-- `freebtm`. -/
def freebtm : Word := 0xa3edf000

/-- `EOT`. -/
def eot : Byte := 0x4

/-- `backspace`. -/
def backspace : Byte := 127

/-- `SDRAM_BEGIN`. -/
def sdramBegin : Word := 0xa0000000

/-- `ROM_BEGIN`. -/
def romBegin : Word := 0x00000000

/-- `ROM_END`. -/
def romEnd : Word := 0x00ffffff

/-- `SDRAM_END`. -/
def sdramEnd : Word := 0xa3ffffff

/-- `valid_addr`. -/
def validAddr (start count base bound : Word) : Bool :=
  let memStart := start
  let memEnd := start + count
  if memStart < base ∨ memStart ≥ bound then false
  else if memEnd < memStart ∨ memEnd > bound then false
  else true

/-! ## `read` -/

/-- What the input loop of `read` works on: the index of the last character held, memory, the
characters given to `putc`, and, as a ghost field, the addresses that were stored to. -/
structure ReadState where
  readcount : ℤ := -1
  mem : Memory
  out : List Byte := []
  stores : List Word := []

/-- `charbuf[readcount] = ch`, for the current `readcount`. -/
def ReadState.store (charbuf : Word) (ch : Byte) (st : ReadState) : ReadState :=
  let a := charbuf + BitVec.ofInt 32 st.readcount
  { st with mem := Function.update st.mem a ch, stores := a :: st.stores }

/-- `putc`. -/
def ReadState.putc (ch : Byte) (st : ReadState) : ReadState := { st with out := st.out ++ [ch] }

/-- The input loop of `read` over the characters that `getc` delivers. It ends with the value
returned, or with `none` when it waits for another character. -/
def readLoop (charbuf count : Word) : List Byte → ReadState → Option ℤ × ReadState
  | [], st => (none, st)
  | ch :: input, st =>
    if ch = eot then (some (st.readcount + 1), st)
    else if ch = backspace then
      if st.readcount ≥ 0 then
        let st := st.store charbuf 0
        let st := { st with readcount := st.readcount - 1 }
        let st := ((st.putc 8).putc 32).putc 8
        readLoop charbuf count input st
      else readLoop charbuf count input st
    else if ch = 10 ∨ ch = 13 then
      if st.readcount + 1 < count.toInt then
        let st := { st with readcount := st.readcount + 1 }
        let st := st.store charbuf 10
        let st := st.putc 10
        (some (st.readcount + 1), st)
      else (some (st.readcount + 1), st)
    else
      if st.readcount + 1 < count.toInt then
        let st := { st with readcount := st.readcount + 1 }
        let st := st.store charbuf ch
        let st := st.putc ch
        readLoop charbuf count input st
      else (some (st.readcount + 1), st)

/-- `read`, with the supervisor stack pointer that `getsp` returns. -/
def read (fd : ℤ) (buf count currentsp : Word) (input : List Byte) (mem : Memory) :
    Option ℤ × ReadState :=
  let st : ReadState := { mem := mem }
  if fd ≠ stdinFileno then (some (-ebadf), st)
  else if count > buffersize ∨ ¬((buf + count < currentsp ∧ buf ≥ heapbtm) ∨
      (buf + count ≤ freetop ∧ buf ≥ freebtm)) then (some (-efault), st)
  else readLoop buf count input st

/-! ## `write` -/

/-- The output loop of `write`, for at most `n` further characters from index `i` on: the characters
given to `putc`, and, as a ghost, the addresses that were read. -/
def writeLoop (mem : Memory) (buf : Word) : ℕ → ℕ → List Byte × List Word
  | 0, _ => ([], [])
  | n + 1, i =>
    let a := buf + BitVec.ofNat 32 i
    if mem a = 0 then ([], [a])
    else
      let rest := writeLoop mem buf n (i + 1)
      (mem a :: rest.1, a :: rest.2)

/-- `write`. The loop runs while `i < (signed int)count`. -/
def write (fd : ℤ) (buf count : Word) (mem : Memory) : ℤ × List Byte × List Word :=
  if fd ≠ stdoutFileno then (-ebadf, [], [])
  else
    let maxAddr := buf + count
    if ¬(maxAddr ≤ romEnd ∨ (buf ≥ sdramBegin ∧ maxAddr ≤ sdramEnd)) then (-efault, [], [])
    else (count.toInt, writeLoop mem buf count.toInt.toNat 0)

end Lab4Kernel
