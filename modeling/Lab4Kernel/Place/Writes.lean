import Lab4Kernel.Place.Tasks

/-!
# The shape after each single write

Each write of the kernel changes one component of the shape or none; the context switch changes
none.
-/

namespace Lab4Kernel

open Intrusive

variable {T : Type} {s : Kernel T}

namespace Kernel

/-! ## Single writes -/

@[simp] theorem shape_touch (a : Shared) : (s.touch a).shape = s.shape := rfl

@[simp] theorem shape_disableInterrupts : s.disableInterrupts.shape = s.shape := rfl

@[simp] theorem shape_enableInterrupts : s.enableInterrupts.shape = s.shape := rfl

@[simp] theorem shape_setCurTcb (p : Option T) : (s.setCurTcb p).shape = s.shape.setCur p := rfl

@[simp] theorem shape_removeHighest :
    s.removeHighest.shape = s.shape.remove s.rq.highestPrio := rfl

@[simp] theorem shape_ctxSwitchHalf (next : Option T) : (s.ctxSwitchHalf next).shape = s.shape :=
  rfl

theorem shape_runqueueAdd {t : T} {prio : Prio} (hp : prio = (s.tcb t).curPrio) :
    (s.runqueueAdd t prio).shape = s.shape.add t := by
  subst hp
  rfl

theorem gtMutex_update (m m' : MutexId) (x : Mutex T) :
    (Function.update s.gtMutex m x m').pSleepQueue =
      Function.update (fun i => (s.gtMutex i).pSleepQueue) m x.pSleepQueue m' :=
  Function.apply_update (fun _ => Mutex.pSleepQueue) s.gtMutex m x m'

theorem shape_updateMutex {m : MutexId} {x : Mutex T} {acc : List (Shared × Bool)}
    (hx : x.pSleepQueue = (s.gtMutex m).pSleepQueue) :
    ({ s with gtMutex := Function.update s.gtMutex m x, accesses := acc } : Kernel T).shape =
      s.shape := by
  have hhead : ({ s with gtMutex := Function.update s.gtMutex m x, accesses := acc } :
      Kernel T).head = s.head := by
    funext q
    cases q with
    | dev d => rfl
    | mutex m' =>
      change (Function.update s.gtMutex m x m').pSleepQueue = _
      rw [gtMutex_update, hx, Function.update_eq_self]
      rfl
  simp only [shape, hhead]

@[simp] theorem shape_setAvailable (m : MutexId) (b : Bool) :
    (s.setAvailable m b).shape = s.shape :=
  shape_updateMutex rfl

@[simp] theorem shape_setLock (m : MutexId) (b : Bool) : (s.setLock m b).shape = s.shape :=
  shape_updateMutex rfl

@[simp] theorem shape_setHolding (m : MutexId) (p : Option T) :
    (s.setHolding m p).shape = s.shape :=
  shape_updateMutex rfl

@[simp] theorem shape_setMutexQueue (m : MutexId) (p : Option T) :
    (s.setMutexQueue m p).shape =
      { s.shape with head := Function.update s.shape.head (.mutex m) p } := by
  have hhead : (s.setMutexQueue m p).head = Function.update s.head (.mutex m) p := by
    funext q
    cases q with
    | dev d => rw [Function.update_of_ne (by simp)]; rfl
    | mutex m' =>
      change (Function.update s.gtMutex m _ m').pSleepQueue = _
      rw [gtMutex_update]
      by_cases e : m' = m
      · subst e; simp
      · rw [Function.update_of_ne e, Function.update_of_ne (by simpa using e)]; rfl
  simp only [shape, hhead]
  rfl

@[simp] theorem shape_setDevQueue (d : DevId) (p : Option T) :
    (s.setDevQueue d p).shape =
      { s.shape with head := Function.update s.shape.head (.dev d) p } := by
  have hhead : (s.setDevQueue d p).head = Function.update s.head (.dev d) p := by
    funext q
    cases q with
    | mutex m => rw [Function.update_of_ne (by simp)]; rfl
    | dev d' =>
      change (Function.update s.devices d _ d').sleepQueue = _
      by_cases e : d' = d
      · subst e; simp
      · rw [Function.update_of_ne e, Function.update_of_ne (by simpa using e)]; rfl
  simp only [shape, hhead]
  rfl

@[simp] theorem shape_setNextMatch (d : DevId) (w : Word) :
    (s.setNextMatch d w).shape = s.shape := by
  have hhead : (s.setNextMatch d w).head = s.head := by
    funext q
    cases q with
    | mutex m => rfl
    | dev d' =>
      change (Function.update s.devices d _ d').sleepQueue = _
      by_cases e : d' = d
      · subst e; simp; rfl
      · rw [Function.update_of_ne e]; rfl
  simp only [shape, hhead]
  rfl

variable [DecidableEq T]

@[simp] theorem shape_setSleepQueue (t : T) (p : Option T) :
    (s.setSleepQueue t p).shape =
      { s.shape with link := Function.update s.shape.link t p } := by
  unfold shape
  congr 1 <;> funext u <;> by_cases e : u = t <;> simp [e]

@[simp] theorem shape_setContext (t : T) (c : SchedContext) :
    (s.setContext t c).shape = s.shape := by
  unfold shape
  congr 1 <;> funext u <;> by_cases e : u = t <;> simp [e]

@[simp] theorem shape_ctxSwitchFull (next : Option T) (cur : T) :
    (s.ctxSwitchFull next cur).shape = s.shape := by
  rw [ctxSwitchFull, shape_ctxSwitchHalf, shape_setContext]

end Kernel

end Lab4Kernel
