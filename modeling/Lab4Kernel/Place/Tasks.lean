import Lab4Kernel.Place.Shape

/-!
# The moves of the scheduler conserve the tasks

`Tasks live sh L place`: the shape represents the queues and places, exactly the live tasks have a
place, and live tasks have distinct priorities with `native_prio = cur_prio`. The moves of the
scheduler are the composites that the kernel functions perform:

* **`Tasks.sleep`**, **`Tasks.block`**: the current task goes to the front, or to the end, of a
  queue and the task at the highest priority becomes current;
* **`Tasks.wake`**: the first task of a queue becomes ready;
* **`Tasks.preempt`**: the current task becomes ready and the task at the highest priority current.
-/

namespace Lab4Kernel

open Intrusive

variable {T : Type}

/-- The shape represents queues and places in which exactly the live tasks have a place. -/
structure Tasks (live : Set T) (sh : Shape T) (L : QId → List T) (place : T → Option Place) : Prop
    extends Placed sh L place where
  live_iff : ∀ t, t ∈ live ↔ (place t).isSome
  native_eq : ∀ t ∈ live, sh.native t = sh.prio t
  prio_inj : ∀ t ∈ live, ∀ u ∈ live, sh.prio t = sh.prio u → t = u

namespace Tasks

variable {live : Set T} {sh sh' : Shape T} {L L' : QId → List T}
  {place place' : T → Option Place} {t c : T} {q : QId}

theorem mem_of_place (h : Tasks live sh L place) {pl : Place} (hp : place t = some pl) :
    t ∈ live :=
  (h.live_iff t).mpr (by rw [hp]; rfl)

theorem cur_mem (h : Tasks live sh L place) (hc : sh.cur = some c) : c ∈ live :=
  h.mem_of_place ((h.current c).mp hc)

theorem length_le (h : Tasks live sh L place) (q : QId) : (L q).length ≤ osMaxTasks :=
  h.toPlaced.length_le (fun t u ht hu e =>
    h.prio_inj t ((h.live_iff t).mpr ht) u ((h.live_iff u).mpr hu) e) q

theorem of_placed (h : Tasks live sh L place) (h' : Placed sh' L' place')
    (hnative : sh'.native = sh.native) (hprio : sh'.prio = sh.prio)
    (hplace : ∀ u, (place' u).isSome = (place u).isSome) : Tasks live sh' L' place' where
  toPlaced := h'
  live_iff u := by rw [hplace]; exact h.live_iff u
  native_eq := by rw [hnative, hprio]; exact h.native_eq
  prio_inj := by rw [hprio]; exact h.prio_inj

theorem highest_ready (h : Tasks live sh L place) {r : T} (hr : sh.highest = some r) :
    place r = some .ready ∧
      ∀ u, place u = some .ready → sh.prio r ≤ sh.prio u := by
  obtain ⟨hprio, hready⟩ := (h.ready _ r).mp hr
  refine ⟨hready, fun u hu => ?_⟩
  rw [hprio]
  exact h.agree.highestPrio_le (by rw [h.runList_prio hu]; exact Option.some_ne_none u)

theorem exists_highest (h : Tasks live sh L place) (ht : place t = some .ready) :
    ∃ r, sh.highest = some r := by
  rw [← Option.ne_none_iff_exists']
  intro hn
  have hslot := h.agree.runList_highestPrio_eq_none.mp hn (sh.prio t)
  rw [h.runList_prio ht] at hslot
  exact Option.some_ne_none t hslot

theorem slot_free (h : Tasks live sh L place) (ht : t ∈ live) (hp : place t ≠ some .ready) :
    sh.rq.runList (sh.prio t) = none :=
  h.toPlaced.fresh_slot (fun u hu e => h.prio_inj u ((h.live_iff u).mpr hu) t ht e) hp

variable [DecidableEq T]

theorem isSome_switchTo {r : Option T} (hr : ∀ u, r = some u → (place u).isSome) (u : T) :
    (switchTo r place u).isSome = (place u).isSome := by
  cases r with
  | none => rfl
  | some v =>
    by_cases e : u = v
    · subst e
      simp [switchTo, hr u rfl]
    · simp [switchTo, Function.update_of_ne e]

theorem isSome_update {pl : Place} (ht : (place t).isSome) (u : T) :
    (Function.update place t (some pl) u).isSome = (place u).isSome := by
  by_cases e : u = t
  · subst e
    simp [ht]
  · rw [Function.update_of_ne e]

theorem highest_isSome (h : Tasks live sh L place) {x : Option Place} (hc : sh.cur = some c) :
    ∀ r, sh.highest = some r → (Function.update place c x r).isSome := by
  intro r hr
  have hready := (h.highest_ready hr).1
  have hne : r ≠ c := by
    rintro rfl
    rw [(h.current r).mp hc] at hready
    cases hready
  rw [Function.update_of_ne hne, hready]
  rfl

/-- The places after the current task moved to `pl` and the dispatcher made its choice. -/
def afterSwitch (sh : Shape T) (place : T → Option Place) (c : T) (pl : Place) :
    T → Option Place :=
  switchTo sh.highest (Function.update place c (some pl))

theorem isSome_afterSwitch (h : Tasks live sh L place) (hc : sh.cur = some c) (pl : Place) (u : T) :
    (afterSwitch sh place c pl u).isSome = (place u).isSome := by
  have hplace : (place c).isSome := by rw [(h.current c).mp hc]; rfl
  rw [afterSwitch, isSome_switchTo (h.highest_isSome hc), isSome_update hplace]

/-- **`dev_wait`**: the current task goes to sleep at the front of a queue. -/
theorem sleep (h : Tasks live sh L place) (hc : sh.cur = some c) (q : QId) :
    Tasks live (sh.push q c).pick (Function.update L q (c :: L q))
      (afterSwitch sh place c (.asleep q)) := by
  have h₁ := (h.unsetCur hc).push (Function.update_self _ _ _) q
  rw [Function.update_idem] at h₁
  exact h.of_placed (h₁.pick rfl) rfl rfl (h.isSome_afterSwitch hc _)

/-- **`mutex_lock`**, on an empty queue. -/
theorem blockFirst (h : Tasks live sh L place) (hc : sh.cur = some c) (hq : sh.head q = none) :
    Tasks live (sh.push q c).pick (Function.update L q (L q ++ [c]))
      (afterSwitch sh place c (.asleep q)) := by
  have h₁ := (h.unsetCur hc).start (q := q) (Function.update_self _ _ _) hq
  rw [Function.update_idem] at h₁
  exact h.of_placed (h₁.pick rfl) rfl rfl (h.isSome_afterSwitch hc _)

/-- **`mutex_lock`**, behind the last task of a queue. -/
theorem block {last : T} (h : Tasks live sh L place) (hc : sh.cur = some c)
    (hl : (L q).getLast? = some last) :
    Tasks live (sh.linkAfter last c).pick (Function.update L q (L q ++ [c]))
      (afterSwitch sh place c (.asleep q)) := by
  have h₁ := (h.unsetCur hc).append (q := q) (Function.update_self _ _ _) hl
  rw [Function.update_idem] at h₁
  exact h.of_placed (h₁.pick rfl) rfl rfl (h.isSome_afterSwitch hc _)

/-- **`mutex_unlock`, `dev_update`**: the first task of a queue becomes ready. -/
theorem wake {l : List T} (h : Tasks live sh L place) (hl : L q = t :: l) :
    Tasks live ((sh.pop q t).add t) (Function.update L q l)
      (Function.update place t (some .ready)) := by
  have ht : place t = some (.asleep q) := (h.asleep q t).mp (by rw [hl]; exact List.mem_cons_self)
  have hslot := h.slot_free (h.mem_of_place ht) (by simp [ht])
  have h₁ := (h.toPlaced.pop hl).add (Function.update_self _ _ _) hslot
  rw [Function.update_idem] at h₁
  exact h.of_placed h₁ rfl rfl (isSome_update (by rw [ht]; rfl))

/-- **`dispatch_save`**: the current task becomes ready. The slot it is added to is empty, also
after the dispatcher's choice was removed. -/
theorem preempt (h : Tasks live sh L place) (hc : sh.cur = some c) :
    sh.pick.rq.runList (sh.prio c) = none ∧
      Tasks live (sh.pick.add c) L (afterSwitch sh place c .ready) := by
  have hcur : place c = some .current := (h.current c).mp hc
  have h₁ := (h.unsetCur hc).pick rfl
  have hne : ∀ r, sh.highest = some r → r ≠ c := by
    rintro r hr rfl
    rw [(h.highest_ready hr).1] at hcur
    cases hcur
  have hnone : switchTo sh.highest (Function.update place c none) c = none := by
    rcases hr : sh.highest with _ | r
    · exact Function.update_self _ _ _
    · rw [switchTo, Function.update_of_ne (hne r hr).symm, Function.update_self]
  have hslot : sh.pick.rq.runList (sh.prio c) = none := by
    have hfree := h.slot_free (h.cur_mem hc) (by simp [hcur])
    simp only [Shape.pick, Shape.setCur_rq, Shape.remove_rq, RunQueue.runList_remove, hfree,
      ite_self]
  refine ⟨hslot, ?_⟩
  have h₂ := h₁.add hnone hslot
  have heq : Function.update (switchTo sh.highest (Function.update place c none)) c (some .ready) =
      afterSwitch sh place c .ready := by
    unfold afterSwitch
    rcases hr : sh.highest with _ | r
    · exact Function.update_idem _ _ _
    · rw [switchTo, switchTo, Function.update_comm (hne r hr), Function.update_idem]
  have h₃ : Placed (sh.pick.add c) L (afterSwitch sh place c .ready) := heq ▸ h₂
  exact h.of_placed h₃ rfl rfl (h.isSome_afterSwitch hc _)

end Tasks

end Lab4Kernel
