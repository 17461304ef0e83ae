import Lab4Kernel.Place.Cases

/-!
# The timer's pass over the devices

* `Background s s'`: what `dev_update` leaves alone, whatever the state;
* `Signalled D live L place s s'`: the pass over the devices signalled exactly those in `D`: their
  sleepers are ready and unlinked, their queues empty, and their match values moved on;
* **`devUpdate_spec`**, **`devUpdate_total`**: `dev_update` signals exactly the devices whose match
  value is its argument, and its loops end.
-/

namespace Lab4Kernel

open Intrusive

variable {T : Type}

/-! ## What the pass leaves alone -/

namespace Kernel

/-- The mutexes, the current task, the priorities and the mask bit are as before, and the accesses
are masked when the mask bit is set. -/
structure Background (s s' : Kernel T) : Prop where
  gtMutex : s'.gtMutex = s.gtMutex
  curTcb : s'.curTcb = s.curTcb
  masked : s'.masked = s.masked
  native : s'.shape.native = s.shape.native
  prio : s'.shape.prio = s.shape.prio
  logs : s.masked = true → Logs s s'

variable {s s' s'' : Kernel T} {i : DevId}

theorem Background.refl (s : Kernel T) : Background s s :=
  ⟨rfl, rfl, rfl, rfl, rfl, fun _ => .refl⟩

theorem Background.trans (h : Background s s') (h' : Background s' s'') : Background s s'' where
  gtMutex := h'.gtMutex.trans h.gtMutex
  curTcb := h'.curTcb.trans h.curTcb
  masked := h'.masked.trans h.masked
  native := h'.native.trans h.native
  prio := h'.prio.trans h.prio
  logs hm := (h.logs hm).trans (h'.logs (h.masked.trans hm))

theorem Background.touch (s : Kernel T) (a : Shared) : Background s (s.touch a) :=
  ⟨rfl, rfl, rfl, rfl, rfl, fun hm => .of_map [a] (by simp [hm])⟩

theorem Background.setNextMatch (s : Kernel T) (w : Word) : Background s (s.setNextMatch i w) :=
  ⟨rfl, rfl, rfl, rfl, rfl, fun hm => .of_map [.device i] (by simp [hm])⟩

/-- The devices that `dev_update(millis)` signals. -/
def matching (s : Kernel T) (millis : Word) : List DevId :=
  (List.finRange numDevices).filter fun d => (s.devices d).nextMatch = millis

theorem mem_matching {millis : Word} {d : DevId} :
    d ∈ s.matching millis ↔ (s.devices d).nextMatch = millis := by
  simp [matching]

theorem warnOverflow_eq (s : Kernel T) (i : DevId) :
    ∃ console, s.warnOverflow i = { s with console := console } := by
  by_cases h : maxInt - (s.devices i).nextMatch < devFreq i
  · exact ⟨_, if_pos h⟩
  · exact ⟨s.console, if_neg h⟩

theorem Background.warnOverflow (s : Kernel T) : Background s (s.warnOverflow i) := by
  obtain ⟨console, h⟩ := s.warnOverflow_eq i
  rw [h]
  exact ⟨rfl, rfl, rfl, rfl, rfl, fun _ => .refl⟩

variable [DecidableEq T]

/-- One iteration of the loop over the sleepers of a device. -/
def drainOne (i : DevId) (tempTcb : T) (s : Kernel T) : Kernel T :=
  let s := s.touch (.device i)
  let s := s.runqueueAdd tempTcb (s.tcb tempTcb).curPrio
  let s := s.setDevQueue i (s.tcb tempTcb).sleepQueue
  s.setSleepQueue tempTcb none

theorem drain_none {fuel : ℕ} (h : (s.devices i).sleepQueue = none) :
    s.drain i fuel = some (s.touch (.device i)) := by
  unfold drain
  simp only [touch_devices, h]

theorem drain_some {fuel : ℕ} {t : T} (h : (s.devices i).sleepQueue = some t) :
    s.drain i (fuel + 1) = (s.drainOne i t).drain i fuel := by
  conv_lhs => unfold drain
  simp only [touch_devices, h]
  rfl

theorem drain_zero {t : T} (h : (s.devices i).sleepQueue = some t) : s.drain i 0 = none := by
  unfold drain
  simp only [touch_devices, h]

theorem Background.drainOne (s : Kernel T) (t : T) : Background s (s.drainOne i t) := by
  refine ⟨rfl, rfl, rfl, ?_, ?_, fun hm => .of_map [.device i, .runQueue, .device i] ?_⟩
  · funext u
    by_cases e : u = t <;> simp [Kernel.drainOne, shape, e]
  · funext u
    by_cases e : u = t <;> simp [Kernel.drainOne, shape, e]
  · simp [Kernel.drainOne, hm]

theorem Background.drain {fuel : ℕ} (h : s.drain i fuel = some s') : Background s s' := by
  induction fuel generalizing s with
  | zero =>
    rcases hq : (s.devices i).sleepQueue with _ | t
    · rw [drain_none hq] at h
      cases h
      exact .touch s _
    · rw [drain_zero hq] at h
      cases h
  | succ fuel ih =>
    rcases hq : (s.devices i).sleepQueue with _ | t
    · rw [drain_none hq] at h
      cases h
      exact .touch s _
    · rw [drain_some hq] at h
      exact (Background.drainOne s t).trans (ih h)

theorem devSignal_match {fuel : ℕ} {millis : Word} (hm : (s.devices i).nextMatch = millis) :
    s.devSignal fuel millis i = ((s.touch (.device i)).drain i fuel).map fun s =>
      (s.warnOverflow i).setNextMatch i (((s.warnOverflow i).devices i).nextMatch + devFreq i) :=
  if_pos hm

theorem devSignal_skip {fuel : ℕ} {millis : Word} (hm : (s.devices i).nextMatch ≠ millis) :
    s.devSignal fuel millis i = some (s.touch (.device i)) :=
  if_neg hm

theorem Background.devSignal {fuel : ℕ} {millis : Word} (h : s.devSignal fuel millis i = some s') :
    Background s s' := by
  by_cases hm : (s.devices i).nextMatch = millis
  · rw [devSignal_match hm] at h
    obtain ⟨s₁, hs₁, rfl⟩ := Option.map_eq_some_iff.mp h
    exact (((Background.touch s _).trans (.drain hs₁)).trans (.warnOverflow s₁)).trans
      (.setNextMatch _ _)
  · rw [devSignal_skip hm] at h
    cases h
    exact .touch s _

theorem Background.foldlM {fuel : ℕ} {millis : Word} {ds : List DevId}
    (h : ds.foldlM (fun s i => s.devSignal fuel millis i) s = some s') : Background s s' := by
  induction ds generalizing s with
  | nil =>
    cases h
    exact .refl _
  | cons i ds ih =>
    rw [List.foldlM_cons] at h
    obtain ⟨s₁, hs₁, h⟩ := Option.bind_eq_some_iff.mp h
    exact (Background.devSignal hs₁).trans (ih h)

theorem Background.devUpdate {fuel : ℕ} {millis : Word} (h : s.devUpdate fuel millis = some s') :
    Background s s' :=
  .foldlM h

end Kernel

/-! ## What the pass does to the places -/

/-- The queues after those of the devices in `D` were emptied. -/
def emptied (D : List DevId) (L : QId → List T) : QId → List T
  | .dev d => if d ∈ D then [] else L (.dev d)
  | .mutex m => L (.mutex m)

variable {live : Set T} {L : QId → List T} {place : T → Option Place} {s s' s'' : Kernel T}
  {D D' : List DevId} {i : DevId}

theorem emptied_append : emptied D' (emptied D L) = emptied (D ++ D') L := by
  funext q
  cases q with
  | mutex m => rfl
  | dev d => by_cases h : d ∈ D <;> by_cases h' : d ∈ D' <;> simp [emptied, h, h']

theorem emptied_nil : emptied [] L = L := by
  funext q
  cases q <;> simp [emptied]

theorem emptied_of_nil (hl : L (.dev i) = []) : emptied [i] L = L := by
  funext q
  cases q with
  | mutex m => rfl
  | dev d => by_cases e : d = i <;> simp [emptied, e, hl]

theorem emptied_update (l : List T) :
    emptied [i] (Function.update L (.dev i) l) = emptied [i] L := by
  funext q
  cases q with
  | mutex m => simp [emptied]
  | dev d => by_cases e : d = i <;> simp [emptied, e]

theorem mem_emptied {d : DevId} {t : T} : t ∈ emptied D L (.dev d) ↔ d ∉ D ∧ t ∈ L (.dev d) := by
  by_cases h : d ∈ D <;> simp [emptied, h]

theorem exists_append (t : T) : (∃ d ∈ D ++ D', t ∈ L (.dev d)) ↔
    (∃ d ∈ D, t ∈ L (.dev d)) ∨ ∃ d ∈ D', t ∈ emptied D L (.dev d) := by
  simp only [List.mem_append, mem_emptied]
  constructor
  · rintro ⟨d, hd | hd, ht⟩
    · exact .inl ⟨d, hd, ht⟩
    · by_cases h : d ∈ D
      · exact .inl ⟨d, h, ht⟩
      · exact .inr ⟨d, hd, h, ht⟩
  · rintro (⟨d, hd, ht⟩ | ⟨d, hd, -, ht⟩)
    · exact ⟨d, .inl hd, ht⟩
    · exact ⟨d, .inr hd, ht⟩

variable [DecidableEq T]

/-- The places after the sleepers of the devices in `D` became ready. -/
def woken (D : List DevId) (L : QId → List T) (place : T → Option Place) (t : T) : Option Place :=
  if ∃ d ∈ D, t ∈ L (.dev d) then some .ready else place t

/-- The devices in `D` were signalled. -/
structure Signalled (D : List DevId) (live : Set T) (L : QId → List T) (place : T → Option Place)
    (s s' : Kernel T) : Prop where
  tasks : Tasks live s'.shape (emptied D L) (woken D L place)
  link : ∀ t, s'.shape.link t = if ∃ d ∈ D, t ∈ L (.dev d) then none else s.shape.link t
  nextMatch : ∀ d, (s'.devices d).nextMatch =
    if d ∈ D then (s.devices d).nextMatch + devFreq d else (s.devices d).nextMatch
  lost : s'.lost = s.lost

theorem woken_append : woken D' (emptied D L) (woken D L place) = woken (D ++ D') L place := by
  funext t
  unfold woken
  simp only [exists_append]
  by_cases h : ∃ d ∈ D, t ∈ L (.dev d) <;> simp [h]

theorem woken_nil : woken [] L place = place := by
  funext t
  simp [woken]

theorem woken_of_nil (hl : L (.dev i) = []) : woken [i] L place = place := by
  funext t
  simp [woken, hl]

theorem woken_update {t : T} {l : List T} (hl : L (.dev i) = t :: l) :
    woken [i] (Function.update L (.dev i) l) (Function.update place t (some .ready)) =
      woken [i] L place := by
  funext u
  by_cases e : u = t <;> simp [woken, e, hl]

theorem Signalled.trans (h : Signalled D live L place s s')
    (h' : Signalled D' live (emptied D L) (woken D L place) s' s'')
    (hd : ∀ d ∈ D, d ∉ D') : Signalled (D ++ D') live L place s s'' where
  tasks := by
    have ht := h'.tasks
    rwa [emptied_append, woken_append] at ht
  link t := by
    rw [h'.link, h.link]
    simp only [exists_append]
    by_cases hD : ∃ d ∈ D, t ∈ L (.dev d) <;> simp [hD]
  nextMatch d := by
    rw [h'.nextMatch, h.nextMatch]
    by_cases hD : d ∈ D
    · simp [hD, hd d hD]
    · simp [hD]
  lost := h'.lost.trans h.lost

/-! ## The loop over the sleepers of a device -/

namespace Kernel

theorem shape_drainOne {t : T} : (s.drainOne i t).shape = (s.shape.pop (.dev i) t).add t := by
  unfold drainOne
  rw [shape_setSleepQueue, shape_setDevQueue, shape_runqueueAdd rfl]
  rfl

theorem nextMatch_drainOne (t : T) (d : DevId) :
    ((s.drainOne i t).devices d).nextMatch = (s.devices d).nextMatch := by
  by_cases e : d = i
  · subst e
    simp [drainOne]
  · simp [drainOne, Function.update_of_ne e]

/-- **The loop over the sleepers of device `i`** makes all of them ready, in any number of
iterations, and overwrites no slot of the run queue. -/
theorem drain_spec {fuel : ℕ} (h : Tasks live s.shape L place) (hr : s.drain i fuel = some s') :
    Tasks live s'.shape (emptied [i] L) (woken [i] L place) ∧
      (∀ t, s'.shape.link t = if t ∈ L (.dev i) then none else s.shape.link t) ∧
      (∀ d, (s'.devices d).nextMatch = (s.devices d).nextMatch) ∧ s'.lost = s.lost := by
  obtain ⟨l, hl⟩ : ∃ l, L (.dev i) = l := ⟨_, rfl⟩
  induction l generalizing s L place fuel with
  | nil =>
    have hhead : (s.devices i).sleepQueue = none := by
      have hc := h.chain (.dev i)
      rwa [hl] at hc
    rw [drain_none hhead] at hr
    cases hr
    rw [emptied_of_nil hl, woken_of_nil hl]
    exact ⟨h, fun t => by simp [hl], fun _ => rfl, rfl⟩
  | cons t l ih =>
    have hchain := h.chain (.dev i)
    rw [hl] at hchain
    have hhead : (s.devices i).sleepQueue = some t := hchain.1
    cases fuel with
    | zero =>
      rw [drain_zero hhead] at hr
      cases hr
    | succ fuel =>
      rw [drain_some hhead] at hr
      have ht : place t = some (.asleep (.dev i)) :=
        (h.asleep _ t).mp (by rw [hl]; exact List.mem_cons_self)
      have hslot : s.rq.runList (s.shape.prio t) = none :=
        h.slot_free (h.mem_of_place ht) (by simp [ht])
      have h₁ := h.wake hl
      rw [← shape_drainOne] at h₁
      obtain ⟨htasks, hlink, hnext, hlost⟩ := ih h₁ hr (Function.update_self _ _ _)
      rw [emptied_update, woken_update hl] at htasks
      refine ⟨htasks, fun u => ?_, fun d => ?_, ?_⟩
      · rw [hlink, shape_drainOne, Function.update_self, hl]
        by_cases e : u = t <;> simp [e]
      · rw [hnext, nextMatch_drainOne]
      · rw [hlost]
        change (s.rq.runList (s.shape.prio t)).toList ++ s.lost = s.lost
        rw [hslot]
        rfl

theorem drain_total {fuel : ℕ} (h : Tasks live s.shape L place)
    (hf : (L (.dev i)).length ≤ fuel) : ∃ s', s.drain i fuel = some s' := by
  obtain ⟨l, hl⟩ : ∃ l, L (.dev i) = l := ⟨_, rfl⟩
  have hchain := h.chain (.dev i)
  rw [hl] at hchain hf
  induction l generalizing s L place fuel with
  | nil => exact ⟨_, drain_none hchain⟩
  | cons t l ih =>
    have hhead : (s.devices i).sleepQueue = some t := hchain.1
    obtain ⟨n, rfl⟩ : ∃ n, fuel = n + 1 := ⟨fuel - 1, by simp at hf; omega⟩
    rw [drain_some hhead]
    have h₁ := h.wake hl
    rw [← shape_drainOne] at h₁
    have hl' : Function.update L (.dev i) l (.dev i) = l := Function.update_self _ _ _
    have hchain' := h₁.chain (.dev i)
    rw [hl'] at hchain'
    exact ih h₁ (by simpa using hf) hl' hchain'

/-! ## The pass -/

theorem devSignal_spec {fuel : ℕ} {millis : Word} (h : Tasks live s.shape L place)
    (hr : s.devSignal fuel millis i = some s') :
    Signalled (if (s.devices i).nextMatch = millis then [i] else []) live L place s s' := by
  by_cases hm : (s.devices i).nextMatch = millis
  · rw [if_pos hm]
    rw [devSignal_match hm] at hr
    obtain ⟨s₁, hs₁, rfl⟩ := Option.map_eq_some_iff.mp hr
    obtain ⟨htasks, hlink, hnext, hlost⟩ := drain_spec (s := s.touch (.device i)) h hs₁
    obtain ⟨console, hwarn⟩ := s₁.warnOverflow_eq i
    rw [hwarn]
    refine ⟨?_, fun t => ?_, fun d => ?_, hlost⟩
    · rwa [shape_setNextMatch]
    · rw [shape_setNextMatch]
      simp only [List.mem_singleton, exists_eq_left]
      exact hlink t
    · by_cases e : d = i
      · subst e
        simp [hnext]
      · simp [hnext, e]
  · rw [if_neg hm]
    rw [devSignal_skip hm] at hr
    cases hr
    refine ⟨?_, fun t => by simp, fun d => by simp, rfl⟩
    rw [emptied_nil, woken_nil]
    exact h

theorem devSignal_total {fuel : ℕ} (millis : Word) (i : DevId) (h : Tasks live s.shape L place)
    (hf : osMaxTasks ≤ fuel) : ∃ s', s.devSignal fuel millis i = some s' := by
  by_cases hm : (s.devices i).nextMatch = millis
  · obtain ⟨s₁, hs₁⟩ := drain_total (s := s.touch (.device i)) h ((h.length_le (.dev i)).trans hf)
    exact ⟨_, by rw [devSignal_match hm, hs₁]; rfl⟩
  · exact ⟨_, devSignal_skip hm⟩

theorem foldlM_spec {fuel : ℕ} {millis : Word} {ds : List DevId} (hds : ds.Nodup)
    (h : Tasks live s.shape L place)
    (hr : ds.foldlM (fun s i => s.devSignal fuel millis i) s = some s') :
    Signalled (ds.filter fun d => (s.devices d).nextMatch = millis) live L place s s' := by
  induction ds generalizing s L place with
  | nil =>
    cases hr
    refine ⟨?_, fun t => by simp, fun d => by simp, rfl⟩
    rw [List.filter_nil, emptied_nil, woken_nil]
    exact h
  | cons i ds ih =>
    obtain ⟨hi, hds⟩ := List.nodup_cons.mp hds
    rw [List.foldlM_cons] at hr
    obtain ⟨s₁, hs₁, hr⟩ := Option.bind_eq_some_iff.mp hr
    have h₁ := devSignal_spec h hs₁
    have h₂ := ih hds h₁.tasks hr
    have hsame : ∀ d ∈ ds, (s₁.devices d).nextMatch = (s.devices d).nextMatch := by
      intro d hd
      have hne : d ≠ i := fun e => hi (e ▸ hd)
      rw [h₁.nextMatch]
      split_ifs <;> simp_all
    have hfilter : ds.filter (fun d => decide ((s₁.devices d).nextMatch = millis)) =
        ds.filter fun d => decide ((s.devices d).nextMatch = millis) :=
      List.filter_congr fun d hd => by rw [hsame d hd]
    rw [hfilter] at h₂
    have h₃ := h₁.trans h₂ (by
      intro d hd hd'
      split_ifs at hd
      · rw [List.mem_singleton.mp hd] at hd'
        exact hi (List.mem_of_mem_filter hd')
      · cases hd)
    convert h₃ using 1
    rw [List.filter_cons]
    by_cases hm : (s.devices i).nextMatch = millis <;> simp [hm]

theorem foldlM_total {fuel : ℕ} {millis : Word} {ds : List DevId} (h : Tasks live s.shape L place)
    (hf : osMaxTasks ≤ fuel) :
    ∃ s', ds.foldlM (fun s i => s.devSignal fuel millis i) s = some s' := by
  induction ds generalizing s L place with
  | nil => exact ⟨s, rfl⟩
  | cons i ds ih =>
    obtain ⟨s₁, hs₁⟩ := devSignal_total millis i h hf
    obtain ⟨s', hs'⟩ := ih (devSignal_spec h hs₁).tasks
    exact ⟨s', by rw [List.foldlM_cons, hs₁]; exact hs'⟩

/-- **`dev_update` signals the devices whose match value is its argument, and no other.** -/
theorem devUpdate_spec {fuel : ℕ} {millis : Word} (h : Tasks live s.shape L place)
    (hr : s.devUpdate fuel millis = some s') :
    Signalled (s.matching millis) live L place s s' :=
  foldlM_spec (List.nodup_finRange _) h hr

/-- **The loops of `dev_update` end.** -/
theorem devUpdate_total {fuel : ℕ} (millis : Word) (h : Tasks live s.shape L place)
    (hf : osMaxTasks ≤ fuel) : ∃ s', s.devUpdate fuel millis = some s' :=
  foldlM_total h hf

end Kernel

end Lab4Kernel
