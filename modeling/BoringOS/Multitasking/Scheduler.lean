import BoringOS.Multitasking.Thread

/-!
# The scheduler

One CPU's scheduler: `READY_LIST`, `CURRENT_THREAD` and `OLD_THREAD`, and the
scheduling step `schedule_next_thread`, which runs `after_context_switch` on the
thread it switches to. The threads of the CPU come and go by `Step`: a new
thread is pushed onto `READY_LIST`, the current thread exits, or the CPU
schedules.

## Main results

- `scheduleNextThread_of_not_needed`, `scheduleNextThread_of_needed` — the two
  outcomes of a scheduling step
- `Inv`, `Inv.step` — the invariant of every reachable state: `OLD_THREAD` is
  empty, the idle thread is alive and either current or ready, thread ids are
  unique and no ready thread is dead
- `Inv.scheduleNextThread_isSome`, `scheduleNeeded_eq_spec` — hence
  `schedule_next_thread` never panics and decides as the spec's rule does
- `StepSpec` — what one scheduling step is to do, which every step from a
  reachable state does
- `scheduleNextThread_perm` — a scheduling step loses and duplicates no thread
- `scheduleRun_of_greatest` — a live current thread greater than every ready
  thread keeps the CPU for good, also against a thread of its own priority
-/

namespace BoringOS

/-- One CPU's `READY_LIST`, `CURRENT_THREAD` and `OLD_THREAD`. -/
structure Scheduler where
  readyList : List TCB
  currentThread : TCB
  oldThread : Option TCB
  deriving DecidableEq, Repr

namespace Scheduler

/-- The initial values of the three: the CPU runs its idle thread. -/
def init (idle : TCB) : Scheduler := ⟨[], idle, none⟩

/-- The decision of `schedule_next_thread`. -/
def scheduleNeeded (readyList : List TCB) (currentThread : TCB) : Bool :=
  -- There is another thread to schedule, and it has at least the same priority.
  let scheduleNeeded :=
    match peek readyList with
    | some top => decide (currentThread ≤ top)
    | none => false
  -- Or the current thread can't run anymore.
  scheduleNeeded || currentThread.isDead

/-- Modelled from the spec: scheduling is needed iff `top` exists and
    (`top ≥ CURRENT_THREAD` or `CURRENT_THREAD.is_dead()`). -/
def specScheduleNeeded (readyList : List TCB) (currentThread : TCB) : Bool :=
  match peek readyList with
  | some top => decide (currentThread ≤ top) || currentThread.isDead
  | none => false

/-- `after_context_switch`: a dead `OLD_THREAD` is dropped, here returned for its
    resources to be released, and a live one is pushed back onto `READY_LIST`. -/
def afterContextSwitch (s : Scheduler) : Scheduler × Option TCB :=
  match s.oldThread with
  | some oldThread =>
    if oldThread.isDead then ({ s with oldThread := none }, some oldThread)
    else ({ s with readyList := push oldThread s.readyList, oldThread := none }, none)
  | none => (s, none)

/-- `schedule_next_thread`, with the `after_context_switch` that the thread it
    switches to runs; besides the new state, the thread that was dropped. `none`
    when `debug_assert!(OLD_THREAD.is_none())` fails or `pop().unwrap()` finds
    the heap empty. -/
def scheduleNextThread (s : Scheduler) : Option (Scheduler × Option TCB) :=
  if s.oldThread.isSome then none
  else if scheduleNeeded s.readyList s.currentThread then do
    -- Move the new thread to the temporary spot for old threads.
    let (next, readyList) ← pop s.readyList
    -- Now swap the references: OLD_THREAD holds the thread that was previously
    -- running, CURRENT_THREAD the thread that is to run now.
    let (currentThread, oldThread) := (next, s.currentThread)
    -- If the thread isn't dead, set it's state to ready.
    let oldThread := if oldThread.isDead then oldThread else oldThread.setReady
    let currentThread := currentThread.setRunning
    -- This is where the actual switch happens.
    return afterContextSwitch ⟨readyList, currentThread, some oldThread⟩
  else some (s, none)

/-! ### The two outcomes of a scheduling step -/

section Outcomes

variable {s : Scheduler}

theorem scheduleNextThread_of_not_needed (h₀ : s.oldThread = none)
    (hn : scheduleNeeded s.readyList s.currentThread = false) :
    scheduleNextThread s = some (s, none) := by
  simp [scheduleNextThread, h₀, hn]

/-- A switch pops the greatest ready thread, makes it current and running, and
    pushes the old current thread back as ready, or drops it if it is dead. -/
theorem scheduleNextThread_of_needed (h₀ : s.oldThread = none)
    (hn : scheduleNeeded s.readyList s.currentThread = true) {next : TCB} {rest : List TCB}
    (hp : pop s.readyList = some (next, rest)) :
    scheduleNextThread s = some (if s.currentThread.isDead
      then (⟨rest, next.setRunning, none⟩, some s.currentThread)
      else (⟨push s.currentThread.setReady rest, next.setRunning, none⟩, none)) := by
  simp only [scheduleNextThread, h₀, Option.isSome_none, hn, hp, if_true, bind, Option.some_bind,
    pure, Bool.false_eq_true, if_false]
  cases hd : s.currentThread.isDead <;> simp [afterContextSwitch, hd]

/-- The thread a scheduling step drops is the old current thread, which is dead. -/
theorem scheduleNextThread_dropped (h₀ : s.oldThread = none) {s' : Scheduler} {d : TCB}
    (hs : scheduleNextThread s = some (s', some d)) : d = s.currentThread ∧ d.isDead = true := by
  cases hn : scheduleNeeded s.readyList s.currentThread
  · rw [scheduleNextThread_of_not_needed h₀ hn] at hs; cases hs
  · rcases hp : pop s.readyList with _ | ⟨next, rest⟩
    · simp [scheduleNextThread, h₀, hn, hp] at hs
    · rw [scheduleNextThread_of_needed h₀ hn hp] at hs
      split at hs <;> cases hs
      exact ⟨rfl, ‹_›⟩

/-- The code decides not to switch exactly when the current thread is alive and
    greater than every ready thread. -/
theorem scheduleNeeded_eq_false {readyList : List TCB} {currentThread : TCB} :
    scheduleNeeded readyList currentThread = false ↔
      currentThread.isDead = false ∧ ∀ t ∈ readyList, t < currentThread := by
  unfold scheduleNeeded
  cases hp : peek readyList with
  | none => simp [peek_eq_none.mp hp]
  | some top =>
    simp only [Bool.or_eq_false_iff, decide_eq_false_iff_not, TCB.not_le]
    exact and_comm.trans (and_congr_right fun _ => ⟨fun h t ht =>
      TCB.lt_of_le_of_lt (le_of_peek hp ht) h, fun h => h top (peek_mem hp)⟩)

/-- Where the heap is not empty whenever the current thread is dead, the code's
    decision is the spec's. -/
theorem scheduleNeeded_eq_spec {readyList : List TCB} {currentThread : TCB}
    (h : currentThread.isDead = true → readyList ≠ []) :
    scheduleNeeded readyList currentThread = specScheduleNeeded readyList currentThread := by
  unfold scheduleNeeded specScheduleNeeded
  cases hp : peek readyList with
  | none =>
    cases hd : currentThread.isDead
    · rfl
    · exact absurd (peek_eq_none.mp hp) (h hd)
  | some top => rfl

end Outcomes

/-! ### Reachable states -/

/-- The steps of one CPU: a new live thread with an id of its own is pushed onto
    `READY_LIST`, the current thread other than the idle thread exits, or the CPU
    schedules. -/
inductive Step (idleId : Nat) : Scheduler → Scheduler → Prop
  | spawn {s : Scheduler} (t : TCB) : t.isDead = false →
    t.id ∉ (s.currentThread :: s.readyList).map TCB.id →
    Step idleId s { s with readyList := push t s.readyList }
  | exit {s : Scheduler} : s.currentThread.id ≠ idleId →
    Step idleId s { s with currentThread := s.currentThread.setDead }
  | schedule {s s' : Scheduler} {dropped : Option TCB} : scheduleNextThread s = some (s', dropped) →
    Step idleId s s'

/-- The states one CPU reaches from `init` by steps. -/
inductive Reachable (idle : TCB) : Scheduler → Prop
  | init : Reachable idle (init idle)
  | step {s s' : Scheduler} : Reachable idle s → Step idle.id s s' → Reachable idle s'

/-- The invariant of every reachable state. -/
structure Inv (idleId : Nat) (s : Scheduler) : Prop where
  oldThread_eq_none : s.oldThread = none
  idle_mem : ∃ t ∈ s.currentThread :: s.readyList, t.id = idleId ∧ t.isDead = false
  nodup : ((s.currentThread :: s.readyList).map TCB.id).Nodup
  ready_live : ∀ t ∈ s.readyList, t.isDead = false

section Inv

variable {idleId : Nat} {s : Scheduler}

theorem Inv.init {idle : TCB} (h : idle.isDead = false) : Inv idle.id (init idle) :=
  ⟨rfl, ⟨idle, List.mem_singleton_self _, rfl, h⟩, by simp [Scheduler.init], by simp [Scheduler.init]⟩

/-- A dead current thread is never the idle thread, so the heap holds it. -/
theorem Inv.readyList_ne_nil (h : Inv idleId s) (hd : s.currentThread.isDead = true) :
    s.readyList ≠ [] := by
  obtain ⟨t, ht, -, hl⟩ := h.idle_mem
  rcases List.mem_cons.mp ht with rfl | ht
  · simp [hd] at hl
  · exact List.ne_nil_of_mem ht

/-- When the code decides to switch, the heap has a thread to pop. -/
theorem Inv.exists_peek (h : Inv idleId s) (hn : scheduleNeeded s.readyList s.currentThread = true) :
    ∃ next, peek s.readyList = some next := by
  refine Option.ne_none_iff_exists'.mp fun hp => ?_
  have he := peek_eq_none.mp hp
  cases hd : s.currentThread.isDead
  · simp [scheduleNeeded, hd, he, peek] at hn
  · exact h.readyList_ne_nil hd he

theorem Inv.scheduleNextThread_isSome (h : Inv idleId s) : (scheduleNextThread s).isSome := by
  cases hn : scheduleNeeded s.readyList s.currentThread
  · simp [scheduleNextThread_of_not_needed h.oldThread_eq_none hn]
  · obtain ⟨next, hp⟩ := h.exists_peek hn
    rw [scheduleNextThread_of_needed h.oldThread_eq_none hn (pop_eq_some.mpr ⟨hp, rfl⟩)]
    split <;> rfl

theorem Inv.spawn (h : Inv idleId s) {t : TCB} (hl : t.isDead = false)
    (hid : t.id ∉ (s.currentThread :: s.readyList).map TCB.id) :
    Inv idleId { s with readyList := push t s.readyList } := by
  obtain ⟨h₀, ⟨u, hu, hidle⟩, hnd, hr⟩ := h
  refine ⟨h₀, ⟨u, ?_, hidle⟩, ?_, ?_⟩
  · simp only [push, List.mem_cons] at hu ⊢; tauto
  · simp only [push, List.map_cons] at hnd hid ⊢
    exact (List.nodup_cons.mpr ⟨hid, hnd⟩).perm (List.Perm.swap _ _ _)
  · simp only [push, List.forall_mem_cons]; exact ⟨hl, hr⟩

theorem Inv.exit (h : Inv idleId s) (hc : s.currentThread.id ≠ idleId) :
    Inv idleId { s with currentThread := s.currentThread.setDead } := by
  obtain ⟨h₀, ⟨u, hu, hidle⟩, hnd, hr⟩ := h
  refine ⟨h₀, ⟨u, ?_, hidle⟩, by simpa using hnd, hr⟩
  rcases List.mem_cons.mp hu with rfl | hu
  · exact absurd hidle.1 hc
  · exact List.mem_cons_of_mem _ hu

/-- The ids after a switch to `next`: those before, with the old current thread's
    left out when it is dropped. -/
theorem Inv.nodup_switch (h : Inv idleId s) {next : TCB} (hm : next ∈ s.readyList) :
    ((next.setRunning :: s.readyList.erase next).map TCB.id).Nodup ∧
      ((next.setRunning :: s.currentThread.setReady :: s.readyList.erase next).map TCB.id).Nodup := by
  have hp : ((s.currentThread :: s.readyList).map TCB.id).Perm
      ((next :: s.currentThread :: s.readyList.erase next).map TCB.id) :=
    (((List.perm_cons_erase hm).cons _).trans (List.Perm.swap _ _ _)).map _
  have hnd := hp.nodup_iff.mp h.nodup
  refine ⟨?_, by simpa using hnd⟩
  simp only [List.map_cons, TCB.id_setRunning] at hnd ⊢
  exact hnd.sublist ((List.sublist_cons_self _ _).cons₂ _)

theorem Inv.schedule (h : Inv idleId s) {s' : Scheduler} {dropped : Option TCB}
    (hs : scheduleNextThread s = some (s', dropped)) : Inv idleId s' := by
  cases hn : scheduleNeeded s.readyList s.currentThread
  · rw [scheduleNextThread_of_not_needed h.oldThread_eq_none hn] at hs
    cases hs; exact h
  obtain ⟨next, hp⟩ := h.exists_peek hn
  have hm := peek_mem hp
  have hnd := h.nodup_switch hm
  rw [scheduleNextThread_of_needed h.oldThread_eq_none hn (pop_eq_some.mpr ⟨hp, rfl⟩)] at hs
  obtain ⟨-, ⟨u, hu, hidle⟩, -, hr⟩ := h
  -- The idle thread is the new current thread, stays ready, or is the old current one.
  have hidle' : u = s.currentThread ∨ u = next ∨ u ∈ s.readyList.erase next := by
    rcases List.mem_cons.mp hu with rfl | hu
    · exact .inl rfl
    · by_cases hun : u = next
      · exact .inr (.inl hun)
      · exact .inr (.inr ((List.mem_erase_of_ne hun).mpr hu))
  have hr' : ∀ t ∈ s.readyList.erase next, t.isDead = false := fun t ht => hr t (List.mem_of_mem_erase ht)
  split at hs <;> cases hs
  · rename_i hd
    refine ⟨rfl, ?_, hnd.1, hr'⟩
    rcases hidle' with rfl | rfl | hu
    · simp [hd] at hidle
    · exact ⟨_, List.mem_cons_self _ _, hidle.1, rfl⟩
    · exact ⟨u, List.mem_cons_of_mem _ hu, hidle⟩
  · rename_i hd
    refine ⟨rfl, ?_, hnd.2, ?_⟩
    · rcases hidle' with rfl | rfl | hu
      · exact ⟨_, List.mem_cons_of_mem _ (List.mem_cons_self _ _), hidle.1, rfl⟩
      · exact ⟨_, List.mem_cons_self _ _, hidle.1, rfl⟩
      · exact ⟨u, List.mem_cons_of_mem _ (List.mem_cons_of_mem _ hu), hidle⟩
    · simp only [push, List.forall_mem_cons, TCB.isDead_setReady]; exact ⟨trivial, hr'⟩

theorem Inv.step (h : Inv idleId s) {s' : Scheduler} (hs : Step idleId s s') : Inv idleId s' := by
  cases hs with
  | spawn t hl hid => exact h.spawn hl hid
  | exit hc => exact h.exit hc
  | schedule hs => exact h.schedule hs

end Inv

theorem Reachable.inv {idle : TCB} (hidle : idle.isDead = false) {s : Scheduler}
    (h : Reachable idle s) : Inv idle.id s := by
  induction h with
  | init => exact Inv.init hidle
  | step _ hs ih => exact ih.step hs

/-- In every state reachable from `init`, by any interleaving of new threads,
    exits and scheduling steps, the invariant holds: `OLD_THREAD` is empty, the
    idle thread is alive and current or ready, the ids of the current and the
    ready threads are distinct, and no ready thread is dead. So
    `debug_assert!(OLD_THREAD.is_none())` holds, the code never pops an empty
    heap, it decides as the spec's rule does, and `schedule_next_thread` does not
    panic. -/
theorem reachable_inv (idle : TCB) (hidle : idle.isDead = false) (s : Scheduler)
    (h : Reachable idle s) :
    Inv idle.id s ∧ (scheduleNeeded s.readyList s.currentThread = true → s.readyList ≠ []) ∧
      scheduleNeeded s.readyList s.currentThread = specScheduleNeeded s.readyList s.currentThread ∧
      (scheduleNextThread s).isSome := by
  have hi := h.inv hidle
  refine ⟨hi, fun hn he => ?_, scheduleNeeded_eq_spec hi.readyList_ne_nil,
    hi.scheduleNextThread_isSome⟩
  obtain ⟨_, hp⟩ := hi.exists_peek hn
  simp [he, peek] at hp

/-- After boot a thread of priority 5 is spawned, scheduled, and exits: it is the
    dead current thread, and the idle thread waits ready. -/
theorem reachable_inv_exited :
    let idle : TCB := ⟨0, 0, 0, .Running, ⟨0, 0, 0, 0, .KernelOnly⟩, none⟩
    let t : TCB := ⟨1, 1, 5, .Ready, ⟨0, 0, 0, 0, .KernelOnly⟩, none⟩
    let s : Scheduler := ⟨[idle.setReady], t.setRunning.setDead, none⟩
    idle.isDead = false ∧ Reachable idle s ∧ s.currentThread.isDead = true ∧
      Inv idle.id s ∧ (scheduleNeeded s.readyList s.currentThread = true → s.readyList ≠ []) ∧
      scheduleNeeded s.readyList s.currentThread = specScheduleNeeded s.readyList s.currentThread ∧
      (scheduleNextThread s).isSome := by
  intro idle t s
  have h : Reachable idle s :=
    .step (.step (.step .init (.spawn t rfl (by decide))) (.schedule rfl)) (.exit (by decide))
  exact ⟨rfl, h, rfl, reachable_inv idle rfl s h⟩

/-! ### One scheduling step -/

/-- Modelled from the spec: what one scheduling step from `READY_LIST` `R` and
    `CURRENT_THREAD` `c` is to do, with `s'` the state after it and `dropped` the
    thread it drops. If `c` is alive and greater than every thread of `R`, nothing
    changes. Otherwise the new current thread is a greatest thread of `R`, not `c`,
    marked running; the new `READY_LIST` is `R` without it and with `c` marked
    ready when `c` is alive, and a dead `c` is dropped. In both cases `OLD_THREAD`
    is empty again, the new current thread is at least every ready one, and a
    switch away from a live `c` is to a thread of at least its priority. -/
structure StepSpec (s s' : Scheduler) (dropped : Option TCB) : Prop where
  oldThread_eq_none : s'.oldThread = none
  stay : (s.currentThread.isDead = false ∧ ∀ t ∈ s.readyList, t < s.currentThread) →
    s' = s ∧ dropped = none
  switch : ¬(s.currentThread.isDead = false ∧ ∀ t ∈ s.readyList, t < s.currentThread) →
    ∃ next ∈ s.readyList, (∀ t ∈ s.readyList, t ≤ next) ∧ next.id ≠ s.currentThread.id ∧
      s'.currentThread = next.setRunning ∧
      s'.readyList = (if s.currentThread.isDead then [] else [s.currentThread.setReady]) ++
        s.readyList.erase next ∧
      dropped = if s.currentThread.isDead then some s.currentThread else none
  le_current : ∀ t ∈ s'.readyList, t ≤ s'.currentThread
  priority_le : s.currentThread.isDead = false → s'.currentThread.id ≠ s.currentThread.id →
    s.currentThread.priority ≤ s'.currentThread.priority

/-- From every reachable state, `schedule_next_thread` with its
    `after_context_switch` completes and does what `StepSpec` says. -/
theorem reachable_scheduleNextThread (idle : TCB) (hidle : idle.isDead = false) (s : Scheduler)
    (h : Reachable idle s) :
    ∃ s' dropped, scheduleNextThread s = some (s', dropped) ∧ StepSpec s s' dropped := by
  have hi := h.inv hidle
  cases hn : scheduleNeeded s.readyList s.currentThread
  · -- No switch: the current thread is alive and greater than every ready one.
    obtain ⟨hl, hlt⟩ := scheduleNeeded_eq_false.mp hn
    exact ⟨s, none, scheduleNextThread_of_not_needed hi.oldThread_eq_none hn,
      hi.oldThread_eq_none, fun _ => ⟨rfl, rfl⟩, fun hc => absurd ⟨hl, hlt⟩ hc,
      fun t ht => TCB.le_of_lt (hlt t ht), fun _ hid => absurd rfl hid⟩
  · -- A switch to the greatest ready thread.
    have hsw : ¬(s.currentThread.isDead = false ∧ ∀ t ∈ s.readyList, t < s.currentThread) :=
      fun hc => by simp [scheduleNeeded_eq_false.mpr hc] at hn
    obtain ⟨next, hp⟩ := hi.exists_peek hn
    have hm := peek_mem hp
    have hid : next.id ≠ s.currentThread.id := fun he =>
      (List.nodup_cons.mp hi.nodup).1 (he ▸ List.mem_map_of_mem _ hm)
    have hrest : ∀ t ∈ s.readyList.erase next, t ≤ next.setRunning := fun t ht => by
      simpa using le_of_peek hp (List.mem_of_mem_erase ht)
    rw [scheduleNextThread_of_needed hi.oldThread_eq_none hn (pop_eq_some.mpr ⟨hp, rfl⟩)]
    cases hd : s.currentThread.isDead
    · -- A live current thread is at most the thread switched to.
      have hle : s.currentThread ≤ next := by simpa [scheduleNeeded, hp, hd] using hn
      refine ⟨_, _, rfl, rfl, fun hc => absurd hc hsw, fun _ => ⟨next, hm,
        fun t ht => le_of_peek hp ht, hid, rfl, by simp [hd, push], by simp [hd]⟩, ?_,
        fun _ _ => by simpa using TCB.priority_le_of_le hle⟩
      simp only [push, List.mem_cons, forall_eq_or_imp]
      exact ⟨by simpa using hle, hrest⟩
    · exact ⟨_, _, rfl, rfl, fun hc => absurd (hd.symm.trans hc.1) (by simp), fun _ => ⟨next, hm,
        fun t ht => le_of_peek hp ht, hid, rfl, by simp [hd], by simp [hd]⟩, hrest,
        fun hl => absurd (hd.symm.trans hl) (by simp)⟩

/-- After boot a thread of priority 5 is spawned; the next scheduling step switches
    to it and puts the idle thread back as ready. -/
theorem reachable_scheduleNextThread_spawned :
    let idle : TCB := ⟨0, 0, 0, .Running, ⟨0, 0, 0, 0, .KernelOnly⟩, none⟩
    let t : TCB := ⟨1, 1, 5, .Ready, ⟨0, 0, 0, 0, .KernelOnly⟩, none⟩
    let s : Scheduler := ⟨[t], idle, none⟩
    idle.isDead = false ∧ Reachable idle s ∧
      (scheduleNextThread s).map Prod.fst = some ⟨[idle.setReady], t.setRunning, none⟩ ∧
      ∃ s' dropped, scheduleNextThread s = some (s', dropped) ∧ StepSpec s s' dropped := by
  intro idle t s
  have h : Reachable idle s := .step .init (.spawn t rfl (by decide))
  exact ⟨rfl, h, rfl, reachable_scheduleNextThread idle rfl s h⟩

/-- A scheduling step loses and duplicates no thread: the current thread, the
    ready ones and the one dropped after it are those before it, up to the
    thread states the step sets. -/
theorem scheduleNextThread_perm {α : Type} (f : TCB → α) (hr : ∀ t, f t.setRunning = f t)
    (hy : ∀ t, f t.setReady = f t) {s s' : Scheduler} {dropped : Option TCB}
    (h₀ : s.oldThread = none) (hs : scheduleNextThread s = some (s', dropped)) :
    ((s'.currentThread :: s'.readyList ++ dropped.toList).map f).Perm
      ((s.currentThread :: s.readyList).map f) := by
  cases hn : scheduleNeeded s.readyList s.currentThread
  · rw [scheduleNextThread_of_not_needed h₀ hn] at hs
    cases hs; simp
  cases hp : peek s.readyList with
  | none => simp [scheduleNextThread, h₀, hn, pop, hp] at hs
  | some next =>
    -- The ready threads are `next` and the rest of the heap.
    have he := ((List.perm_cons_erase (peek_mem hp)).map f).symm
    rw [scheduleNextThread_of_needed h₀ hn (pop_eq_some.mpr ⟨hp, rfl⟩)] at hs
    split at hs <;> cases hs
    · simpa [hr] using (List.perm_append_singleton _ _).trans (he.cons _)
    · simpa [push, hr, hy] using (List.Perm.swap _ _ _).trans (he.cons _)

/-! ### Runs of scheduling steps -/

/-- The idle thread stays current or ready in its own process: the thread with its
    id never dies, so no step drops it. -/
theorem Reachable.exists_idle {idle : TCB} (hidle : idle.isDead = false) {s : Scheduler}
    (h : Reachable idle s) :
    ∃ t ∈ s.currentThread :: s.readyList, t.id = idle.id ∧ t.pid = idle.pid := by
  induction h with
  | init => exact ⟨idle, List.mem_singleton_self _, rfl, rfl⟩
  | step hr hs ih =>
    obtain ⟨t, ht, hid, hpid⟩ := ih
    cases hs with
    | spawn u _ _ => exact ⟨t, by simp only [push, List.mem_cons] at ht ⊢; tauto, hid, hpid⟩
    | exit hc =>
      rcases List.mem_cons.mp ht with rfl | ht
      · exact absurd hid hc
      · exact ⟨t, List.mem_cons_of_mem _ ht, hid, hpid⟩
    | @schedule _ dropped hs =>
      have hi := hr.inv hidle
      have hm := (scheduleNextThread_perm (fun t => (t.id, t.pid)) (fun _ => rfl) (fun _ => rfl)
        hi.oldThread_eq_none hs).mem_iff.mpr (List.mem_map.mpr ⟨t, ht, by rw [hid, hpid]⟩)
      obtain ⟨u, hu, he⟩ := List.mem_map.mp hm
      simp only [Prod.mk.injEq] at he
      rcases List.mem_append.mp hu with hu | hu
      · exact ⟨u, hu, he⟩
      -- The dropped thread is the dead old current thread, whose id is not the idle one's.
      cases dropped with
      | none => simp at hu
      | some d =>
        obtain rfl : u = d := by simpa using hu
        obtain ⟨rfl, hd⟩ := scheduleNextThread_dropped hi.oldThread_eq_none hs
        obtain ⟨v, hv, hvid, hvl⟩ := hi.idle_mem
        rcases List.mem_cons.mp hv with rfl | hv
        · simp [hd] at hvl
        · exact absurd (List.mem_map.mpr ⟨v, hv, hvid.trans he.1.symm⟩)
            (List.nodup_cons.mp hi.nodup).1

/-- `n` scheduling steps in a row, with no other step between them. -/
def scheduleRun : Nat → Scheduler → Option Scheduler
  | 0, s => some s
  | n + 1, s => (scheduleNextThread s).bind fun r => scheduleRun n r.1

/-- A live current thread greater than every ready thread keeps the CPU: any
    number of scheduling steps leaves the state as it is. -/
theorem scheduleRun_of_greatest {s : Scheduler} (h₀ : s.oldThread = none)
    (hl : s.currentThread.isDead = false) (hmax : ∀ t ∈ s.readyList, t < s.currentThread)
    (n : Nat) : scheduleRun n s = some s := by
  induction n with
  | zero => rfl
  | succ n ih =>
    rw [scheduleRun, scheduleNextThread_of_not_needed h₀ (scheduleNeeded_eq_false.mpr ⟨hl, hmax⟩),
      Option.some_bind, ih]

/-- Two live threads of priority 5 over the idle thread of priority 0. Once the
    one with the greater id runs, the other is less than it by the id tie-break,
    `top ≥ current` never holds, and the thread of id 1 never runs again, in any
    number of scheduling steps. -/
theorem equal_priority_thread_never_runs :
    ∃ s, Reachable ⟨0, 0, 0, .Running, ⟨0, 0, 0, 0, .KernelOnly⟩, none⟩ s ∧
      s.currentThread = (⟨2, 2, 5, .Ready, ⟨0, 0, 0, 0, .KernelOnly⟩, none⟩ : TCB).setRunning ∧
      (⟨1, 1, 5, .Ready, ⟨0, 0, 0, 0, .KernelOnly⟩, none⟩ : TCB) ∈ s.readyList ∧
      ∀ n, scheduleRun n s = some s := by
  refine ⟨⟨[⟨0, 0, 0, .Ready, ⟨0, 0, 0, 0, .KernelOnly⟩, none⟩,
      ⟨1, 1, 5, .Ready, ⟨0, 0, 0, 0, .KernelOnly⟩, none⟩],
    ⟨2, 2, 5, .Running, ⟨0, 0, 0, 0, .KernelOnly⟩, none⟩, none⟩, ?_, rfl, by simp,
    scheduleRun_of_greatest rfl rfl (by simp)⟩
  exact .step (.step (.step .init (.spawn ⟨1, 1, 5, .Ready, ⟨0, 0, 0, 0, .KernelOnly⟩, none⟩ rfl
    (by simp [Scheduler.init]))) (.spawn ⟨2, 2, 5, .Ready, ⟨0, 0, 0, 0, .KernelOnly⟩, none⟩ rfl
    (by simp [Scheduler.init, push]))) (.schedule rfl)

end Scheduler

end BoringOS
