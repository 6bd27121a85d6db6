import BoringOS.Multitasking.Scheduler

/-!
# Processes and the kernel

`PCB` of `multitasking::pcb`, and one CPU of the kernel as a whole: its scheduler,
`PROCESS_LIST`, and the kernel half of the page tables, which every address space
shares. A scheduling step of the kernel is the scheduler's, after which the thread
switched to drops a dead old thread: its stacks go through `Stack::drop`, so
through the arch `unmap_page` on the page table that is active once the switch is
done, the one of the new current thread's process.

## Main results

- `leaveProcess_eq_some_iff` — a dropped thread leaves its process: the count goes
  down, and a dead PCB whose last thread leaves is dropped
- `schedule_scheduler`, `killProcess_scheduler` — what the CPU runs next is the
  scheduler's decision alone, which `PCB::kill` does not change
- `schedule_addressSpace_of_ne` — when the thread switched to belongs to another
  process, dropping a dead thread leaves the address space of its own process as
  it was: its stack pages there stay mapped, and its teardown unmaps pages of
  the process switched to instead
-/

namespace BoringOS

/-- Represents the states a process can have. -/
inductive ProcessState where
  | Active
  | Dead
  deriving DecidableEq, Repr

/-- A process control block (PCB) holds all data required to manage a process. -/
structure PCB where
  addressSpace : AddressSpace
  threadCount : Nat
  state : ProcessState

namespace PCB

/-- `PCB::new`. -/
def new (addressSpace : AddressSpace) : PCB := ⟨addressSpace, 1, .Active⟩

/-- `PCB::idle_pcb`, with `AddressSpace::idle_address_space()` and
    `get_cpu_num()` given: the idle threads' process has one thread per CPU. -/
def idlePcb (idleAddressSpace : AddressSpace) (cpuNum : Nat) : PCB :=
  ⟨idleAddressSpace, cpuNum, .Active⟩

/-- Returns true if the process is dead. -/
def isDead (p : PCB) : Bool := p.state == .Dead

/-- Marks this process as dead. -/
def kill (p : PCB) : PCB := { p with state := .Dead }

/-- Determines if this process can be dropped. -/
def isDroppable (p : PCB) : Bool := p.threadCount == 0

end PCB

/-- One CPU of the kernel: its scheduler, `PROCESS_LIST` by process id, and the
    kernel half of the page tables, which every address space shares. -/
structure Kernel where
  scheduler : Scheduler
  processList : Nat → Option PCB
  kernelPageTable : PageTable

namespace Kernel

/-- Process `pid`, whose PCB is `pcb`, with the page table of its address space
    replaced. -/
def setPageTable (k : Kernel) (pid : Nat) (pcb : PCB) (pageTable : PageTable) : Kernel :=
  let pcb := { pcb with addressSpace := { pcb.addressSpace with pageTable } }
  { k with processList := Function.update k.processList pid (some pcb) }

/-- Modelled from the spec: the arch-level `map_page` and `unmap_page` on the
    active page table, that of process `pid`'s address space: a user address is
    looked up in the process's own page table, a kernel address in the kernel
    half. -/
def activePager (pid : Nat) : Pager Kernel where
  mapPage pageAddress flags k :=
    if isUserspaceAddress pageAddress then do
      let pcb ← k.processList pid
      let pageTable ← pcb.addressSpace.pageTable.mapPage pageAddress flags
      return k.setPageTable pid pcb pageTable
    else do
      let kernelPageTable ← k.kernelPageTable.mapPage pageAddress flags
      return { k with kernelPageTable }
  unmapPage pageAddress k :=
    if isUserspaceAddress pageAddress then do
      let pcb ← k.processList pid
      let pageTable ← pcb.addressSpace.pageTable.unmapPage pageAddress
      return k.setPageTable pid pcb pageTable
    else do
      let kernelPageTable ← k.kernelPageTable.unmapPage pageAddress
      return { k with kernelPageTable }

/-- Modelled from the spec: the stacks of a dropped thread are dropped, each by
    `Stack::drop`, on the page table active when it runs, that of process
    `active`. -/
def dropStacks (active : Nat) (t : TCB) (k : Kernel) : Option Kernel := do
  let k ← t.kernelStack.drop (activePager active) k
  match t.userStack with
  | some userStack => userStack.drop (activePager active) k
  | none => some k

/-- Modelled from the spec: a dropped thread leaves its process: the PCB's thread
    count goes down, and a dead PCB left without threads is dropped, which its
    `assert!(self.is_droppable())` lets through. -/
def leaveProcess (pid : Nat) (k : Kernel) : Option Kernel := do
  let pcb ← k.processList pid
  -- `thread_count` is a `u16`, which underflows as a `usize` does.
  let threadCount ← usizeSub pcb.threadCount 1
  let pcb := { pcb with threadCount }
  if pcb.isDroppable && pcb.isDead then
    return { k with processList := Function.update k.processList pid none }
  else
    return { k with processList := Function.update k.processList pid (some pcb) }

/-- Modelled from the spec: dropping a dead thread releases its stacks and
    leaves its process. -/
def dropThread (active : Nat) (t : TCB) (k : Kernel) : Option Kernel := do
  let k ← dropStacks active t k
  leaveProcess t.pid k

/-- A scheduling step: `schedule_next_thread`, whose `after_context_switch` drops
    a dead old thread once the switch has made the address space of the new
    current thread's process the active one. -/
def schedule (k : Kernel) : Option Kernel := do
  let (scheduler, dropped) ← k.scheduler.scheduleNextThread
  let k := { k with scheduler }
  match dropped with
  | some t => dropThread scheduler.currentThread.pid t k
  | none => return k

/-- `PCB::kill` on process `pid` of `PROCESS_LIST`, which panics with "Process not
    existing." when there is none. -/
def killProcess (pid : Nat) (k : Kernel) : Option Kernel := do
  let pcb ← k.processList pid
  return { k with processList := Function.update k.processList pid (some pcb.kill) }

/-! ### Frames -/

section Frames

variable {k k' : Kernel}

/-- A page operation on the active page table edits the page table of process
    `pid`, which is in `PROCESS_LIST`, or the kernel half, nothing else. -/
theorem activePager_cases {pid a : Nat}
    (h : (∃ f, (activePager pid).mapPage a f k = some k') ∨ (activePager pid).unmapPage a k = some k') :
    (∃ pcb pageTable, k.processList pid = some pcb ∧ k' = k.setPageTable pid pcb pageTable) ∨
      ∃ kernelPageTable, k' = { k with kernelPageTable } := by
  rcases h with ⟨f, h⟩ | h <;> simp only [activePager] at h <;> split at h <;>
    simp only [bind, Option.bind_eq_some, pure, Option.some.injEq] at h
  all_goals first
    | obtain ⟨pcb, hpcb, pt, -, rfl⟩ := h; exact .inl ⟨pcb, pt, hpcb, rfl⟩
    | obtain ⟨pt, -, rfl⟩ := h; exact .inr ⟨pt, rfl⟩

theorem activePager_keeps_scheduler (pid : Nat) : (activePager pid).Keeps scheduler := by
  refine ⟨fun a f k k' h => ?_, fun a k k' h => ?_⟩ <;>
    obtain ⟨_, _, -, rfl⟩ | ⟨_, rfl⟩ := activePager_cases (by tauto) <;> rfl

theorem activePager_keeps_processList {pid q : Nat} (hq : q ≠ pid) :
    (activePager pid).Keeps fun k => k.processList q := by
  refine ⟨fun a f k k' h => ?_, fun a k k' h => ?_⟩ <;>
    obtain ⟨_, _, -, rfl⟩ | ⟨_, rfl⟩ := activePager_cases (by tauto) <;>
    simp [setPageTable, Function.update_noteq hq]

/-- Page operations leave every process in `PROCESS_LIST` as it was but for its
    page table. -/
theorem map_setPageTable {β : Type} (f : PCB → β)
    (hf : ∀ pcb pageTable, f { pcb with addressSpace := { pcb.addressSpace with pageTable } } = f pcb)
    {pid q : Nat} {pcb : PCB} {pageTable : PageTable} (h : k.processList pid = some pcb) :
    ((k.setPageTable pid pcb pageTable).processList q).map f = (k.processList q).map f := by
  by_cases hq : q = pid
  · subst hq; simp [setPageTable, h, hf]
  · simp [setPageTable, Function.update_noteq hq]

theorem activePager_keeps_map {β : Type} (f : PCB → β)
    (hf : ∀ pcb pageTable, f { pcb with addressSpace := { pcb.addressSpace with pageTable } } = f pcb)
    (pid q : Nat) : (activePager pid).Keeps fun k => (k.processList q).map f := by
  refine ⟨fun a fl k k' h => ?_, fun a k k' h => ?_⟩ <;>
    obtain ⟨_, _, hpcb, rfl⟩ | ⟨_, rfl⟩ := activePager_cases (by tauto)
  all_goals first | exact map_setPageTable f hf hpcb | rfl

theorem activePager_keeps_threadCount (pid q : Nat) :
    (activePager pid).Keeps fun k => (k.processList q).map PCB.threadCount :=
  activePager_keeps_map PCB.threadCount (fun _ _ => rfl) pid q

theorem dropStacks_keeps {β : Type} {g : Kernel → β} {active : Nat} {t : TCB}
    (hg : (activePager active).Keeps g) (h : dropStacks active t k = some k') : g k' = g k := by
  obtain ⟨k₁, h₁, h⟩ := Option.bind_eq_some.mp h
  rw [← Stack.drop_keeps hg h₁]
  split at h
  · exact Stack.drop_keeps hg h
  · cases h; rfl

/-- Leaving a process takes a thread off its PCB's count, which must be positive,
    and drops a dead PCB whose last thread leaves. -/
theorem leaveProcess_eq_some_iff {pid : Nat} :
    leaveProcess pid k = some k' ↔ ∃ pcb, k.processList pid = some pcb ∧ 0 < pcb.threadCount ∧
      let entry := if pcb.threadCount = 1 ∧ pcb.isDead then none
        else some { pcb with threadCount := pcb.threadCount - 1 }
      k' = { k with processList := Function.update k.processList pid entry } := by
  cases hp : k.processList pid with
  | none => simp [leaveProcess, hp]
  | some pcb =>
    -- The code tests the PCB after the decrement, which underflows at zero.
    cases hc : pcb.threadCount with
    | zero => simp [leaveProcess, hp, hc, usizeSub]
    | succ n =>
      simp [leaveProcess, hp, hc, usizeSub, PCB.isDroppable, PCB.isDead]
      split <;> simp only [Option.some.injEq, eq_comm]

/-- Leaving a process removes a PCB exactly when it is that process's, the process
    is dead, and the thread leaving was its last. -/
theorem leaveProcess_removes_iff {pid q : Nat} (h : leaveProcess pid k = some k') :
    (k.processList q).isSome ∧ k'.processList q = none ↔
      q = pid ∧ ∃ pcb, k.processList pid = some pcb ∧ pcb.threadCount = 1 ∧ pcb.isDead = true := by
  obtain ⟨pcb, hpcb, -, rfl⟩ := leaveProcess_eq_some_iff.mp h
  by_cases hq : q = pid
  · subst hq
    simp only [hpcb, Function.update_same, Option.isSome_some, true_and, Option.some.injEq,
      exists_eq_left']
    split <;> simp_all
  · simp only [Function.update_noteq hq, hq, false_and, iff_false, not_and]
    exact fun h₁ h₂ => by simp [h₂] at h₁

/-- Leaving a process changes nothing but that process's PCB, whose address space
    it keeps. -/
theorem leaveProcess_eq_some {pid : Nat} (h : leaveProcess pid k = some k') :
    k'.scheduler = k.scheduler ∧ (∀ q, q ≠ pid → k'.processList q = k.processList q) ∧
      ∃ pcb, k.processList pid = some pcb ∧ 0 < pcb.threadCount ∧
        ∀ pcb', k'.processList pid = some pcb' → pcb'.addressSpace = pcb.addressSpace := by
  obtain ⟨pcb, hpcb, hpos, rfl⟩ := leaveProcess_eq_some_iff.mp h
  refine ⟨rfl, fun q hq => Function.update_noteq hq _ _, pcb, hpcb, hpos, fun pcb' h' => ?_⟩
  simp only [Function.update_same] at h'
  split at h' <;> cases h'; rfl

theorem dropThread_scheduler {active : Nat} {t : TCB} (h : dropThread active t k = some k') :
    k'.scheduler = k.scheduler := by
  obtain ⟨k₁, h₁, h⟩ := Option.bind_eq_some.mp h
  rw [(leaveProcess_eq_some h).1, dropStacks_keeps (activePager_keeps_scheduler active) h₁]

/-- When the active page table is another process's, dropping a thread keeps the
    address space of the thread's own process. -/
theorem dropThread_addressSpace_of_ne {active : Nat} {t : TCB} (hne : t.pid ≠ active)
    (h : dropThread active t k = some k') {pcb' : PCB} (h' : k'.processList t.pid = some pcb') :
    ∃ pcb, k.processList t.pid = some pcb ∧ pcb'.addressSpace = pcb.addressSpace := by
  obtain ⟨k₁, h₁, h⟩ := Option.bind_eq_some.mp h
  obtain ⟨-, -, pcb, hpcb, -, has⟩ := leaveProcess_eq_some h
  refine ⟨pcb, ?_, has pcb' h'⟩
  rw [← dropStacks_keeps (activePager_keeps_processList hne) h₁]; exact hpcb

/-- What the CPU runs after a scheduling step is the scheduler's decision, whatever
    the states of the processes. -/
theorem schedule_scheduler (h : k.schedule = some k') :
    ∃ dropped, k.scheduler.scheduleNextThread = some (k'.scheduler, dropped) := by
  obtain ⟨⟨s, d⟩, hs, h⟩ := Option.bind_eq_some.mp h
  refine ⟨d, ?_⟩
  cases d with
  | none => cases h; exact hs
  | some t => rw [dropThread_scheduler h]; exact hs

theorem killProcess_scheduler {pid : Nat} (h : killProcess pid k = some k') :
    k'.scheduler = k.scheduler := by
  obtain ⟨_, -, h⟩ := Option.bind_eq_some.mp h
  cases h; rfl

/-- A scheduling step that drops a dead thread and switches to a thread of another
    process keeps the address space of the dead thread's process: none of the
    dead thread's stack pages in it is unmapped. -/
theorem schedule_addressSpace_of_ne (h : k.schedule = some k')
    (hd : k.scheduler.currentThread.isDead = true)
    (hne : k.scheduler.currentThread.pid ≠ k'.scheduler.currentThread.pid) {pcb' : PCB}
    (h' : k'.processList k.scheduler.currentThread.pid = some pcb') :
    ∃ pcb, k.processList k.scheduler.currentThread.pid = some pcb ∧
      pcb'.addressSpace = pcb.addressSpace := by
  obtain ⟨⟨s, d⟩, hs, h⟩ := Option.bind_eq_some.mp h
  have hd' : d = some k.scheduler.currentThread := by
    unfold Scheduler.scheduleNextThread at hs
    split at hs
    · cases hs
    split at hs
    · obtain ⟨⟨next, rest⟩, -, hs⟩ := Option.bind_eq_some.mp hs
      simp only [pure, Option.some.injEq, Scheduler.afterContextSwitch, hd, if_true] at hs
      exact (Prod.mk.inj hs).2.symm
    · simp [Scheduler.scheduleNeeded, hd] at *
  subst hd'
  have hsch := dropThread_scheduler h
  exact dropThread_addressSpace_of_ne (by rw [hsch] at hne; exact hne) h h'

/-- Processes 1 and 2 each have a thread with a user stack in the first user-stack
    slot, one page in use and mapped in the process's own address space, and the
    dead thread of process 1 has one kernel-stack page mapped. The scheduling step
    switches to the thread of process 2, and process 1 keeps its address space. -/
theorem schedule_addressSpace_of_ne_otherProcess :
    ∃ userStack as, Stack.newIn 0x1000 userStackMaxSize userStackAreaBase .UserAccessible
        AddressSpace.empty = some (userStack, as) ∧
      as.pageTable (pageNum (userStackAreaBase + userStackMaxSize) - 1) =
        some (Stack.pageFlags .UserAccessible) ∧
      let kernelTop := kernelStackAreaBase + kernelStackMaxSize
      let dead : TCB := ⟨1, 1, 5, .Dead,
        ⟨kernelTop, kernelTop - 0x1000, kernelStackMaxSize, kernelTop, .KernelOnly⟩, some userStack⟩
      let next : TCB := ⟨2, 2, 5, .Ready, ⟨0, 0, 0, 0, .KernelOnly⟩, some userStack⟩
      let idle : TCB := ⟨0, 0, 0, .Ready, ⟨0, 0, 0, 0, .KernelOnly⟩, none⟩
      let k : Kernel := ⟨⟨[next, idle], dead, none⟩,
        fun pid => if pid = 0 then some (PCB.new AddressSpace.empty)
          else if pid ≤ 2 then some (PCB.new as) else none,
        Function.update (fun _ => none) (pageNum kernelTop - 1) (some (Stack.pageFlags .KernelOnly))⟩
      ∃ k' pcb', k.schedule = some k' ∧ k.scheduler.currentThread.isDead = true ∧
        k.scheduler.currentThread.pid ≠ k'.scheduler.currentThread.pid ∧
        k'.processList k.scheduler.currentThread.pid = some pcb' ∧
        ∃ pcb, k.processList k.scheduler.currentThread.pid = some pcb ∧
          pcb'.addressSpace = pcb.addressSpace := by
  refine ⟨_, _, rfl, by decide, ?_⟩
  intro kernelTop dead next idle k
  obtain ⟨k', hk⟩ := Option.isSome_iff_exists.mp (by decide : k.schedule.isSome = true)
  have hv : (k.schedule.map fun k' => (k'.scheduler.currentThread.pid, (k'.processList 1).isSome)) =
      some (2, true) := by decide
  simp only [hk, Option.map_some', Option.some.injEq, Prod.mk.injEq] at hv
  obtain ⟨pcb', hp⟩ := Option.isSome_iff_exists.mp hv.2
  have hne : k.scheduler.currentThread.pid ≠ k'.scheduler.currentThread.pid := by
    rw [hv.1]; decide
  exact ⟨k', pcb', hk, rfl, hne, hp, schedule_addressSpace_of_ne hk rfl hne hp⟩

end Frames

/-! ### Runs -/

/-- Process 1 has one ready thread of priority 5 while the idle thread of process
    0 runs. After `PCB::kill` on process 1, the next scheduling step dispatches
    that thread and marks it running, and every scheduling step after that leaves
    it running. -/
theorem killed_process_thread_runs :
    let idle : TCB := ⟨0, 0, 0, .Running, ⟨0, 0, 0, 0, .KernelOnly⟩, none⟩
    let t : TCB := ⟨1, 1, 5, .Ready, ⟨0, 0, 0, 0, .KernelOnly⟩, none⟩
    let k : Kernel := ⟨⟨[t], idle, none⟩,
      fun pid => if pid ≤ 1 then some (PCB.new AddressSpace.empty) else none, fun _ => none⟩
    ∃ k₁ k₂, killProcess 1 k = some k₁ ∧ (k₁.processList 1).map PCB.isDead = some true ∧
      k₁.schedule = some k₂ ∧ k₂.scheduler.currentThread = t.setRunning ∧
      (k₂.processList 1).map PCB.isDead = some true ∧ k₂.schedule = some k₂ := by
  intro idle t k
  exact ⟨_, _, rfl, rfl, rfl, rfl, rfl, rfl⟩

/-- Processes 1 and 2 each have a thread with a user stack in the first user-stack
    slot, one page in use and mapped in the process's own address space, as
    `Stack::new` builds it. The thread of process 1 has exited, and its kernel
    stack has one page in the kernel half. The scheduling step switches to the
    thread of process 2 and drops the dead thread: its kernel stack page is
    unmapped from the kernel half, but its user stack is torn down in the active
    address space, that of process 2, whose page is unmapped, while process 1 keeps
    its page mapped. Stacks that play no part are left empty. -/
theorem dead_thread_stack_unmapped_in_successor_space :
    ∃ userStack as, Stack.newIn 0x1000 userStackMaxSize userStackAreaBase .UserAccessible
        AddressSpace.empty = some (userStack, as) ∧
      as.pageTable (pageNum (userStackAreaBase + userStackMaxSize) - 1) =
        some (Stack.pageFlags .UserAccessible) ∧
      let kernelTop := kernelStackAreaBase + kernelStackMaxSize
      let kernelStack : Stack :=
        ⟨kernelTop, kernelTop - 0x1000, kernelStackMaxSize, kernelTop, .KernelOnly⟩
      let dead : TCB := ⟨1, 1, 5, .Dead, kernelStack, some userStack⟩
      let next : TCB := ⟨2, 2, 5, .Ready, ⟨0, 0, 0, 0, .KernelOnly⟩, some userStack⟩
      let idle : TCB := ⟨0, 0, 0, .Ready, ⟨0, 0, 0, 0, .KernelOnly⟩, none⟩
      let k : Kernel := ⟨⟨[next, idle], dead, none⟩,
        fun pid => if pid = 0 then some (PCB.new AddressSpace.empty)
          else if pid ≤ 2 then some (PCB.new as) else none,
        Function.update (fun _ => none) (pageNum kernelTop - 1) (some (Stack.pageFlags .KernelOnly))⟩
      k.schedule.map (fun k' => (k'.scheduler.currentThread.pid,
        k'.kernelPageTable (pageNum kernelTop - 1),
        (k'.processList 2).map (·.addressSpace.pageTable (pageNum (userStackAreaBase + userStackMaxSize) - 1)),
        (k'.processList 1).map (·.addressSpace.pageTable (pageNum (userStackAreaBase + userStackMaxSize) - 1)))) =
      some (2, none, some none, some (some (Stack.pageFlags .UserAccessible))) :=
  ⟨_, _, rfl, by decide, by decide⟩

end Kernel

end BoringOS
