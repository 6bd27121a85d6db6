import BoringOS.Multitasking.Process

/-!
# Threads and processes over whole runs

One CPU of the kernel from boot on, under every interleaving of new threads, in
a new process or an existing one, exits, `PCB::kill` and scheduling steps.
`PCB::thread_count` is "the amount of currently existing threads within this
process": every step keeps it so (`ProcessInv`), and every such thread has its
PCB in `PROCESS_LIST`.

## Main results

- `Kernel.reachable_processInv` — every reachable state has the counts right
- `Kernel.reachable_schedule_eq_none_iff` — a scheduling step panics exactly when
  the teardown of the dropped thread's stacks does
- `Kernel.reachable_schedule_removes_iff` — a PCB goes exactly after the last
  thread of a dead process

## Design notes

A thread counts from its creation until the scheduling step that drops it. The
other CPUs are taken to run their idle threads throughout (`otherCpuThreads`).
Creating threads and processes is not part of the sources: `Kernel.Step` admits
any live thread with an id of its own.
-/

namespace BoringOS

/-- The processes of the current and the ready threads, one entry per thread. -/
def Scheduler.pids (s : Scheduler) : List Nat := (s.currentThread :: s.readyList).map TCB.pid

/-- Every PCB of `PROCESS_LIST` counts the threads of its process among `pids` and
    the `others pid` that the other CPUs hold, and every process with a thread has
    its PCB. -/
structure ProcessInv (processList : Nat → Option PCB) (pids : List Nat) (others : Nat → Nat) :
    Prop where
  threadCount_eq : ∀ pid pcb, processList pid = some pcb →
    pcb.threadCount = pids.count pid + others pid
  isSome_of_pos : ∀ pid, 0 < pids.count pid + others pid → (processList pid).isSome

namespace ProcessInv

variable {processList processList' : Nat → Option PCB} {pids pids' : List Nat} {others : Nat → Nat}

theorem isSome_of_mem (h : ProcessInv processList pids others) {pid : Nat} (hm : pid ∈ pids) :
    (processList pid).isSome :=
  h.isSome_of_pos pid (by have := List.count_pos_iff.mpr hm; omega)

/-- The invariant depends only on the counts of `PROCESS_LIST` and on the
    threads up to order. -/
theorem congr (h : ProcessInv processList pids others)
    (hc : ∀ q, (processList' q).map PCB.threadCount = (processList q).map PCB.threadCount)
    (hp : pids'.Perm pids) : ProcessInv processList' pids' others := by
  refine ⟨fun pid pcb' h' => ?_, fun pid hpos => ?_⟩
  · obtain ⟨pcb, hpcb, he⟩ := Option.map_eq_some'.mp ((hc pid).symm.trans (by rw [h']; rfl))
    rw [← he, h.threadCount_eq pid pcb hpcb, hp.count_eq]
  · have he := congrArg Option.isSome (hc pid)
    simp only [Option.isSome_map'] at he
    exact he ▸ h.isSome_of_pos pid (hp.count_eq pid ▸ hpos)

/-- A step that changes the threads and the PCB of process `pid` only keeps the
    invariant when it keeps it at `pid`. -/
theorem update (h : ProcessInv processList pids others) {pid : Nat}
    (hq : ∀ q, q ≠ pid → processList' q = processList q ∧ pids'.count q = pids.count q)
    (hcount : ∀ pcb, processList' pid = some pcb → pcb.threadCount = pids'.count pid + others pid)
    (hsome : 0 < pids'.count pid + others pid → (processList' pid).isSome) :
    ProcessInv processList' pids' others := by
  refine ⟨fun q pcb hpcb => ?_, fun q hpos => ?_⟩ <;> by_cases hqp : q = pid
  · subst hqp; exact hcount pcb hpcb
  · rw [(hq q hqp).1] at hpcb
    rw [h.threadCount_eq q pcb hpcb, (hq q hqp).2]
  · subst hqp; exact hsome hpos
  · rw [(hq q hqp).1]; exact h.isSome_of_pos q (by rwa [(hq q hqp).2] at hpos)

/-- A new thread of process `pid`, whose PCB now counts one more thread. -/
theorem cons (h : ProcessInv processList pids others) {pid : Nat} {pcb' : PCB}
    (hpid : processList' pid = some pcb') (hcount : pcb'.threadCount = pids.count pid + others pid + 1)
    (hq : ∀ q, q ≠ pid → processList' q = processList q) :
    ProcessInv processList' (pid :: pids) others := by
  refine h.update (fun q hqp => ⟨hq q hqp, List.count_cons_of_ne hqp _⟩) (fun pcb hpcb => ?_)
    (fun _ => by simp [hpid])
  rw [hpid] at hpcb; cases hpcb
  rw [hcount, List.count_cons_self]; omega

/-- The thread of process `pid` leaves it: its count goes down, and a dead PCB
    left with no thread goes. -/
theorem leave {k k' : Kernel} {pid : Nat} (h : ProcessInv k.processList (pids ++ [pid]) others)
    (hl : Kernel.leaveProcess pid k = some k') : ProcessInv k'.processList pids others := by
  obtain ⟨pcb, hpcb, -, rfl⟩ := Kernel.leaveProcess_eq_some_iff.mp hl
  have hcount : pcb.threadCount = pids.count pid + others pid + 1 := by
    have := h.threadCount_eq pid pcb hpcb
    simp only [List.count_append, List.count_singleton_self] at this; omega
  refine h.update
    (fun q hqp => ⟨Function.update_noteq hqp _ _, by simp [List.count_singleton', Ne.symm hqp]⟩)
    (fun pcb' h' => ?_) (fun hpos => ?_)
  · simp only [Function.update_same] at h'
    split at h' <;> cases h'
    simp only [hcount, Nat.add_sub_cancel]
  · -- The process still has a thread, so the PCB stays.
    simp only [Function.update_same]
    rw [if_neg (by omega)]; rfl

/-- When the threads still count the one that leaves, its PCB is there with a
    positive count, so leaving the process does not panic. -/
theorem leaveProcess_isSome {k : Kernel} {pid : Nat}
    (h : ProcessInv k.processList (pids ++ [pid]) others) : (Kernel.leaveProcess pid k).isSome := by
  obtain ⟨pcb, hpcb⟩ := Option.isSome_iff_exists.mp
    (h.isSome_of_mem (List.mem_append_right _ (List.mem_singleton_self pid)))
  have hcount := h.threadCount_eq pid pcb hpcb
  simp only [List.count_append, List.count_singleton_self] at hcount
  exact Option.isSome_iff_exists.mpr ⟨_, Kernel.leaveProcess_eq_some_iff.mpr ⟨pcb, hpcb, by omega, rfl⟩⟩

/-- The state between the scheduler's decision and the release of the dropped
    thread: the scheduler has moved on, the stacks are gone, the process not yet
    left. -/
theorem dropStacks {k k₂ : Kernel} {s' : Scheduler} {t : TCB}
    (h : ProcessInv k.processList k.scheduler.pids others)
    (hp : (s'.pids ++ [t.pid]).Perm k.scheduler.pids) {active : Nat}
    (h₂ : Kernel.dropStacks active t { k with scheduler := s' } = some k₂) :
    k₂.scheduler = s' ∧ ProcessInv k₂.processList (s'.pids ++ [t.pid]) others := by
  have hs := Kernel.dropStacks_keeps (Kernel.activePager_keeps_scheduler active) h₂
  have hc q := Kernel.dropStacks_keeps (Kernel.activePager_keeps_threadCount active q) h₂
  exact ⟨hs, h.congr hc hp⟩

/-- The threads after a scheduling step, with the one it drops. -/
theorem pids_perm {s s' : Scheduler} {dropped : Option TCB} (h₀ : s.oldThread = none)
    (hs : s.scheduleNextThread = some (s', dropped)) :
    (s'.pids ++ dropped.toList.map TCB.pid).Perm s.pids := by
  simpa [Scheduler.pids] using
    Scheduler.scheduleNextThread_perm TCB.pid TCB.pid_setRunning TCB.pid_setReady h₀ hs

/-- A scheduling step of the kernel keeps every thread count right. -/
theorem schedule {k k' : Kernel} (h : ProcessInv k.processList k.scheduler.pids others)
    (h₀ : k.scheduler.oldThread = none) (hs : k.schedule = some k') :
    ProcessInv k'.processList k'.scheduler.pids others := by
  obtain ⟨⟨s', dropped⟩, hsn, h'⟩ := Option.bind_eq_some.mp hs
  have hp := pids_perm h₀ hsn
  cases dropped with
  | none => cases h'; exact h.congr (fun _ => rfl) (by simpa using hp)
  | some t =>
    obtain ⟨k₂, h₂, hl⟩ := Option.bind_eq_some.mp h'
    obtain ⟨hs₂, hi₂⟩ := h.dropStacks (by simpa using hp) h₂
    rw [(Kernel.leaveProcess_eq_some hl).1, hs₂]
    exact hi₂.leave hl

end ProcessInv

namespace Kernel

/-- Modelled from the spec: the kernel after boot on one of `cpuNum` CPUs, which
    runs its idle thread; the idle PCB of `PCB::idle_pcb` counts one thread per
    CPU. -/
def init (idle : TCB) (idleAddressSpace : AddressSpace) (cpuNum : Nat) (kernelPageTable : PageTable) :
    Kernel :=
  ⟨Scheduler.init idle,
    Function.update (fun _ => none) idle.pid (some (PCB.idlePcb idleAddressSpace cpuNum)),
    kernelPageTable⟩

/-- The threads of each process that the other CPUs hold: their idle threads. -/
def otherCpuThreads (idle : TCB) (cpuNum pid : Nat) : Nat :=
  if pid = idle.pid then cpuNum - 1 else 0

/-- Modelled from the spec: the steps of one CPU of the kernel. A new live thread
    with an id of its own is pushed onto `READY_LIST`, as the first thread of a new
    PCB or as one more thread of an existing one; the current thread other than the
    idle thread exits; `PCB::kill` marks a process dead; or the CPU schedules. -/
inductive Step (idleId : Nat) : Kernel → Kernel → Prop
  | spawnProcess {k : Kernel} (t : TCB) (addressSpace : AddressSpace) : t.isDead = false →
    t.id ∉ (k.scheduler.currentThread :: k.scheduler.readyList).map TCB.id →
    k.processList t.pid = none →
    Step idleId k ⟨{ k.scheduler with readyList := push t k.scheduler.readyList },
      Function.update k.processList t.pid (some (PCB.new addressSpace)), k.kernelPageTable⟩
  | spawnThread {k : Kernel} (t : TCB) {pcb : PCB} : t.isDead = false →
    t.id ∉ (k.scheduler.currentThread :: k.scheduler.readyList).map TCB.id →
    k.processList t.pid = some pcb →
    Step idleId k ⟨{ k.scheduler with readyList := push t k.scheduler.readyList },
      Function.update k.processList t.pid (some { pcb with threadCount := pcb.threadCount + 1 }),
      k.kernelPageTable⟩
  | exit {k : Kernel} : k.scheduler.currentThread.id ≠ idleId →
    Step idleId k { k with scheduler := { k.scheduler with currentThread := k.scheduler.currentThread.setDead } }
  | kill {k k' : Kernel} (pid : Nat) : killProcess pid k = some k' → Step idleId k k'
  | schedule {k k' : Kernel} : k.schedule = some k' → Step idleId k k'

/-- The states of one of `cpuNum` CPUs of the kernel from boot on. -/
inductive Reachable (idle : TCB) (cpuNum : Nat) : Kernel → Prop
  | init (idleAddressSpace : AddressSpace) (kernelPageTable : PageTable) :
    Reachable idle cpuNum (init idle idleAddressSpace cpuNum kernelPageTable)
  | step {k k' : Kernel} : Reachable idle cpuNum k → Step idle.id k k' → Reachable idle cpuNum k'

/-- `PCB::kill` leaves every thread count as it is. -/
theorem killProcess_threadCount {k k' : Kernel} {pid : Nat} (h : killProcess pid k = some k') (q : Nat) :
    (k'.processList q).map PCB.threadCount = (k.processList q).map PCB.threadCount := by
  obtain ⟨pcb, hpcb, h⟩ := Option.bind_eq_some.mp h
  cases h
  by_cases hq : q = pid
  · subst hq; simp [hpcb, PCB.kill]
  · simp [Function.update_noteq hq]

/-- The kernel's scheduler only takes the scheduler's own steps. -/
theorem Reachable.scheduler {idle : TCB} {cpuNum : Nat} {k : Kernel} (h : Reachable idle cpuNum k) :
    Scheduler.Reachable idle k.scheduler := by
  induction h with
  | init => exact .init
  | step _ hs ih =>
    cases hs with
    | spawnProcess t _ hl hid => exact .step ih (.spawn t hl hid)
    | spawnThread t hl hid => exact .step ih (.spawn t hl hid)
    | exit hc => exact .step ih (.exit hc)
    | kill pid hk => rwa [killProcess_scheduler hk]
    | schedule hk =>
      obtain ⟨_, hd⟩ := schedule_scheduler hk
      exact .step ih (.schedule hd)

end Kernel

namespace ProcessInv

variable {others : Nat → Nat}

theorem init (idle : TCB) (idleAddressSpace : AddressSpace) {cpuNum : Nat} (hcpu : 0 < cpuNum)
    (kernelPageTable : PageTable) :
    ProcessInv (Kernel.init idle idleAddressSpace cpuNum kernelPageTable).processList
      (Kernel.init idle idleAddressSpace cpuNum kernelPageTable).scheduler.pids
      (Kernel.otherCpuThreads idle cpuNum) := by
  refine ⟨fun pid pcb h => ?_, fun pid hpos => ?_⟩ <;> by_cases hp : pid = idle.pid
  · subst hp
    simp only [Kernel.init, Function.update_same, Option.some.injEq] at h
    subst h
    simp only [PCB.idlePcb, Scheduler.pids, Scheduler.init, Kernel.init, Kernel.otherCpuThreads,
      List.map_cons, List.map_nil, List.count_singleton_self, if_true]
    omega
  · simp [Kernel.init, Function.update_noteq hp] at h
  · subst hp; simp [Kernel.init]
  · simp [Kernel.init, Scheduler.pids, Scheduler.init, Kernel.otherCpuThreads, List.count_singleton',
      hp, Ne.symm hp] at hpos

/-- A new thread pushed onto `READY_LIST`, whose PCB counts one more thread. -/
theorem spawn {k : Kernel} (h : ProcessInv k.processList k.scheduler.pids others) {t : TCB} {pcb' : PCB}
    (hcount : pcb'.threadCount = k.scheduler.pids.count t.pid + others t.pid + 1) :
    ProcessInv (Function.update k.processList t.pid (some pcb'))
      { k.scheduler with readyList := push t k.scheduler.readyList }.pids others :=
  -- The new thread goes second, behind the current one: `List.Perm.swap`.
  (h.cons (Function.update_same _ _ _) hcount fun q hq => Function.update_noteq hq _ _).congr
    (fun _ => rfl) (by simpa [Scheduler.pids, push] using List.Perm.swap _ _ _)

theorem step {idleId : Nat} {k k' : Kernel} (h : ProcessInv k.processList k.scheduler.pids others)
    (h₀ : k.scheduler.oldThread = none) (hs : Kernel.Step idleId k k') :
    ProcessInv k'.processList k'.scheduler.pids others := by
  cases hs with
  | spawnProcess t _ _ _ hn =>
    -- A new PCB: its process has no thread anywhere yet.
    have h0 : k.scheduler.pids.count t.pid + others t.pid = 0 :=
      Nat.eq_zero_of_not_pos fun hpos => by simpa [hn] using h.isSome_of_pos _ hpos
    exact h.spawn (by simp [PCB.new, h0])
  | spawnThread t _ _ hpcb => exact h.spawn (by simp [h.threadCount_eq _ _ hpcb])
  | exit _ => exact h
  | kill _ hk => exact h.congr (Kernel.killProcess_threadCount hk) (by rw [Kernel.killProcess_scheduler hk])
  | schedule hk => exact h.schedule h₀ hk

end ProcessInv

namespace Kernel

section Reachable

variable {idle : TCB} (hidle : idle.isDead = false) {cpuNum : Nat} (hcpu : 0 < cpuNum) {k : Kernel}
include hidle hcpu

/-- In every state of the kernel from boot on, each PCB of `PROCESS_LIST` counts
    the threads of its process, and each thread's PCB is there. -/
theorem Reachable.processInv (h : Reachable idle cpuNum k) :
    ProcessInv k.processList k.scheduler.pids (otherCpuThreads idle cpuNum) := by
  induction h with
  | init => exact ProcessInv.init _ _ hcpu _
  | step hk hs ih => exact ih.step (hk.scheduler.inv hidle).oldThread_eq_none hs

end Reachable

/-- In every state of one of `cpuNum` CPUs from boot on, under any interleaving of
    new threads and processes, exits, `PCB::kill` and scheduling steps, each PCB of
    `PROCESS_LIST` counts exactly the threads of its process among the current and
    the ready ones and the idle threads of the other CPUs, and the PCB of each
    process with a thread is there. -/
theorem reachable_processInv (idle : TCB) (hidle : idle.isDead = false) (cpuNum : Nat)
    (hcpu : 0 < cpuNum) :
    ∀ k, Reachable idle cpuNum k →
      ProcessInv k.processList k.scheduler.pids (otherCpuThreads idle cpuNum) :=
  fun _ h => h.processInv hidle hcpu

/-- Two CPUs; after boot a process with one thread is created and the thread is
    scheduled: the idle PCB counts the idle threads of both CPUs, the new PCB its
    one thread. -/
theorem reachable_processInv_spawned :
    let idle : TCB := ⟨0, 0, 0, .Running, ⟨0, 0, 0, 0, .KernelOnly⟩, none⟩
    let t : TCB := ⟨1, 1, 5, .Ready, ⟨0, 0, 0, 0, .KernelOnly⟩, none⟩
    idle.isDead = false ∧ 0 < 2 ∧ ∃ k, Reachable idle 2 k ∧
      k.scheduler.currentThread = t.setRunning ∧ (k.processList 0).map PCB.threadCount = some 2 ∧
      (k.processList 1).map PCB.threadCount = some 1 ∧
      ProcessInv k.processList k.scheduler.pids (otherCpuThreads idle 2) := by
  intro idle t
  have h : Reachable idle 2 _ :=
    .step (.step (.init .empty fun _ => none) (.spawnProcess t .empty rfl (by decide) rfl))
      (.schedule rfl)
  exact ⟨rfl, by decide, _, h, rfl, rfl, rfl, reachable_processInv idle rfl 2 (by decide) _ h⟩

/-- From every state of the kernel since boot, a scheduling step panics exactly
    when the teardown of the stacks of the thread it drops does: the scheduler's
    choice and the release of the thread from its PCB never panic. -/
theorem reachable_schedule_eq_none_iff (idle : TCB) (hidle : idle.isDead = false) (cpuNum : Nat)
    (hcpu : 0 < cpuNum) :
    ∀ k, Reachable idle cpuNum k → (k.schedule = none ↔
      ∃ s' t, k.scheduler.scheduleNextThread = some (s', some t) ∧
        dropStacks s'.currentThread.pid t { k with scheduler := s' } = none) := by
  intro k h
  refine ⟨fun hn => ?_, fun ⟨s', t, hs, hd⟩ => by simp [schedule, hs, dropThread, hd]⟩
  have hi := h.scheduler.inv hidle
  obtain ⟨⟨s', dropped⟩, hs⟩ := Option.isSome_iff_exists.mp hi.scheduleNextThread_isSome
  cases dropped with
  | none => simp [schedule, hs] at hn
  | some t =>
    refine ⟨s', t, hs, ?_⟩
    cases h₂ : dropStacks s'.currentThread.pid t { k with scheduler := s' } with
    | none => rfl
    | some k₂ =>
      -- The dropped thread still counts in its PCB, so leaving it does not panic.
      have hp := ProcessInv.pids_perm hi.oldThread_eq_none hs
      have hl := ((h.processInv hidle hcpu).dropStacks (by simpa using hp) h₂).2.leaveProcess_isSome
      simp [schedule, hs, dropThread, h₂, Option.isSome_iff_ne_none] at hn hl
      exact absurd hn hl

/-- After boot a process is created whose thread has a kernel stack with one page
    in use that the kernel half does not map; the thread runs and exits. The
    scheduling step that drops it panics in the teardown of that stack. -/
theorem reachable_schedule_eq_none_iff_unmapped :
    let idle : TCB := ⟨0, 0, 0, .Running, ⟨0, 0, 0, 0, .KernelOnly⟩, none⟩
    let top := kernelStackAreaBase + kernelStackMaxSize
    let t : TCB := ⟨1, 1, 5, .Ready, ⟨top, top - 0x1000, kernelStackMaxSize, top, .KernelOnly⟩, none⟩
    idle.isDead = false ∧ 0 < 1 ∧ ∃ k, Reachable idle 1 k ∧
      k.scheduler.currentThread = t.setRunning.setDead ∧ k.schedule = none ∧ (k.schedule = none ↔ ∃ s' t, k.scheduler.scheduleNextThread = some (s', some t) ∧
        dropStacks s'.currentThread.pid t { k with scheduler := s' } = none) := by
  intro idle top t
  have h : Reachable idle 1 _ :=
    .step (.step (.step (.init .empty fun _ => none) (.spawnProcess t .empty rfl (by decide) rfl))
      (.schedule rfl)) (.exit (by decide))
  exact ⟨rfl, by decide, _, h, rfl, Option.isNone_iff_eq_none.mp (by decide),
    reachable_schedule_eq_none_iff idle rfl 1 (by decide) _ h⟩

/-- A scheduling step from a state of the kernel since boot removes a PCB from
    `PROCESS_LIST` exactly when it drops a thread of that process, the process is
    dead, and no thread of it is left current or ready: a PCB goes after its last
    thread, and only then. -/
theorem reachable_schedule_removes_iff (idle : TCB) (hidle : idle.isDead = false) (cpuNum : Nat)
    (hcpu : 0 < cpuNum) :
    ∀ k k', Reachable idle cpuNum k → k.schedule = some k' → ∀ pid,
      ((k.processList pid).isSome ∧ k'.processList pid = none ↔
        ∃ t pcb, k.scheduler.scheduleNextThread = some (k'.scheduler, some t) ∧ t.pid = pid ∧
          k.processList pid = some pcb ∧ pcb.isDead = true ∧ pid ∉ k'.scheduler.pids) := by
  intro k k' h hs pid
  have h₀ := (h.scheduler.inv hidle).oldThread_eq_none
  -- The idle thread's process keeps a thread here, on this CPU.
  obtain ⟨u, hu, -, hup⟩ := (h.step (.schedule hs)).scheduler.exists_idle hidle
  obtain ⟨⟨s', dropped⟩, hsn, h'⟩ := Option.bind_eq_some.mp hs
  cases dropped with
  | none =>
    cases h'
    simpa [hsn] using fun h₁ h₂ => by simp [h₂] at h₁
  | some t =>
    obtain ⟨k₂, h₂, hl⟩ := Option.bind_eq_some.mp h'
    obtain ⟨hs₂, hi₂⟩ := (h.processInv hidle hcpu).dropStacks
      (by simpa using ProcessInv.pids_perm h₀ hsn) h₂
    have hks : k'.scheduler = s' := (leaveProcess_eq_some hl).1.trans hs₂
    -- The teardown edits page tables only: every PCB keeps its state and its count.
    have hdead q := dropStacks_keeps (activePager_keeps_map PCB.isDead (fun _ _ => rfl) _ q) h₂
    have hsome : (k.processList pid).isSome = (k₂.processList pid).isSome := by
      simpa using (congrArg Option.isSome (dropStacks_keeps (activePager_keeps_threadCount _ pid) h₂)).symm
    rw [hsome, leaveProcess_removes_iff hl, hks]
    rw [hks] at hu
    constructor
    · rintro ⟨rfl, pcb₂, hpcb₂, hc, hd⟩
      obtain ⟨pcb, hpcb, hd'⟩ :=
        Option.map_eq_some'.mp ((hdead t.pid).symm.trans (by rw [hpcb₂]; rfl))
      refine ⟨t, pcb, hsn, rfl, hpcb, hd'.trans hd, fun hm => ?_⟩
      have := hi₂.threadCount_eq _ _ hpcb₂
      simp only [List.count_append, List.count_singleton_self, hc] at this
      exact (List.count_pos_iff.mpr hm).ne' (by omega)
    · rintro ⟨t', pcb, ht', rfl, hpcb, hd, hnm⟩
      obtain rfl : t = t' := by simpa using hsn.symm.trans ht'
      obtain ⟨pcb₂, hpcb₂, hd₂⟩ := Option.map_eq_some'.mp ((hdead t.pid).trans (by rw [hpcb]; rfl))
      -- Not the idle thread's process, so no other CPU holds a thread of it.
      have hother : otherCpuThreads idle cpuNum t.pid = 0 := by
        have hne : t.pid ≠ idle.pid := fun he =>
          hnm (he ▸ hup ▸ List.mem_map_of_mem TCB.pid hu)
        simp [otherCpuThreads, hne]
      refine ⟨rfl, pcb₂, hpcb₂, ?_, hd₂.trans hd⟩
      simpa [List.count_eq_zero_of_not_mem hnm, hother] using hi₂.threadCount_eq _ _ hpcb₂

/-- After boot a process is created whose thread has one kernel-stack page mapped;
    the thread runs, `PCB::kill` marks the process dead, and the thread exits. The
    next scheduling step drops the thread, unmaps its stack page, and removes the
    PCB with its last thread. -/
theorem reachable_schedule_removes_iff_killed :
    let idle : TCB := ⟨0, 0, 0, .Running, ⟨0, 0, 0, 0, .KernelOnly⟩, none⟩
    let top := kernelStackAreaBase + kernelStackMaxSize
    let t : TCB := ⟨1, 1, 5, .Ready, ⟨top, top - 0x1000, kernelStackMaxSize, top, .KernelOnly⟩, none⟩
    let kernelPageTable : PageTable :=
      Function.update (fun _ => none) (pageNum top - 1) (some (Stack.pageFlags .KernelOnly))
    idle.isDead = false ∧ 0 < 1 ∧ ∃ k k', Reachable idle 1 k ∧
      k.scheduler.currentThread = t.setRunning.setDead ∧ k.kernelPageTable = kernelPageTable ∧
      k.schedule = some k' ∧ (k.processList 1).isSome ∧ k'.processList 1 = none ∧
      k'.kernelPageTable (pageNum top - 1) = none ∧ ∀ pid,
      ((k.processList pid).isSome ∧ k'.processList pid = none ↔
        ∃ t pcb, k.scheduler.scheduleNextThread = some (k'.scheduler, some t) ∧ t.pid = pid ∧
          k.processList pid = some pcb ∧ pcb.isDead = true ∧ pid ∉ k'.scheduler.pids) := by
  intro idle top t kernelPageTable
  obtain ⟨k, h, hc, hkpt, hsome, hv, h₁⟩ : ∃ k, Reachable idle 1 k ∧
      k.scheduler.currentThread = t.setRunning.setDead ∧ k.kernelPageTable = kernelPageTable ∧
      k.schedule.isSome = true ∧
      k.schedule.map (fun k' => ((k'.processList 1).isNone,
        (k'.kernelPageTable (pageNum top - 1)).isNone)) = some (true, true) ∧
      (k.processList 1).isSome = true :=
    ⟨_, .step (.step (.step (.step (.init .empty kernelPageTable)
      (.spawnProcess t .empty rfl (by decide) rfl)) (.schedule rfl)) (.kill 1 rfl)) (.exit (by decide)),
      rfl, rfl, by decide, by decide, rfl⟩
  obtain ⟨k', hk⟩ := Option.isSome_iff_exists.mp hsome
  simp only [hk, Option.map_some', Option.some.injEq, Prod.mk.injEq] at hv
  exact ⟨rfl, by decide, k, k', h, hc, hkpt, hk, h₁, Option.isNone_iff_eq_none.mp hv.1,
    Option.isNone_iff_eq_none.mp hv.2, reachable_schedule_removes_iff idle rfl 1 (by decide) _ _ h hk⟩

end Kernel

end BoringOS
