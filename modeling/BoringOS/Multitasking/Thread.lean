import BoringOS.Multitasking.Stack

/-!
# Threads and the ready heap

The thread control block and the max-heap `READY_LIST` of the scheduler. Neither
the `TCB` nor its ordering is part of the sources: both are modelled from §3 of
the spec, which orders TCBs by priority, then by id. The heap is kept as a list,
whose order `peek` and `pop` do not depend on once the ids are distinct.

## Main definitions

- `TCB`, with `isDead`, `setReady`, `setRunning`, `setDead` and the ordering `≤`
- `peek`, `pop`, `push` — `BinaryHeap::peek`, `BinaryHeap::pop`, `BinaryHeap::push`

## Main results

- `TCB.not_le` — the ordering is total
- `peek_eq_none`, `peek_mem`, `le_of_peek` — `peek` returns a greatest thread
-/

namespace BoringOS

/-- Modelled from the spec: the states a thread can have. -/
inductive ThreadState where
  | Ready
  | Running
  | Dead
  | Blocked
  deriving DecidableEq, Repr

/-- Modelled from the spec: a thread control block, without the saved context. -/
structure TCB where
  id : Nat
  pid : Nat
  priority : Nat
  state : ThreadState
  kernelStack : Stack
  userStack : Option Stack
  deriving DecidableEq, Repr

namespace TCB

/-- Modelled from the spec: `is_dead ⇔ state == Dead`. -/
def isDead (t : TCB) : Bool := t.state == .Dead

/-- Modelled from the spec. -/
def setReady (t : TCB) : TCB := { t with state := .Ready }

/-- Modelled from the spec. -/
def setRunning (t : TCB) : TCB := { t with state := .Running }

/-- Modelled from the spec: what exiting does to the current thread. -/
def setDead (t : TCB) : TCB := { t with state := .Dead }

/-- Modelled from the spec: TCBs are ordered by priority, ties broken by id. -/
instance : LE TCB := ⟨fun a b => a.priority < b.priority ∨ a.priority = b.priority ∧ a.id ≤ b.id⟩

instance : LT TCB := ⟨fun a b => a.priority < b.priority ∨ a.priority = b.priority ∧ a.id < b.id⟩

instance (a b : TCB) : Decidable (a ≤ b) := inferInstanceAs (Decidable (_ ∨ _))

instance (a b : TCB) : Decidable (a < b) := inferInstanceAs (Decidable (_ ∨ _))

section Order

variable {a b c : TCB}

@[simp] theorem le_iff : a ≤ b ↔ a.priority < b.priority ∨ a.priority = b.priority ∧ a.id ≤ b.id :=
  Iff.rfl

@[simp] theorem lt_iff : a < b ↔ a.priority < b.priority ∨ a.priority = b.priority ∧ a.id < b.id :=
  Iff.rfl

theorem not_le : ¬a ≤ b ↔ b < a := by simp only [le_iff, lt_iff]; omega

theorem le_of_lt (h : a < b) : a ≤ b := by simp only [le_iff, lt_iff] at *; omega

theorem le_trans (h₁ : a ≤ b) (h₂ : b ≤ c) : a ≤ c := by simp only [le_iff] at *; omega

theorem lt_of_le_of_lt (h₁ : a ≤ b) (h₂ : b < c) : a < c := by
  simp only [le_iff, lt_iff] at *; omega

theorem le_refl (a : TCB) : a ≤ a := by simp

theorem priority_le_of_le (h : a ≤ b) : a.priority ≤ b.priority := by simp only [le_iff] at h; omega

end Order

@[simp] theorem isDead_setReady (t : TCB) : t.setReady.isDead = false := rfl

@[simp] theorem isDead_setRunning (t : TCB) : t.setRunning.isDead = false := rfl

@[simp] theorem isDead_setDead (t : TCB) : t.setDead.isDead = true := rfl

@[simp] theorem id_setReady (t : TCB) : t.setReady.id = t.id := rfl

@[simp] theorem id_setRunning (t : TCB) : t.setRunning.id = t.id := rfl

@[simp] theorem id_setDead (t : TCB) : t.setDead.id = t.id := rfl

@[simp] theorem priority_setReady (t : TCB) : t.setReady.priority = t.priority := rfl

@[simp] theorem priority_setRunning (t : TCB) : t.setRunning.priority = t.priority := rfl

@[simp] theorem pid_setReady (t : TCB) : t.setReady.pid = t.pid := rfl

@[simp] theorem pid_setRunning (t : TCB) : t.setRunning.pid = t.pid := rfl

end TCB

/-- `BinaryHeap::peek`: a greatest thread of the list, the first of them on a tie. -/
def peek : List TCB → Option TCB
  | [] => none
  | t :: ts =>
    match peek ts with
    | none => some t
    | some m => if m ≤ t then some t else some m

/-- `BinaryHeap::pop`: removes one copy of the thread `peek` returns. -/
def pop (l : List TCB) : Option (TCB × List TCB) := (peek l).map fun t => (t, l.erase t)

/-- `BinaryHeap::push`. -/
def push (t : TCB) (l : List TCB) : List TCB := t :: l

@[simp] theorem peek_eq_none {l : List TCB} : peek l = none ↔ l = [] := by
  cases l with
  | nil => simp [peek]
  | cons t ts => simp only [peek, reduceCtorEq, iff_false]; split <;> [simp; split <;> simp]

theorem peek_mem {l : List TCB} {m : TCB} (h : peek l = some m) : m ∈ l := by
  induction l with
  | nil => simp [peek] at h
  | cons t ts ih =>
    simp only [peek] at h
    split at h
    · cases h; exact List.mem_cons_self _ _
    · split at h <;> cases h
      · exact List.mem_cons_self _ _
      · exact List.mem_cons_of_mem _ (ih ‹_›)

/-- Every thread of the list is at most the one `peek` returns. -/
theorem le_of_peek {l : List TCB} {m : TCB} (h : peek l = some m) {t : TCB} (ht : t ∈ l) :
    t ≤ m := by
  induction l generalizing m with
  | nil => simp at ht
  | cons u us ih =>
    simp only [peek] at h
    rcases List.mem_cons.mp ht with rfl | ht
    · split at h
      · cases h; exact TCB.le_refl _
      · split at h <;> cases h
        · exact TCB.le_refl _
        · exact TCB.le_of_lt (TCB.not_le.mp ‹_›)
    · split at h
      · simp_all
      · split at h <;> cases h
        · exact TCB.le_trans (ih ‹_› ht) ‹_›
        · exact ih ‹_› ht

theorem pop_eq_some {l rest : List TCB} {m : TCB} :
    pop l = some (m, rest) ↔ peek l = some m ∧ rest = l.erase m := by
  simp only [pop, Option.map_eq_some', Prod.mk.injEq]
  constructor
  · rintro ⟨_, h, rfl, rfl⟩; exact ⟨h, rfl⟩
  · rintro ⟨h, rfl⟩; exact ⟨_, h, rfl, rfl⟩

end BoringOS
