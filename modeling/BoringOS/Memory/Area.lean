import Mathlib.Data.List.Chain
import Mathlib.Tactic.Ring

/-!
# Addresses, pages and memory areas

The address primitives of the `memory` module and the half-open intervals
`MemoryArea` that the boot code, the paging engine and the stacks share.
Addresses are the 64-bit `usize` values of x86_64, kept as natural numbers;
the operations that can wrap are checked, since the kernel treats any wrap as a
fatal invariant violation.

## Main definitions

- `usizeAdd`, `usizeSub`, `addrAdd`, `addrSub` — arithmetic that fails instead of wrapping
- `pageNum`, `fromPageNum`, `pageAlignDown` — page arithmetic
- `MemoryArea` — `(start, length)`, with byte membership `x ∈ a`
- `MemoryArea.isContainedIn`, `MemoryArea.Ascending`
- `isUserspaceAddress`, the stack areas and the initramfs window of the fixed virtual layout

## Design notes

The `memory` module itself is not part of the sources: the definitions marked
`Modelled from the spec:` follow its description in §3 and §4.1 of the spec.
-/

namespace BoringOS

/-- The size of a single page. -/
def pageSize : Nat := 0x1000

/-- `usize::MAX` on x86_64. -/
def usizeMax : Nat := 2 ^ 64 - 1

/-- `usize` addition as a debug build runs it: an overflow panics (`none`). -/
def usizeAdd (a b : Nat) : Option Nat :=
  if a + b ≤ usizeMax then some (a + b) else none

/-- `usize` subtraction as a debug build runs it: an underflow panics (`none`). -/
def usizeSub (a b : Nat) : Option Nat :=
  if b ≤ a then some (a - b) else none

/-- `isize::MIN`, `-2^63`. -/
def isizeMin : Int := -0x8000000000000000

/-- `isize::MAX`, `2^63 - 1`. -/
def isizeMax : Int := 0x7fffffffffffffff

/-- An `isize` result as a debug build computes it: outside the range, an
    overflow panics (`none`). -/
def isizeChecked (z : Int) : Option Int :=
  if isizeMin ≤ z ∧ z ≤ isizeMax then some z else none

/-- `n as isize`: the same 64 bits read as a signed number. -/
def usizeAsIsize (n : Nat) : Int := if n < 0x8000000000000000 then n else n - 0x10000000000000000

/-- `z as usize`: the same 64 bits read as an unsigned number. -/
def isizeAsUsize (z : Int) : Nat := if 0 ≤ z then z.toNat else (z + 0x10000000000000000).toNat

/-- Modelled from the spec: subtracting two addresses gives a signed byte
    distance; one outside `isize` is a wrap, a fatal invariant violation. -/
def addrDistance (a b : Nat) : Option Int := isizeChecked ((a : Int) - b)

/-- Modelled from the spec: adding a byte count to an address; a wrap is a fatal
    invariant violation, as for `usize`. -/
def addrAdd (a n : Nat) : Option Nat := usizeAdd a n

/-- Modelled from the spec: subtracting a byte count from an address; a wrap is a
    fatal invariant violation, as for `usize`. -/
def addrSub (a n : Nat) : Option Nat := usizeSub a n

/-- Modelled from the spec: the page number of an address, `addr >> 12`. -/
def pageNum (a : Nat) : Nat := a / pageSize

/-- Modelled from the spec: the first address of a page, `page_num << 12`. -/
def fromPageNum (n : Nat) : Nat := n * pageSize

/-- Modelled from the spec: masks the low 12 bits. -/
def pageAlignDown (a : Nat) : Nat := a / pageSize * pageSize

/-- Modelled from the spec: the low 12 bits. -/
def offsetInPage (a : Nat) : Nat := a % pageSize

@[simp] theorem usizeAdd_eq_some {a b r : Nat} :
    usizeAdd a b = some r ↔ a + b ≤ usizeMax ∧ r = a + b := by
  unfold usizeAdd; split <;> simp_all [eq_comm]

@[simp] theorem usizeSub_eq_some {a b r : Nat} :
    usizeSub a b = some r ↔ b ≤ a ∧ r = a - b := by
  unfold usizeSub; split <;> simp_all [eq_comm]

@[simp] theorem usizeAdd_eq_none {a b : Nat} : usizeAdd a b = none ↔ usizeMax < a + b := by
  unfold usizeAdd; split <;> simp_all

@[simp] theorem usizeSub_eq_none {a b : Nat} : usizeSub a b = none ↔ a < b := by
  unfold usizeSub; split <;> simp_all

@[simp] theorem addrAdd_eq (a n : Nat) : addrAdd a n = usizeAdd a n := rfl

@[simp] theorem addrSub_eq (a n : Nat) : addrSub a n = usizeSub a n := rfl

@[simp] theorem isizeChecked_eq_some {z r : Int} :
    isizeChecked z = some r ↔ isizeMin ≤ z ∧ z ≤ isizeMax ∧ r = z := by
  unfold isizeChecked; split <;> simp_all [eq_comm]

theorem pageAlignDown_add_offset (a : Nat) : pageAlignDown a + offsetInPage a = a := by
  simp only [pageAlignDown, offsetInPage, Nat.mul_comm (a / pageSize)]
  exact Nat.div_add_mod a pageSize

theorem pageNum_mono {a b : Nat} (h : a ≤ b) : pageNum a ≤ pageNum b :=
  Nat.div_le_div_right h

@[simp] theorem pageNum_fromPageNum (p : Nat) : pageNum (fromPageNum p) = p := by
  simp [pageNum, fromPageNum, pageSize]

/-- The page of an address is the page number of the address. -/
theorem mem_page_iff {x p : Nat} : pageNum x = p ↔ fromPageNum p ≤ x ∧ x < fromPageNum p + pageSize := by
  simp only [pageNum, fromPageNum, pageSize]; omega

/-- The first address of every page below `page_num(a)` is below `a`. -/
theorem fromPageNum_lt_of_lt_pageNum {p a : Nat} (h : p < pageNum a) : fromPageNum p < a := by
  have := (Nat.le_div_iff_mul_le (by decide : 0 < pageSize)).mp h
  simp only [fromPageNum, pageSize, Nat.succ_mul] at *; omega

/-! ### The x86_64 virtual layout -/

/-- `VIRTUAL_LOW_MAX_ADDRESS`: the maximum address of the lower part of the
    virtual address space. -/
def virtualLowMaxAddress : Nat := 0x00007fffffffffff

/-- `is_userspace_address`: the address is in the lower part. -/
def isUserspaceAddress (address : Nat) : Bool := decide (address ≤ virtualLowMaxAddress)

/-- `KERNEL_STACK_AREA_BASE`. -/
def kernelStackAreaBase : Nat := 0xfffffe0000000000

/-- `KERNEL_STACK_MAX_SIZE`. -/
def kernelStackMaxSize : Nat := 0x200000

/-- `USER_STACK_AREA_BASE`. -/
def userStackAreaBase : Nat := 0x00007f8000000000

/-- `USER_STACK_MAX_SIZE`. -/
def userStackMaxSize : Nat := 0x200000

/-- `INITRAMFS_MAP_AREA_START`: the area where the initramfs will be mapped. -/
def initramfsMapAreaStart : Nat := 0xffff800000000000 + 512 * 512 * 512

/-- A memory area: `length` bytes from `start`. -/
structure MemoryArea where
  start : Nat
  length : Nat
  deriving DecidableEq, Repr

namespace MemoryArea

/-- The first address after the area. -/
def endAddress (a : MemoryArea) : Nat := a.start + a.length

/-- Modelled from the spec: the area from `start` up to `endAddress`; an end below
    the start is a wrap. -/
def fromStartAndEnd (start endAddress : Nat) : Option MemoryArea :=
  (usizeSub endAddress start).map fun length => ⟨start, length⟩

/-- The bytes of an area, `[start, start + length)`. -/
instance : Membership Nat MemoryArea := ⟨fun a x => a.start ≤ x ∧ x < a.endAddress⟩

instance (x : Nat) (a : MemoryArea) : Decidable (x ∈ a) :=
  inferInstanceAs (Decidable (a.start ≤ x ∧ x < a.endAddress))

/-- Modelled from the spec: `is_contained_in` is containment of the half-open
    intervals. -/
def isContainedIn (a b : MemoryArea) : Prop := b.start ≤ a.start ∧ a.endAddress ≤ b.endAddress

instance (a b : MemoryArea) : Decidable (a.isContainedIn b) :=
  inferInstanceAs (Decidable (_ ∧ _))

/-- Two areas share no byte. -/
def Disjoint (a b : MemoryArea) : Prop := ∀ x, x ∈ a → x ∉ b

/-- Each area of the list ends at or before every later one begins. -/
def Ascending (l : List MemoryArea) : Prop := l.Pairwise (·.endAddress ≤ ·.start)

@[simp] theorem endAddress_eq (a : MemoryArea) : a.endAddress = a.start + a.length := rfl

@[simp] theorem mem_iff {x : Nat} {a : MemoryArea} : x ∈ a ↔ a.start ≤ x ∧ x < a.start + a.length :=
  Iff.rfl

@[simp] theorem isContainedIn_iff {a b : MemoryArea} :
    a.isContainedIn b ↔ b.start ≤ a.start ∧ a.start + a.length ≤ b.start + b.length := Iff.rfl

theorem isContainedIn.trans {a b c : MemoryArea} (h₁ : a.isContainedIn b)
    (h₂ : b.isContainedIn c) : a.isContainedIn c := by
  simp only [isContainedIn_iff] at *; omega

theorem isContainedIn_refl (a : MemoryArea) : a.isContainedIn a := by simp

/-- Areas that end before the other begins share no byte. -/
theorem disjoint_of_le {a b : MemoryArea} (h : a.start + a.length ≤ b.start) : a.Disjoint b := by
  intro x; simp only [mem_iff]; omega

theorem Disjoint.symm {a b : MemoryArea} (h : a.Disjoint b) : b.Disjoint a :=
  fun x hb ha => h x ha hb

/-- Ascending areas are pairwise disjoint. -/
theorem Ascending.pairwise_disjoint {l : List MemoryArea} (h : Ascending l) :
    l.Pairwise Disjoint :=
  h.imp fun hab => disjoint_of_le (by simpa using hab)

end MemoryArea

end BoringOS
