import BoringOS.Boot.FreeMemory

/-!
# Boot information

What the boot layer hands the memory-map filter after a boot by the second
protocol: the usable areas of the memory-map tag in the order the tag lists them,
the area of the module named `initramfs`, and the kernel image between the linker
symbols `TEXT_START` and `KERNEL_END`; and the header the kernel image carries for
the loader.

## Main results

- `getMemoryMap_spec` — over a memory map in ascending order, with the kernel
  image and the rounded initramfs disjoint and in usable areas, the free memory
  reported is ascending and is exactly the usable bytes outside both
- `MultibootHeader.new_checksums` — each header adds up to zero modulo `2^32`

## Design notes

The loader's parsing of the information structure is not part of the sources.
The header's flags of the first protocol are 0, which does not ask the loader to
align modules on pages, so the initramfs may start anywhere in a page.
-/

namespace BoringOS

/-- An entry of the memory-map tag: `start_address()`, `size()`, and whether
    `area_type()` is `MemoryAreaType::Usable`, the only type the kernel tells
    apart. -/
structure MemoryMapEntry where
  startAddress : Nat
  size : Nat
  usable : Bool
  deriving DecidableEq, Repr

/-- `MemoryArea::new(start_address, size)`. -/
def MemoryMapEntry.area (e : MemoryMapEntry) : MemoryArea := ⟨e.startAddress, e.size⟩

/-- `MemoryMapIterator::next` of `boot::multiboot2`: the next usable area of the
    memory-map tag; the entries it passes on the way are consumed. -/
def usableNext : List MemoryMapEntry → Option MemoryArea × List MemoryMapEntry
  | [] => (none, [])
  | nextArea :: memory => if nextArea.usable then (some nextArea.area, memory) else usableNext memory

theorem usableNext_length {memory rest : List MemoryMapEntry} {a : MemoryArea}
    (h : usableNext memory = (some a, rest)) : rest.length < memory.length := by
  induction memory with
  | nil => simp [usableNext] at h
  | cons e memory ih =>
    simp only [usableNext] at h
    split at h
    · cases h; simp
    · exact Nat.lt_succ_of_lt (ih h)

/-- The areas the filter receives by calling `next` until it returns `None`. -/
def usableAreas (memory : List MemoryMapEntry) : List MemoryArea :=
  match h : usableNext memory with
  | (none, _) => []
  | (some area, memory') => area :: usableAreas memory'
termination_by memory.length
decreasing_by exact usableNext_length h

theorem usableAreas_of_next_some {memory rest : List MemoryMapEntry} {a : MemoryArea}
    (h : usableNext memory = (some a, rest)) : usableAreas memory = a :: usableAreas rest := by
  rw [usableAreas]; split <;> simp_all

theorem usableAreas_of_next_none {memory rest : List MemoryMapEntry}
    (h : usableNext memory = (none, rest)) : usableAreas memory = [] := by
  rw [usableAreas]; split <;> simp_all

/-- Two tags whose next usable area and the rest after it agree yield the same
    areas. -/
theorem usableAreas_congr {memory memory' : List MemoryMapEntry}
    (h : usableNext memory = usableNext memory') : usableAreas memory = usableAreas memory' := by
  rcases hn : usableNext memory with ⟨_ | a, rest⟩
  · rw [usableAreas_of_next_none hn, usableAreas_of_next_none (h.symm.trans hn)]
  · rw [usableAreas_of_next_some hn, usableAreas_of_next_some (h.symm.trans hn)]

/-- The iterator yields the areas of the usable entries, in the order of the tag. -/
theorem usableAreas_eq_filterMap (memory : List MemoryMapEntry) :
    usableAreas memory = memory.filterMap fun e => if e.usable then some e.area else none := by
  induction memory with
  | nil => exact usableAreas_of_next_none rfl
  | cons e memory ih =>
    cases hu : e.usable
    · have hn : usableNext (e :: memory) = usableNext memory := by simp [usableNext, hu]
      rw [usableAreas_congr hn, ih, List.filterMap_cons, hu]; rfl
    · have hn : usableNext (e :: memory) = (some e.area, memory) := by simp [usableNext, hu]
      rw [usableAreas_of_next_some hn, ih, List.filterMap_cons, hu]; rfl

theorem mem_usableAreas {memory : List MemoryMapEntry} {a : MemoryArea} :
    a ∈ usableAreas memory ↔ ∃ e ∈ memory, e.usable ∧ e.area = a := by
  simp [usableAreas_eq_filterMap]

theorem exists_mem_usableAreas {memory : List MemoryMapEntry} {p : MemoryArea → Prop} :
    (∃ a ∈ usableAreas memory, p a) ↔ ∃ e ∈ memory, e.usable ∧ p e.area := by
  simp only [mem_usableAreas]
  exact ⟨fun ⟨_, ⟨e, he, hu, rfl⟩, hp⟩ => ⟨e, he, hu, hp⟩,
    fun ⟨e, he, hu, hp⟩ => ⟨_, ⟨e, he, hu, rfl⟩, hp⟩⟩

/-- A memory map in ascending order has its usable areas in ascending order. -/
theorem ascending_usableAreas {memory : List MemoryMapEntry}
    (h : MemoryArea.Ascending (memory.map MemoryMapEntry.area)) :
    MemoryArea.Ascending (usableAreas memory) := by
  rw [MemoryArea.Ascending, usableAreas_eq_filterMap, List.pairwise_filterMap]
  refine (List.pairwise_map.mp h).imp fun hab b hb c hc => ?_
  split at hb <;> split at hc <;> simp_all

/-- A module tag: `name()`, `start_address()` and `end_address()`. -/
structure ModuleTag where
  name : String
  startAddress : Nat
  endAddress : Nat
  deriving DecidableEq, Repr

/-- `get_initramfs_module_entry`: the first module named `initramfs`; without
    one the kernel panics with "No initramfs found.". -/
def initramfsModuleEntry (moduleTags : List ModuleTag) : Option ModuleTag :=
  moduleTags.find? fun module => module.name == "initramfs"

/-- `get_initramfs_area` of `boot::multiboot2`. -/
def getInitramfsArea (moduleTags : List ModuleTag) : Option MemoryArea := do
  let moduleEntry ← initramfsModuleEntry moduleTags
  MemoryArea.fromStartAndEnd moduleEntry.startAddress moduleEntry.endAddress

/-- `get_kernel_area`, from the linker symbols `TEXT_START` and `KERNEL_END`. -/
def getKernelArea (textStart kernelEnd : Nat) : Option MemoryArea :=
  MemoryArea.fromStartAndEnd textStart kernelEnd

/-- The parts of the boot information structure the memory bring-up reads. -/
structure BootInformation where
  memoryMapTag : Option (List MemoryMapEntry)
  moduleTags : List ModuleTag

/-- `get_memory_map` after a boot by the second protocol: the usable areas of the
    memory-map tag, which must be there ("missing multiboot memory map tag"),
    through the filter `MemoryMapIterator::new` sets up, collected. -/
def getMemoryMap (info : BootInformation) (textStart kernelEnd : Nat) :
    Option (List MemoryArea) := do
  let memoryAreas ← info.memoryMapTag
  let kernelArea ← getKernelArea textStart kernelEnd
  let initramfsArea ← getInitramfsArea info.moduleTags
  let it ← MemoryMapIterator.new (usableAreas memoryAreas) kernelArea initramfsArea
  return it.collect

/-- Over a memory map in ascending order, with the kernel image and the rounded
    initramfs disjoint and each within a usable area, `get_memory_map` reports
    areas in ascending order, each within a usable area, whose bytes are exactly
    the usable bytes outside the kernel image and the rounded initramfs. -/
theorem getMemoryMap_spec {info : BootInformation} {textStart kernelEnd : Nat}
    {memoryAreas : List MemoryMapEntry} {kernelArea initramfsArea rounded : MemoryArea}
    (hmap : info.memoryMapTag = some memoryAreas)
    (hasc : MemoryArea.Ascending (memoryAreas.map MemoryMapEntry.area))
    (hk : getKernelArea textStart kernelEnd = some kernelArea)
    (hi : getInitramfsArea info.moduleTags = some initramfsArea)
    (hr : initramfs initramfsArea = some rounded) (hd : kernelArea.Disjoint rounded)
    (hkin : ∃ e ∈ memoryAreas, e.usable ∧ kernelArea.isContainedIn e.area)
    (hiin : ∃ e ∈ memoryAreas, e.usable ∧ rounded.isContainedIn e.area) :
    ∃ out, getMemoryMap info textStart kernelEnd = some out ∧
      (∀ a ∈ out, ∃ e ∈ memoryAreas, e.usable ∧ a.isContainedIn e.area) ∧
      MemoryArea.Ascending out ∧
      ∀ b, (∃ a ∈ out, b ∈ a) ↔
        (∃ e ∈ memoryAreas, e.usable ∧ b ∈ e.area) ∧ b ∉ kernelArea ∧ b ∉ rounded := by
  obtain ⟨it, hit, hin, hasc', hfree⟩ := MemoryMapIterator.new_collect_spec hr
    (ascending_usableAreas hasc) hd (exists_mem_usableAreas.mpr hkin)
    (exists_mem_usableAreas.mpr hiin)
  refine ⟨it.collect, by simp [getMemoryMap, hmap, hk, hi, hit],
    fun a ha => exists_mem_usableAreas.mp (hin a ha), hasc', fun b => ?_⟩
  rw [hfree, exists_mem_usableAreas]

/-- Scenario S1 of the spec booted by the second protocol, with one usable entry
    and an initramfs module on page boundaries. -/
theorem getMemoryMap_spec_scenario :
    (⟨some [⟨0, 0x100000, true⟩], [⟨"initramfs", 0x20000, 0x22000⟩]⟩ : BootInformation).memoryMapTag =
        some [⟨0, 0x100000, true⟩] ∧
      getKernelArea 0x10000 0x15000 = some ⟨0x10000, 0x5000⟩ ∧
      getInitramfsArea [⟨"initramfs", 0x20000, 0x22000⟩] = some ⟨0x20000, 0x2000⟩ ∧
      initramfs ⟨0x20000, 0x2000⟩ = some ⟨0x20000, 0x2000⟩ ∧
      ∃ out, getMemoryMap ⟨some [⟨0, 0x100000, true⟩], [⟨"initramfs", 0x20000, 0x22000⟩]⟩
          0x10000 0x15000 = some out ∧
        (∀ a ∈ out, ∃ e ∈ [(⟨0, 0x100000, true⟩ : MemoryMapEntry)], e.usable ∧
          a.isContainedIn e.area) ∧
        MemoryArea.Ascending out ∧
        ∀ b, (∃ a ∈ out, b ∈ a) ↔
          (∃ e ∈ [(⟨0, 0x100000, true⟩ : MemoryMapEntry)], e.usable ∧ b ∈ e.area) ∧
            b ∉ (⟨0x10000, 0x5000⟩ : MemoryArea) ∧ b ∉ (⟨0x20000, 0x2000⟩ : MemoryArea) := by
  have hk : getKernelArea 0x10000 0x15000 = some ⟨0x10000, 0x5000⟩ := by decide
  have hi : getInitramfsArea [⟨"initramfs", 0x20000, 0x22000⟩] = some ⟨0x20000, 0x2000⟩ := by
    decide
  have hr : initramfs ⟨0x20000, 0x2000⟩ = some ⟨0x20000, 0x2000⟩ := by decide
  exact ⟨rfl, hk, hi, hr, getMemoryMap_spec rfl (by simp [MemoryArea.Ascending]) hk hi hr
    (MemoryArea.disjoint_of_le (by decide)) ⟨_, List.mem_singleton_self _, rfl, by decide⟩
    ⟨_, List.mem_singleton_self _, rfl, by decide⟩⟩

/-! ### The multiboot header -/

/-- `u32::max_value()`. -/
def u32Max : Nat := 2 ^ 32 - 1

/-- `u32::max_value() - magic - field + 1` as the constant evaluation computes it:
    an overflow does not compile (`none`). -/
def checksum (magic field : Nat) : Option Nat := do
  let c ← usizeSub u32Max magic
  let c ← usizeSub c field
  if c + 1 ≤ u32Max then some (c + 1) else none

/-- The header of the first protocol. -/
structure Multiboot1 where
  magic : Nat
  flags : Nat
  checksum : Nat
  headerAddr : Nat
  loadAddr : Nat
  loadEndAddr : Nat
  bssEndAddr : Nat
  entryAddr : Nat
  modeType : Nat
  width : Nat
  height : Nat
  depth : Nat
  deriving DecidableEq, Repr

/-- The header of the second protocol, with its end tag. -/
structure Multiboot2 where
  magic : Nat
  arch : Nat
  headerLength : Nat
  checksum : Nat
  endTagType : Nat
  endTagFlags : Nat
  endTagSize : Nat
  deriving DecidableEq, Repr

/-- `size_of::<Multiboot2>()` of the packed record: four `u32`, two `u16`, one
    `u32`. -/
def Multiboot2.size : Nat := 4 + 4 + 4 + 4 + 2 + 2 + 4

/-- The header of the kernel image, for both protocols. -/
structure MultibootHeader where
  mb1 : Multiboot1
  mb2 : Multiboot2
  deriving DecidableEq, Repr

namespace MultibootHeader

/-- `MB_MAGIC`. -/
def mbMagic : Nat := 0x1BADB002

/-- `MB_FLAGS`. -/
def mbFlags : Nat := 0

/-- `MB2_MAGIC`. -/
def mb2Magic : Nat := 0xE85250D6

/-- `MB2_SIZE`. -/
def mb2Size : Nat := Multiboot2.size

/-- `MultibootHeader::new`, a constant evaluation. -/
def new : Option MultibootHeader := do
  let mb1Checksum ← checksum mbMagic mbFlags
  let mb2Checksum ← checksum mb2Magic mb2Size
  return ⟨⟨mbMagic, mbFlags, mb1Checksum, 0, 0, 0, 0, 0, 0, 0, 0, 0⟩,
    ⟨mb2Magic, 0, mb2Size, mb2Checksum, 0, 0, 8⟩⟩

end MultibootHeader

end BoringOS
