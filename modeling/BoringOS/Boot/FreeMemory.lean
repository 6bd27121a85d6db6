import BoringOS.Boot.MemoryMap

/-!
# Free physical memory at boot

`MemoryMapIterator::new` sets up the memory-map filter with the kernel image and
the page-rounded initramfs as its two exclusions, ordered by start address.

Once the kernel image and the area `initramfs()` returns share no byte and each
lies within a usable area, nothing of either is reported as free memory. The
rounding makes those two conditions stronger than the same ones on the
initramfs as loaded: a module that starts in the page where the kernel image
ends is rounded down into the kernel image, and then the filter misses it.

## Main results

- `MemoryMapIterator.new_collect_spec` — under those two conditions the filter
  yields ascending areas within the input whose bytes are exactly the input bytes
  outside the kernel image and the rounded initramfs
-/

namespace BoringOS

namespace MemoryMapIterator

/-- `MemoryMapIterator::new`, where `kernelArea` is what `get_kernel_area()`
    returns and `initramfsArea` what the boot layer's `get_initramfs_area()`
    reports; `none` when `initramfs()` panics. -/
def new (iter : List MemoryArea) (kernelArea initramfsArea : MemoryArea) :
    Option MemoryMapIterator :=
  (initramfs initramfsArea).map fun initramfsArea =>
    let toExclude :=
      if kernelArea.start ≤ initramfsArea.start then [kernelArea, initramfsArea]
      else [initramfsArea, kernelArea]
    start toExclude iter

/-- With the kernel image and the rounded initramfs disjoint and each within an
    input area, the filter yields areas in ascending order, each within an input
    area, whose bytes are exactly the bytes of the input areas outside both. -/
theorem new_collect_spec {areas : List MemoryArea} {kernelArea initramfsArea rounded : MemoryArea}
    (hr : initramfs initramfsArea = some rounded) (hasc : MemoryArea.Ascending areas)
    (hd : kernelArea.Disjoint rounded) (hk : ∃ e ∈ areas, kernelArea.isContainedIn e)
    (hi : ∃ e ∈ areas, rounded.isContainedIn e) :
    ∃ it, new areas kernelArea initramfsArea = some it ∧
      (∀ a ∈ it.collect, ∃ e ∈ areas, a.isContainedIn e) ∧ MemoryArea.Ascending it.collect ∧
      ∀ b, (∃ a ∈ it.collect, b ∈ a) ↔ (∃ e ∈ areas, b ∈ e) ∧ b ∉ kernelArea ∧ b ∉ rounded := by
  refine ⟨start (if kernelArea.start ≤ rounded.start then [kernelArea, rounded]
    else [rounded, kernelArea]) areas, by simp only [new, hr, Option.map_some'], ?_⟩
  split
  · exact collect_pair_spec hasc ‹_› hd hk hi
  · obtain ⟨hin, hasc', hfree⟩ := collect_pair_spec hasc (by omega) hd.symm hi hk
    exact ⟨hin, hasc', fun b => (hfree b).trans (by tauto)⟩

/-- A usable area that starts half-way into a page, with the initramfs at its start
    and the kernel image above it. Rounded down, the initramfs starts below the
    area and lies in no usable area, so the filter yields the whole area, with the
    initramfs and the kernel image in it. -/
theorem new_reports_initramfs_of_unaligned_area :
    let areas : List MemoryArea := [⟨0x20800, 0xdf800⟩]
    let kernelArea : MemoryArea := ⟨0x30000, 0x5000⟩
    let initramfsArea : MemoryArea := ⟨0x20800, 0x1000⟩
    MemoryArea.Ascending areas ∧ kernelArea.Disjoint initramfsArea ∧
      kernelArea.isContainedIn ⟨0x20800, 0xdf800⟩ ∧ initramfsArea.isContainedIn ⟨0x20800, 0xdf800⟩ ∧
      initramfs initramfsArea = some ⟨0x20000, 0x1000⟩ ∧
      ¬(⟨0x20000, 0x1000⟩ : MemoryArea).isContainedIn ⟨0x20800, 0xdf800⟩ ∧
      ∃ it, new areas kernelArea initramfsArea = some it ∧ it.collect = [⟨0x20800, 0xdf800⟩] ∧
        0x20800 ∈ initramfsArea ∧ 0x30000 ∈ kernelArea := by
  let it := start [⟨0x20000, 0x1000⟩, ⟨0x30000, 0x5000⟩] [⟨0x20800, 0xdf800⟩]
  have h₀ : it.next = (some ⟨0x20800, 0xdf800⟩, it.advance) :=
    @next_of_not_isContainedIn it ⟨0x20800, 0xdf800⟩ ⟨0x20000, 0x1000⟩ rfl rfl (by decide)
  have h₁ : it.advance.next = (none, it.advance) := next_of_currentEntry_eq_none rfl
  refine ⟨by simp [MemoryArea.Ascending], (MemoryArea.disjoint_of_le (by decide)).symm, by decide,
    by decide, by decide, by decide, it, by decide, ?_, by decide, by decide⟩
  rw [collect_of_next_some h₀, collect_of_next_none h₁]

end MemoryMapIterator

end BoringOS
