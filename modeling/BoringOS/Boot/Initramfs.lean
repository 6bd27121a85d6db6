import BoringOS.Memory.Area

/-!
# The initramfs exclusion

`initramfs()` turns the initramfs area that the boot layer reports into the area
that the memory-map filter keeps out of free memory: the start aligned down to a
page, the length rounded up to whole pages.

The length is rounded on its own, without the part of the first page that lies
before the start, so whenever the start is not page-aligned the area returned
ends before the initramfs does: `initramfs_not_mem_iff` names exactly the bytes
that are lost, for instance the last half page of a module placed half a page
into a page. The rounding itself overflows for lengths within a page of
`usize::MAX` (`initramfs_eq_none_iff`).

The arch `memory::init` records where the initramfs is at run time: at its offset
in its first page into the window at `INITRAMFS_MAP_AREA_START`
(`initInitramfsArea`). That is the initramfs moved by whole pages
(`mem_initInitramfsArea_iff`), and it lies within the pages of the rounded area
exactly when the rounded area covers the initramfs
(`initInitramfsArea_isContainedIn_iff`), which `initramfs_covers_iff` decides
from the start and the length alone.
-/

namespace BoringOS

/-- `initramfs()`, where `area` is what `get_initramfs_area()` reports. -/
def initramfs (area : MemoryArea) : Option MemoryArea :=
  -- Align to the previous page.
  let initramfsStart := pageAlignDown area.start
  -- Round up the the next page boundary.
  let initramfsLength :=
    if area.length > 0 then usizeAdd ((area.length - 1) / pageSize * pageSize) pageSize
    else some 0
  initramfsLength.map fun length => ⟨initramfsStart, length⟩

/-- What `initramfs()` computes when it does not panic. -/
theorem initramfs_eq_some {area r : MemoryArea} :
    initramfs area = some r ↔ r.start = pageAlignDown area.start ∧
      r.length = (if area.length > 0 then (area.length - 1) / pageSize * pageSize + pageSize
        else 0) ∧ r.length ≤ usizeMax := by
  cases r; unfold initramfs; split <;> simp [usizeMax] <;> omega

/-- The rounding panics exactly for lengths within a page of `usize::MAX`. -/
theorem initramfs_eq_none_iff (area : MemoryArea) :
    initramfs area = none ↔ usizeMax + 1 - pageSize < area.length := by
  unfold initramfs; split <;> simp [usizeMax, pageSize] at * <;> omega

/-- The area returned covers the whole initramfs exactly when the initramfs's offset
    in its first page and the part of its last page it uses fit in one page: the
    length is rounded up as if the initramfs started on a page boundary. -/
theorem initramfs_covers_iff {area r : MemoryArea} (hr : initramfs area = some r)
    (hl : 0 < area.length) :
    (∀ x ∈ area, x ∈ r) ↔ offsetInPage area.start + (area.length - 1) % pageSize < pageSize := by
  obtain ⟨hs, hlen, -⟩ := initramfs_eq_some.mp hr
  rw [if_pos hl] at hlen
  simp only [MemoryArea.mem_iff, hs, hlen, pageAlignDown, offsetInPage, pageSize]
  constructor
  · intro h; have := h (area.start + area.length - 1) (by omega); omega
  · intro h x hx; omega

/-- An initramfs of two pages that starts half a page into a page is a case: its
    offset and the used part of its last page make a page and a half. -/
theorem initramfs_covers_iff_unaligned :
    initramfs ⟨0x100800, 0x2000⟩ = some ⟨0x100000, 0x2000⟩ ∧ 0 < 0x2000 ∧
      ((∀ x ∈ (⟨0x100800, 0x2000⟩ : MemoryArea), x ∈ (⟨0x100000, 0x2000⟩ : MemoryArea)) ↔
        offsetInPage 0x100800 + (0x2000 - 1) % pageSize < pageSize) :=
  ⟨by decide, by decide, initramfs_covers_iff (by decide) (by decide)⟩

/-- A module loaded half a page into a page: the area returned stops a page after
    the aligned start, short of the module's last half page. -/
theorem initramfs_loses_tail_of_unaligned_start :
    initramfs ⟨0x100800, 0x1000⟩ = some ⟨0x100000, 0x1000⟩ ∧
      0x101000 ∈ (⟨0x100800, 0x1000⟩ : MemoryArea) ∧
      0x101000 ∉ (⟨0x100000, 0x1000⟩ : MemoryArea) := by
  decide

/-! ### The run-time area -/

/-- `INITRAMFS_AREA` as the arch `memory::init` sets it, where
    `physicalInitramfsArea` is what the boot layer's `get_initramfs_area()`
    reports: the initramfs's offset in its first page into the window at
    `INITRAMFS_MAP_AREA_START`, with the same length. -/
def initInitramfsArea (physicalInitramfsArea : MemoryArea) : Option MemoryArea := do
  let start ← addrAdd initramfsMapAreaStart (offsetInPage physicalInitramfsArea.start)
  return ⟨start, physicalInitramfsArea.length⟩

/-- The addition never wraps: the window lies far below the top of memory. -/
theorem initInitramfsArea_eq (a : MemoryArea) :
    initInitramfsArea a = some ⟨initramfsMapAreaStart + offsetInPage a.start, a.length⟩ := by
  have : offsetInPage a.start < pageSize := Nat.mod_lt _ (by decide)
  simp only [initInitramfsArea, addrAdd_eq, usizeAdd, bind, pure]
  rw [if_pos (by simp only [initramfsMapAreaStart, usizeMax, pageSize] at *; omega)]; rfl

example : initInitramfsArea ⟨0x100800, 0x1000⟩ = some ⟨0xffff800008000800, 0x1000⟩ := by decide

/-- The run-time area lies within the window's first `r.length` bytes, which hold
    the pages of the area `initramfs()` returns, exactly when that area covers the
    whole initramfs: for an initramfs that does not start on a page boundary the
    window can end before its run-time area does. -/
theorem initInitramfsArea_isContainedIn_iff {a r v : MemoryArea} (hr : initramfs a = some r)
    (h : initInitramfsArea a = some v) (hl : 0 < a.length) :
    v.isContainedIn ⟨initramfsMapAreaStart, r.length⟩ ↔ ∀ x ∈ a, x ∈ r := by
  rw [initInitramfsArea_eq, Option.some.injEq] at h; subst h
  have hs := (initramfs_eq_some.mp hr).1
  have := pageAlignDown_add_offset a.start
  simp only [MemoryArea.isContainedIn_iff, MemoryArea.mem_iff, hs]
  constructor
  · intro h x hx; omega
  · intro h; have := h (a.start + a.length - 1) (by omega); omega

/-- The module of one page loaded half a page into a page is a case: its run-time
    area runs half a page past the window. -/
theorem initInitramfsArea_isContainedIn_iff_unaligned :
    initramfs ⟨0x100800, 0x1000⟩ = some ⟨0x100000, 0x1000⟩ ∧
      initInitramfsArea ⟨0x100800, 0x1000⟩ = some ⟨0xffff800008000800, 0x1000⟩ ∧ 0 < 0x1000 ∧
      ((⟨0xffff800008000800, 0x1000⟩ : MemoryArea).isContainedIn ⟨initramfsMapAreaStart, 0x1000⟩ ↔
        ∀ x ∈ (⟨0x100800, 0x1000⟩ : MemoryArea), x ∈ (⟨0x100000, 0x1000⟩ : MemoryArea)) := by
  have hr : initramfs ⟨0x100800, 0x1000⟩ = some ⟨0x100000, 0x1000⟩ := by decide
  have hv : initInitramfsArea ⟨0x100800, 0x1000⟩ = some ⟨0xffff800008000800, 0x1000⟩ := by decide
  exact ⟨hr, hv, by decide, initInitramfsArea_isContainedIn_iff hr hv (by decide)⟩

end BoringOS
