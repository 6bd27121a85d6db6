import BoringOS.Memory.Area
import Mathlib.Logic.Function.Basic

/-!
# Page tables and address spaces

The paging engine and the address-space object of §4.3 and §4.4 of the spec:
neither `paging` nor `address_space` is part of the sources, so every definition
here is modelled from the spec. A page table is kept as its leaf entries by page
number; an address space is its segment list with the page table it owns.

## Main definitions

- `PageTable.mapPage`, `PageTable.unmapPage` — fail on an entry that is already
  present, or not present
- `AddressSpace.addSegment`, `AddressSpace.mapPage`, `AddressSpace.unmapPage`
- `AddressSpace.WF` — every present entry maps a page that meets one of the segments

## Design notes

`WF` is not a field of `AddressSpace`: the arch-level `unmap_page` edits the active
page table outside the segment list. Every operation of the address-space object
keeps `WF`, and what it buys is `pageTable_eq_none_of_addSegment`: a segment that
`add_segment` accepts starts with none of its pages mapped.
-/

namespace BoringOS

/-- Modelled from the spec: `PageFlags`, reduced to the flags the modelled code
    sets. -/
structure PageFlags where
  readable : Bool
  writable : Bool
  userAccessible : Bool
  deriving DecidableEq, Repr

/-- Modelled from the spec: the leaf entries of a page table, by page number. -/
abbrev PageTable := Nat → Option PageFlags

namespace PageTable

/-- Modelled from the spec: `map_page` installs a leaf entry with the given
    flags; mapping a page that is already mapped is an invariant violation. -/
def mapPage (t : PageTable) (pageAddress : Nat) (flags : PageFlags) : Option PageTable :=
  if (t (pageNum pageAddress)).isSome then none
  else some (Function.update t (pageNum pageAddress) (some flags))

/-- Modelled from the spec: `unmap_page` clears a leaf entry; clearing an entry
    that is not present is a corrupt page table, an invariant violation. -/
def unmapPage (t : PageTable) (pageAddress : Nat) : Option PageTable :=
  if (t (pageNum pageAddress)).isSome then some (Function.update t (pageNum pageAddress) none)
  else none

theorem mapPage_eq_some {t t' : PageTable} {a : Nat} {f : PageFlags} :
    t.mapPage a f = some t' ↔ t (pageNum a) = none ∧
      t' = Function.update t (pageNum a) (some f) := by
  unfold mapPage; split <;> rename_i h
  · simp only [reduceCtorEq, false_iff, not_and]; intro h'; simp [h'] at h
  · simp only [Option.some.injEq, Option.not_isSome_iff_eq_none.mp h, true_and]; exact eq_comm

theorem unmapPage_eq_some {t t' : PageTable} {a : Nat} :
    t.unmapPage a = some t' ↔ (t (pageNum a)).isSome ∧
      t' = Function.update t (pageNum a) none := by
  unfold unmapPage; split <;> rename_i h
  · simp only [Option.some.injEq, h, true_and]; exact eq_comm
  · simp [h]

end PageTable

/-- Modelled from the spec: the kinds of segment, of which the modelled code
    only creates memory-only ones. -/
inductive SegmentType where
  | MemoryOnly
  deriving DecidableEq, Repr

/-- Modelled from the spec: a contiguous virtual range with uniform flags. -/
structure Segment where
  area : MemoryArea
  flags : PageFlags
  segmentType : SegmentType
  deriving DecidableEq, Repr

/-- Modelled from the spec: the segments of a process and the page table it
    owns. -/
structure AddressSpace where
  segments : List Segment
  pageTable : PageTable

namespace AddressSpace

/-- An address space without segments or mappings. -/
def empty : AddressSpace := ⟨[], fun _ => none⟩

/-- Two areas share a byte. -/
def overlaps (a b : MemoryArea) : Bool :=
  decide (a.start < b.start + b.length ∧ b.start < a.start + a.length)

/-- Modelled from the spec: `add_segment` refuses a segment that overlaps one
    already there; otherwise it inserts it and returns true. -/
def addSegment (as : AddressSpace) (segment : Segment) : Bool × AddressSpace :=
  if as.segments.any fun s => overlaps s.area segment.area then (false, as)
  else (true, { as with segments := segment :: as.segments })

/-- Modelled from the spec: the segment that encloses an address. -/
def findSegment (as : AddressSpace) (address : Nat) : Option Segment :=
  as.segments.find? fun s => decide (address ∈ s.area)

/-- Modelled from the spec: `map_page` locates the enclosing segment and maps the
    page with its flags; an address outside every segment is a fault. -/
def mapPage (as : AddressSpace) (pageAddress : Nat) : Option AddressSpace := do
  let segment ← as.findSegment pageAddress
  let pageTable ← as.pageTable.mapPage pageAddress segment.flags
  return { as with pageTable }

/-- Modelled from the spec: `unmap_page`, the inverse of `map_page`. -/
def unmapPage (as : AddressSpace) (pageAddress : Nat) : Option AddressSpace := do
  let _ ← as.findSegment pageAddress
  let pageTable ← as.pageTable.unmapPage pageAddress
  return { as with pageTable }

/-- Whether the page of an address is mapped. -/
def isMapped (as : AddressSpace) (a : Nat) : Bool := (as.pageTable (pageNum a)).isSome

/-- Every present entry maps a page that meets one of the segments. -/
def WF (as : AddressSpace) : Prop :=
  ∀ p, (as.pageTable p).isSome → ∃ s ∈ as.segments, ∃ x ∈ s.area, pageNum x = p

/-- Areas that `overlaps` lets through share no byte. -/
theorem disjoint_of_overlaps_eq_false {a b : MemoryArea} (h : overlaps a b = false) :
    a.Disjoint b := by
  simp only [overlaps, decide_eq_false_iff_not] at h
  intro x ⟨h₁, h₂⟩ ⟨h₃, h₄⟩
  simp only [MemoryArea.endAddress_eq] at h₂ h₄; omega

theorem findSegment_isSome {as : AddressSpace} {a : Nat} :
    (as.findSegment a).isSome ↔ ∃ s ∈ as.segments, a ∈ s.area := by
  simp [findSegment, List.find?_isSome]

theorem findSegment_eq_some {as : AddressSpace} {a : Nat} {seg : Segment}
    (h : as.findSegment a = some seg) : seg ∈ as.segments ∧ a ∈ seg.area := by
  simpa using And.comm.mp ⟨List.find?_some h, List.mem_of_find?_eq_some h⟩

theorem addSegment_eq_true {as as' : AddressSpace} {seg : Segment} :
    as.addSegment seg = (true, as') ↔ (∀ s ∈ as.segments, overlaps s.area seg.area = false) ∧
      as' = { as with segments := seg :: as.segments } := by
  unfold addSegment; split <;> rename_i h
  · simp only [List.any_eq_true] at h
    obtain ⟨s, hs, ho⟩ := h
    simp only [Prod.mk.injEq, Bool.false_eq_true, false_and, false_iff, not_and]
    exact fun hd => absurd (hd s hs) (by simp [ho])
  · simp only [List.any_eq_true, not_exists, not_and, Bool.not_eq_true] at h
    simp only [Prod.mk.injEq, true_and]
    exact ⟨fun h' => ⟨h, h'.symm⟩, fun h' => h'.2.symm⟩

theorem mapPage_eq_some {as as' : AddressSpace} {a : Nat} :
    as.mapPage a = some as' ↔ ∃ seg, as.findSegment a = some seg ∧
      as.pageTable (pageNum a) = none ∧
      as' = { as with pageTable := Function.update as.pageTable (pageNum a) (some seg.flags) } := by
  simp only [mapPage, bind, Option.bind_eq_some, PageTable.mapPage_eq_some, pure,
    Option.some.injEq]
  constructor
  · rintro ⟨seg, hs, _, ⟨hn, rfl⟩, rfl⟩; exact ⟨seg, hs, hn, rfl⟩
  · rintro ⟨seg, hs, hn, rfl⟩; exact ⟨seg, hs, _, ⟨hn, rfl⟩, rfl⟩

theorem unmapPage_eq_some {as as' : AddressSpace} {a : Nat} :
    as.unmapPage a = some as' ↔ (as.findSegment a).isSome ∧ (as.pageTable (pageNum a)).isSome ∧
      as' = { as with pageTable := Function.update as.pageTable (pageNum a) none } := by
  simp only [unmapPage, bind, Option.bind_eq_some, PageTable.unmapPage_eq_some, pure,
    Option.some.injEq, Option.isSome_iff_exists]
  constructor
  · rintro ⟨seg, hs, _, ⟨hn, rfl⟩, rfl⟩; exact ⟨⟨seg, hs⟩, hn, rfl⟩
  · rintro ⟨⟨seg, hs⟩, hn, rfl⟩; exact ⟨seg, hs, _, ⟨hn, rfl⟩, rfl⟩

theorem mapPage_frame {as as' : AddressSpace} {a : Nat} (h : as.mapPage a = some as') :
    as'.segments = as.segments ∧ ∀ q, q ≠ pageNum a → as'.pageTable q = as.pageTable q := by
  obtain ⟨_, -, -, rfl⟩ := mapPage_eq_some.mp h
  exact ⟨rfl, fun q hq => Function.update_noteq hq _ _⟩

theorem unmapPage_frame {as as' : AddressSpace} {a : Nat} (h : as.unmapPage a = some as') :
    as'.segments = as.segments ∧ ∀ q, q ≠ pageNum a → as'.pageTable q = as.pageTable q := by
  obtain ⟨-, -, rfl⟩ := unmapPage_eq_some.mp h
  exact ⟨rfl, fun q hq => Function.update_noteq hq _ _⟩

/-! ### Well-formedness -/

theorem WF.empty : empty.WF := fun _ h => by simp [AddressSpace.empty] at h

/-- An edit of the page table that only clears entries keeps `WF`. -/
theorem WF.of_isSome {as : AddressSpace} {t : PageTable} (h : as.WF)
    (ht : ∀ p, (t p).isSome → (as.pageTable p).isSome) : { as with pageTable := t }.WF :=
  fun p hp => h p (ht p hp)

theorem WF.addSegment {as : AddressSpace} (h : as.WF) (seg : Segment) :
    (as.addSegment seg).2.WF := by
  unfold AddressSpace.addSegment; split
  · exact h
  · intro p hp
    obtain ⟨s, hs, hx⟩ := h p hp
    exact ⟨s, List.mem_cons_of_mem _ hs, hx⟩

theorem WF.mapPage {as as' : AddressSpace} {a : Nat} (h : as.WF) (hm : as.mapPage a = some as') :
    as'.WF := by
  obtain ⟨seg, hs, -, rfl⟩ := mapPage_eq_some.mp hm
  intro p hp
  by_cases hpa : p = pageNum a
  · exact ⟨seg, (findSegment_eq_some hs).1, a, (findSegment_eq_some hs).2, hpa.symm⟩
  · exact h p (by simpa [Function.update_noteq hpa] using hp)

theorem WF.unmapPage {as as' : AddressSpace} {a : Nat} (h : as.WF)
    (hm : as.unmapPage a = some as') : as'.WF := by
  obtain ⟨-, -, rfl⟩ := unmapPage_eq_some.mp hm
  refine h.of_isSome fun p hp => ?_
  by_cases hpa : p = pageNum a
  · subst hpa; simp at hp
  · simpa [Function.update_noteq hpa] using hp

/-- A page-aligned segment that `add_segment` accepts into a well-formed address
    space has none of its pages mapped. -/
theorem pageTable_eq_none_of_addSegment {as as' : AddressSpace} {seg : Segment} (h : as.WF)
    (ha : as.addSegment seg = (true, as')) (hs : seg.area.start % pageSize = 0)
    (hl : seg.area.length % pageSize = 0) {p : Nat} (hp₁ : seg.area.start ≤ fromPageNum p)
    (hp₂ : fromPageNum p < seg.area.start + seg.area.length) : as.pageTable p = none := by
  refine Option.not_isSome_iff_eq_none.mp fun hsome => ?_
  obtain ⟨s, hs', x, hx, rfl⟩ := h p hsome
  have hpage := mem_page_iff.mp (rfl : pageNum x = pageNum x)
  have hxseg : x ∈ seg.area := by
    simp only [MemoryArea.mem_iff, fromPageNum, pageSize] at *; omega
  exact disjoint_of_overlaps_eq_false ((addSegment_eq_true.mp ha).1 s hs') x hx hxseg

end AddressSpace

end BoringOS
