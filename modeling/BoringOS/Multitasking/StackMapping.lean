import BoringOS.Multitasking.Stack

/-!
# The pages of a stack

A stack built by `Stack::new` in an address space owns the segment
`[start, start + max_size)`, and the pages of it that are mapped are exactly those
from `page_num(bottom)` up to `page_num(top)`, whatever the amounts of the calls,
aligned or not (`MapInv`).

## Main results

- `MapInv.grow`, `MapInv.shrink`, `MapInv.resize` — one call keeps the invariant
- `MapInv.runLogged`, `MapInv.apply_eq_none` — every page operation of a call lies
  in the segment, a `map_page` on an unmapped page and an `unmap_page` on a mapped
  one, and a call panics only where its arithmetic does
- `reachable_mapInv` — every stack reachable from `new` keeps the invariant

## Design notes

`MapInv` does not ask the bottom to be page-aligned: the page that holds an
unaligned bottom counts as in use. `Call.runLogged` runs a call through
`Pager.logging`, which records each page operation with the mapping of its page.
-/

namespace BoringOS

namespace AddressSpace

/-- Mapping every page of `[first, last)` through the address space, when each
    lies in a segment and none is mapped yet, maps exactly those pages, each with
    the flags of its segment. -/
theorem forPages_mapPage {as : AddressSpace} {first last : Nat} (hle : first ≤ last) (f : PageFlags)
    (h : ∀ p, first ≤ p → p < last → (as.findSegment (fromPageNum p)).isSome ∧ as.pageTable p = none) :
    ∃ as', forPages (fun a => pager.mapPage a f) first last as = some as' ∧
      as'.segments = as.segments ∧ ∀ q, as'.pageTable q =
        if first ≤ q ∧ q < last then (as.findSegment (fromPageNum q)).map (·.flags) else as.pageTable q :=
  ⟨_, forPages_update (fun pageTable => { as with pageTable })
    (fun q => (as.findSegment (fromPageNum q)).map (·.flags)) (fun _ e => e = none) hle rfl
    (fun p pt h₁ h₂ hp => by
      obtain ⟨seg, hs⟩ := Option.isSome_iff_exists.mp (h p h₁ h₂).1
      exact mapPage_eq_some.mpr ⟨seg, hs, by simpa using hp, by simp [hs]⟩)
    fun p h₁ h₂ => (h p h₁ h₂).2, rfl, fun _ => rfl⟩

/-- Unmapping every page of `[first, last)` through the address space, when each
    lies in a segment and is mapped, unmaps exactly those pages. -/
theorem forPages_unmapPage {as : AddressSpace} {first last : Nat} (hle : first ≤ last)
    (h : ∀ p, first ≤ p → p < last → (as.findSegment (fromPageNum p)).isSome ∧ (as.pageTable p).isSome) :
    ∃ as', forPages pager.unmapPage first last as = some as' ∧ as'.segments = as.segments ∧
      ∀ q, as'.pageTable q = if first ≤ q ∧ q < last then none else as.pageTable q :=
  ⟨_, forPages_update (fun pageTable => { as with pageTable }) (fun _ => none)
    (fun _ e => e.isSome) hle rfl
    (fun p pt h₁ h₂ hp => unmapPage_eq_some.mpr ⟨(h p h₁ h₂).1, by simpa using hp, by simp⟩)
    fun p h₁ h₂ => (h p h₁ h₂).2, rfl, fun _ => rfl⟩

end AddressSpace

namespace Stack

/-- The invariant of a stack over the segment `[start, start + max_size)` of the
    address space `as`: the segment is registered, the bottom lies between its two
    ends, and of its pages exactly those from the bottom's on are mapped. -/
structure MapInv (start : Nat) (s : Stack) (as : AddressSpace) : Prop where
  top_eq : s.topAddress = start + s.maxSize
  start_le_bottom : start ≤ s.bottomAddress
  bottom_le_top : s.bottomAddress ≤ s.topAddress
  start_aligned : start % pageSize = 0
  maxSize_aligned : s.maxSize % pageSize = 0
  segment : ∃ seg ∈ as.segments, seg.area = ⟨start, s.maxSize⟩
  mapped : ∀ p, pageNum start ≤ p → p < pageNum s.topAddress →
    ((as.pageTable p).isSome ↔ pageNum s.bottomAddress ≤ p)

section Inv

variable {start : Nat} {s : Stack} {as : AddressSpace}

/-- The pages from `page_num(start)` to `page_num(top)` lie in the segment, and the
    address space finds a segment for each. -/
theorem MapInv.mem_segment (h : MapInv start s as) {p : Nat} (h₁ : pageNum start ≤ p)
    (h₂ : p < pageNum s.topAddress) :
    fromPageNum p ∈ (⟨start, s.maxSize⟩ : MemoryArea) ∧ (as.findSegment (fromPageNum p)).isSome := by
  have hlt := fromPageNum_lt_of_lt_pageNum h₂
  have hmem : fromPageNum p ∈ (⟨start, s.maxSize⟩ : MemoryArea) := by
    have := h.start_aligned
    simp only [MemoryArea.mem_iff, pageNum, fromPageNum, pageSize, h.top_eq] at *
    constructor <;> omega
  obtain ⟨seg, hs, harea⟩ := h.segment
  exact ⟨hmem, AddressSpace.findSegment_isSome.mpr ⟨seg, hs, harea ▸ hmem⟩⟩

/-- Every page the loop of `grow` maps lies in the segment and is not mapped. -/
theorem MapInv.growTargets (h : MapInv start s as) {amount b : Nat}
    (hb : s.growBottom amount = some b) {p : Nat} (h₁ : pageNum b ≤ p)
    (h₂ : p < pageNum s.bottomAddress) :
    fromPageNum p ∈ (⟨start, s.maxSize⟩ : MemoryArea) ∧ (as.findSegment (fromPageNum p)).isSome ∧
      as.pageTable p = none := by
  obtain ⟨-, -, rfl⟩ := growBottom_eq_some.mp hb
  have hs : pageNum start ≤ p := le_trans (pageNum_mono (by rw [h.top_eq]; omega)) h₁
  have ht : p < pageNum s.topAddress := lt_of_lt_of_le h₂ (pageNum_mono h.bottom_le_top)
  exact ⟨(h.mem_segment hs ht).1, (h.mem_segment hs ht).2,
    Option.not_isSome_iff_eq_none.mp fun hp => by have := (h.mapped p hs ht).mp hp; omega⟩

/-- Every page the loop of `shrink` unmaps lies in the segment and is mapped. -/
theorem MapInv.shrinkTargets (h : MapInv start s as) {amount b : Nat}
    (hb : s.shrinkBottom amount = some b) {p : Nat} (h₁ : pageNum s.bottomAddress ≤ p)
    (h₂ : p < pageNum b) :
    fromPageNum p ∈ (⟨start, s.maxSize⟩ : MemoryArea) ∧ (as.findSegment (fromPageNum p)).isSome ∧
      (as.pageTable p).isSome := by
  obtain ⟨-, rfl⟩ := shrinkBottom_eq_some.mp hb
  have hs : pageNum start ≤ p := le_trans (pageNum_mono h.start_le_bottom) h₁
  have ht : p < pageNum s.topAddress := lt_of_lt_of_le h₂ (pageNum_mono (min_le_left _ _))
  exact ⟨(h.mem_segment hs ht).1, (h.mem_segment hs ht).2, (h.mapped p hs ht).mpr h₁⟩

/-- A `grow` whose arithmetic does not overflow completes and keeps the invariant. -/
theorem MapInv.grow (h : MapInv start s as) {amount b : Nat} (hb : s.growBottom amount = some b) :
    ∃ as', s.grow AddressSpace.pager amount as = some ({ s with bottomAddress := b }, as') ∧
      MapInv start { s with bottomAddress := b } as' := by
  obtain ⟨-, -, hb'⟩ := growBottom_eq_some.mp hb
  have := h.top_eq
  have := h.start_le_bottom
  have hb₁ : start ≤ b := by omega
  have hb₂ : b ≤ s.bottomAddress := by omega
  have hle : pageNum b ≤ pageNum s.bottomAddress := pageNum_mono hb₂
  obtain ⟨as', hf, hseg, hpt⟩ := AddressSpace.forPages_mapPage hle (pageFlags s.accessType)
    fun p h₁ h₂ => (h.growTargets hb h₁ h₂).2
  refine ⟨as', grow_eq_some.mpr ⟨b, hb, hf, rfl⟩, ⟨h.top_eq, hb₁, le_trans hb₂ h.bottom_le_top,
    h.start_aligned, h.maxSize_aligned, hseg ▸ h.segment, fun p h₁ h₂ => ?_⟩⟩
  have hfound := (h.mem_segment h₁ h₂).2
  dsimp only at h₂ ⊢
  rw [hpt p]
  split
  · rename_i hr; rw [Option.isSome_map']; exact iff_of_true hfound hr.1
  · rw [h.mapped p h₁ h₂]; omega

/-- A `shrink` whose arithmetic does not overflow completes and keeps the
    invariant. -/
theorem MapInv.shrink (h : MapInv start s as) {amount b : Nat} (hb : s.shrinkBottom amount = some b) :
    ∃ as', s.shrink AddressSpace.pager amount as = some ({ s with bottomAddress := b }, as') ∧
      MapInv start { s with bottomAddress := b } as' := by
  obtain ⟨-, hb'⟩ := shrinkBottom_eq_some.mp hb
  have := h.bottom_le_top
  have hb₁ : s.bottomAddress ≤ b := by omega
  have hb₂ : b ≤ s.topAddress := by omega
  have hle : pageNum s.bottomAddress ≤ pageNum b := pageNum_mono hb₁
  obtain ⟨as', hf, hseg, hpt⟩ := AddressSpace.forPages_unmapPage hle
    fun p h₁ h₂ => (h.shrinkTargets hb h₁ h₂).2
  refine ⟨as', shrink_eq_some.mpr ⟨b, hb, hf, rfl⟩, ⟨h.top_eq, le_trans h.start_le_bottom hb₁, hb₂,
    h.start_aligned, h.maxSize_aligned, hseg ▸ h.segment, fun p h₁ h₂ => ?_⟩⟩
  dsimp only at h₂ ⊢
  rw [hpt p]
  split
  · simp only [Option.isSome_none, Bool.false_eq_true, false_iff]; omega
  · rw [h.mapped p h₁ h₂]; omega

/-- `resize` is a `grow` or a `shrink`. -/
theorem resize_eq_some_cases {σ : Type} {P : Pager σ} {t : σ} {newSize : Nat} {r : Stack × σ}
    (h : s.resize P newSize t = some r) :
    (∃ amount, s.grow P amount t = some r) ∨ ∃ amount, s.shrink P amount t = some r := by
  simp only [resize, bind, Option.bind_eq_some] at h
  obtain ⟨_, -, d, -, h⟩ := h
  split at h
  · exact .inl ⟨_, h⟩
  · obtain ⟨_, -, h⟩ := Option.bind_eq_some.mp h
    exact .inr ⟨_, h⟩

theorem MapInv.grow_eq_some (h : MapInv start s as) {amount : Nat} {s' : Stack} {as' : AddressSpace}
    (hg : s.grow AddressSpace.pager amount as = some (s', as')) : MapInv start s' as' := by
  obtain ⟨b, hb, -⟩ := Stack.grow_eq_some.mp hg
  obtain ⟨as'', hg', hi⟩ := h.grow hb
  rw [hg] at hg'; cases hg'; exact hi

theorem MapInv.shrink_eq_some (h : MapInv start s as) {amount : Nat} {s' : Stack} {as' : AddressSpace}
    (hs : s.shrink AddressSpace.pager amount as = some (s', as')) : MapInv start s' as' := by
  obtain ⟨b, hb, -⟩ := Stack.shrink_eq_some.mp hs
  obtain ⟨as'', hs', hi⟩ := h.shrink hb
  rw [hs] at hs'; cases hs'; exact hi

theorem MapInv.resize (h : MapInv start s as) {newSize : Nat} {s' : Stack} {as' : AddressSpace}
    (hr : s.resize AddressSpace.pager newSize as = some (s', as')) : MapInv start s' as' := by
  obtain ⟨_, hg⟩ | ⟨_, hs⟩ := resize_eq_some_cases hr
  · exact h.grow_eq_some hg
  · exact h.shrink_eq_some hs

/-- `resize(new_size)` of a stack that keeps its invariant, with a top that fits
    `usize`, a `max_size` that fits `isize` and a new size up to the top that fits
    `isize`, completes: the bottom goes to `top - min(new_size, max_size)`,
    whatever it was before, and the invariant holds after. -/
theorem MapInv.resize_complete (h : MapInv start s as) (ht : s.topAddress ≤ usizeMax)
    (hmaxi : (s.maxSize : Int) ≤ isizeMax) {newSize : Nat} (hn : (newSize : Int) ≤ isizeMax)
    (hle : newSize ≤ s.topAddress) :
    ∃ as', s.resize AddressSpace.pager newSize as =
        some ({ s with bottomAddress := s.topAddress - min newSize s.maxSize }, as') ∧
      MapInv start { s with bottomAddress := s.topAddress - min newSize s.maxSize } as' := by
  have := h.top_eq
  have := h.start_le_bottom
  have := h.bottom_le_top
  have hs : (s.size : Int) ≤ isizeMax := by simp only [size, isizeMax] at *; omega
  unfold isizeMax at hmaxi hn hs
  have hc : usizeAsIsize newSize = newSize := by simp only [usizeAsIsize]; split <;> omega
  have hd : isizeChecked ((newSize : Int) - s.size) = some ((newSize : Int) - s.size) := by
    simp only [isizeChecked_eq_some, isizeMin, isizeMax, and_true]; omega
  rw [resize_eq h.bottom_le_top (by unfold isizeMax; omega), hc, hd, Option.some_bind]
  split
  · -- A larger size: `grow` by the difference, clamped at `top - max_size`.
    have ha : isizeAsUsize ((newSize : Int) - s.size) = newSize - s.size := by
      rw [isizeAsUsize, if_pos (by omega)]; omega
    refine h.grow (growBottom_eq_some.mpr ?_)
    simp only [ha, size] at *; omega
  · -- A size no larger: `shrink` by the difference.
    have hn' : isizeChecked (-((newSize : Int) - s.size)) = some ((s.size : Int) - newSize) := by
      simp only [isizeChecked_eq_some, isizeMin, isizeMax]; omega
    have ha : isizeAsUsize ((s.size : Int) - newSize) = s.size - newSize := by
      rw [isizeAsUsize, if_pos (by omega)]; omega
    rw [hn', Option.some_bind, ha]
    refine h.shrink (shrinkBottom_eq_some.mpr ?_)
    simp only [size, usizeMax] at *; omega

end Inv

/-! ### Runs from `new` -/

/-- The calls a stack takes after `new`. -/
inductive Call where
  | grow (amount : Nat)
  | shrink (amount : Nat)
  | resize (newSize : Nat)
  deriving DecidableEq, Repr

/-- One call, with its page operations through `P`. -/
def Call.apply {σ : Type} (P : Pager σ) : Call → Stack → σ → Option (Stack × σ)
  | .grow amount, s, t => s.grow P amount t
  | .shrink amount, s, t => s.shrink P amount t
  | .resize newSize, s, t => s.resize P newSize t

/-- One call with `Some(address_space)`. -/
def Call.run (c : Call) (st : Stack × AddressSpace) : Option (Stack × AddressSpace) :=
  c.apply AddressSpace.pager st.1 st.2

/-- One call with `Some(address_space)`, with the log of the `map_page` and
    `unmap_page` calls it makes. -/
def Call.runLogged (c : Call) (st : Stack × AddressSpace) :
    Option ((Stack × AddressSpace) × List PageCall) :=
  (c.apply (AddressSpace.pager.logging AddressSpace.isMapped) st.1 (st.2, [])).map
    fun r => ((r.1, r.2.1), r.2.2)

theorem Call.apply_map {σ τ : Type} {P : Pager σ} {Q : Pager τ} {π : τ → σ} (hQ : Q.Hom P π)
    (c : Call) (s : Stack) (u : τ) : (c.apply Q s u).map (Prod.map id π) = c.apply P s (π u) := by
  cases c with
  | grow => exact grow_map hQ
  | shrink => exact shrink_map hQ
  | resize => exact resize_map hQ

/-- The logged call is the call. -/
theorem Call.runLogged_fst (c : Call) (st : Stack × AddressSpace) :
    (c.runLogged st).map Prod.fst = c.run st := by
  rw [runLogged, Option.map_map]
  exact c.apply_map (Pager.logging_hom _ _) st.1 (st.2, [])

theorem MapInv.run {start : Nat} {st st' : Stack × AddressSpace} (h : MapInv start st.1 st.2)
    (c : Call) (hc : c.run st = some st') : MapInv start st'.1 st'.2 := by
  obtain ⟨s, as⟩ := st
  obtain ⟨s', as'⟩ := st'
  cases c with
  | grow amount => exact h.grow_eq_some hc
  | shrink amount => exact h.shrink_eq_some hc
  | resize newSize => exact h.resize hc

/-- A call moves only the bottom of the stack. -/
theorem Call.run_stack {c : Call} {s s' : Stack} {as as' : AddressSpace}
    (hc : c.run (s, as) = some (s', as')) : ∃ b, s' = { s with bottomAddress := b } := by
  cases c with
  | grow => obtain ⟨b, -, -, rfl⟩ := grow_eq_some.mp hc; exact ⟨b, rfl⟩
  | shrink => obtain ⟨b, -, -, rfl⟩ := shrink_eq_some.mp hc; exact ⟨b, rfl⟩
  | resize =>
    obtain ⟨_, hc⟩ | ⟨_, hc⟩ := resize_eq_some_cases hc
    · obtain ⟨b, -, -, rfl⟩ := grow_eq_some.mp hc; exact ⟨b, rfl⟩
    · obtain ⟨b, -, -, rfl⟩ := shrink_eq_some.mp hc; exact ⟨b, rfl⟩

/-! ### The page operations of a call -/

/-- The log of a loop of operations through an address space, each of which
    edits only its own page, over pages of the area `A` that are mapped exactly
    when the operations unmap: every call lies in `A` and finds its page mapped
    exactly when it unmaps. -/
theorem forPages_logCall_targets (isMap : Bool)
    (op : Nat → AddressSpace → Option AddressSpace)
    (hop : ∀ a as as', op a as = some as' → ∀ q, q ≠ pageNum a → as'.pageTable q = as.pageTable q)
    {A : MemoryArea} {first last : Nat} {as as' : AddressSpace} {log : List PageCall}
    (ht : ∀ p, first ≤ p → p < last → fromPageNum p ∈ A ∧ (as.pageTable p).isSome = !isMap)
    (h : forPages (logCall isMap AddressSpace.isMapped op) first last (as, []) = some (as', log)) :
    ∀ e ∈ log, e.pageAddress ∈ A ∧ e.wasMapped = !e.isMap := by
  obtain ⟨l, rfl, hl⟩ := forPages_logCall
    (fun a b t t' ho hb => by simp only [AddressSpace.isMapped]; rw [hop a t t' ho _ hb]) h
  intro e he
  obtain ⟨hm, p, h₁, h₂, hp, hw⟩ := hl e (by simpa using he)
  rw [hw, hp, hm, AddressSpace.isMapped, pageNum_fromPageNum]
  exact ht p h₁ h₂

section Logged

variable {start : Nat} {s : Stack} {as : AddressSpace}

/-- Every `map_page` call of a `grow` lies in the segment and finds its page
    unmapped. -/
theorem MapInv.grow_logged (h : MapInv start s as) {amount : Nat} {s' : Stack}
    {as' : AddressSpace} {log : List PageCall}
    (hg : s.grow (AddressSpace.pager.logging AddressSpace.isMapped) amount (as, []) =
      some (s', (as', log))) :
    ∀ e ∈ log, e.pageAddress ∈ (⟨start, s.maxSize⟩ : MemoryArea) ∧ e.wasMapped = !e.isMap := by
  obtain ⟨b, hb, hf, -⟩ := Stack.grow_eq_some.mp hg
  refine forPages_logCall_targets true
    (fun a => AddressSpace.pager.mapPage a (pageFlags s.accessType))
    (fun _ _ _ ho => (AddressSpace.mapPage_frame ho).2) (fun p h₁ h₂ => ?_) hf
  obtain ⟨hA, -, hn⟩ := h.growTargets hb h₁ h₂
  exact ⟨hA, by simp [hn]⟩

/-- Every `unmap_page` call of a `shrink` lies in the segment and finds its page
    mapped. -/
theorem MapInv.shrink_logged (h : MapInv start s as) {amount : Nat} {s' : Stack}
    {as' : AddressSpace} {log : List PageCall}
    (hs : s.shrink (AddressSpace.pager.logging AddressSpace.isMapped) amount (as, []) =
      some (s', (as', log))) :
    ∀ e ∈ log, e.pageAddress ∈ (⟨start, s.maxSize⟩ : MemoryArea) ∧ e.wasMapped = !e.isMap := by
  obtain ⟨b, hb, hf, -⟩ := Stack.shrink_eq_some.mp hs
  refine forPages_logCall_targets false AddressSpace.pager.unmapPage
    (fun _ _ _ ho => (AddressSpace.unmapPage_frame ho).2) (fun p h₁ h₂ => ?_) hf
  obtain ⟨hA, -, hm⟩ := h.shrinkTargets hb h₁ h₂
  exact ⟨hA, hm⟩

/-- Every page operation of a call lies in the segment; a `map_page` finds its
    page unmapped, an `unmap_page` finds it mapped. -/
theorem MapInv.runLogged (h : MapInv start s as) {c : Call} {st' : Stack × AddressSpace}
    {log : List PageCall} (hc : c.runLogged (s, as) = some (st', log)) :
    ∀ e ∈ log, e.pageAddress ∈ (⟨start, s.maxSize⟩ : MemoryArea) ∧ e.wasMapped = !e.isMap := by
  obtain ⟨⟨s', as', log'⟩, happ, he⟩ := Option.map_eq_some'.mp hc
  cases he
  cases c with
  | grow => exact h.grow_logged happ
  | shrink => exact h.shrink_logged happ
  | resize =>
    obtain ⟨_, hg⟩ | ⟨_, hs⟩ := resize_eq_some_cases happ
    · exact h.grow_logged hg
    · exact h.shrink_logged hs

theorem MapInv.growBottom_eq_none (h : MapInv start s as) {amount : Nat}
    (hg : s.grow AddressSpace.pager amount as = none) : s.growBottom amount = none := by
  cases hb : s.growBottom amount with
  | none => rfl
  | some b => obtain ⟨_, hg', -⟩ := h.grow hb; simp [hg] at hg'

theorem MapInv.shrinkBottom_eq_none (h : MapInv start s as) {amount : Nat}
    (hs : s.shrink AddressSpace.pager amount as = none) : s.shrinkBottom amount = none := by
  cases hb : s.shrinkBottom amount with
  | none => rfl
  | some b => obtain ⟨_, hs', -⟩ := h.shrink hb; simp [hs] at hs'

/-- A call panics only where its arithmetic does, whatever its page operations
    go through: the address space refuses none of them. -/
theorem MapInv.apply_eq_none (h : MapInv start s as) {c : Call} (hc : c.run (s, as) = none)
    {σ : Type} (P : Pager σ) (t : σ) : c.apply P s t = none := by
  cases c with
  | grow => simp [Call.apply, Stack.grow, h.growBottom_eq_none hc]
  | shrink => simp [Call.apply, Stack.shrink, h.shrinkBottom_eq_none hc]
  | resize newSize =>
    obtain ⟨o, ho⟩ := resize_eq_grow_or_shrink s newSize
    simp only [Call.run, Call.apply, ho] at hc ⊢
    rcases o with _ | ⟨_ | _, amount⟩
    · rfl
    · simp [Stack.shrink, h.shrinkBottom_eq_none hc]
    · simp [Stack.grow, h.growBottom_eq_none hc]

end Logged

/-- The stacks of `Stack::new(initialSize, maxSize, start, access, Some(as))`: the
    one `new` has built and registered before its `resize`, and every one that
    calls which complete lead to from there, the `resize` of `new` first. -/
inductive Reachable (initialSize maxSize start : Nat) (access : AccessType) (as : AddressSpace) :
    Stack × AddressSpace → Prop
  | registered {top : Nat} {as' : AddressSpace} : addrAdd start maxSize = some top →
    addStackSegment ⟨⟨start, maxSize⟩, pageFlags access, .MemoryOnly⟩ as = some as' →
    Reachable initialSize maxSize start access as (⟨top, top, maxSize, top, access⟩, as')
  | call {st st' : Stack × AddressSpace} (c : Call) :
    Reachable initialSize maxSize start access as st → c.run st = some st' →
    Reachable initialSize maxSize start access as st'

theorem addStackSegment_eq_some {seg : Segment} {as as' : AddressSpace} :
    addStackSegment seg as = some as' ↔ as.addSegment seg = (true, as') := by
  unfold addStackSegment; split <;> simp_all

theorem newIn_eq_some {initialSize maxSize start : Nat} {access : AccessType} {as : AddressSpace}
    {r : Stack × AddressSpace} :
    newIn initialSize maxSize start access as = some r ↔ ∃ top, addrAdd start maxSize = some top ∧
      ∃ as', addStackSegment ⟨⟨start, maxSize⟩, pageFlags access, .MemoryOnly⟩ as = some as' ∧
      (⟨top, top, maxSize, top, access⟩ : Stack).resize AddressSpace.pager initialSize as' = some r := by
  simp only [newIn, new, bind, Option.bind_eq_some]

/-- What `new` returns is reachable. -/
theorem Reachable.newIn {initialSize maxSize start : Nat} {access : AccessType} {as : AddressSpace}
    {st : Stack × AddressSpace} (h : newIn initialSize maxSize start access as = some st) :
    Reachable initialSize maxSize start access as st := by
  obtain ⟨top, htop, as', has, hr⟩ := newIn_eq_some.mp h
  exact .call (.resize initialSize) (.registered htop has) hr

/-- The stack `new` registers satisfies the invariant: its segment is new, so none
    of its pages is mapped. -/
theorem mapInv_registered {maxSize start top : Nat} {access : AccessType} {as as' : AddressSpace}
    (hstart : start % pageSize = 0) (hmax : maxSize % pageSize = 0) (hwf : as.WF)
    (htop : addrAdd start maxSize = some top)
    (has : addStackSegment ⟨⟨start, maxSize⟩, pageFlags access, .MemoryOnly⟩ as = some as') :
    MapInv start ⟨top, top, maxSize, top, access⟩ as' := by
  obtain ⟨-, rfl⟩ := usizeAdd_eq_some.mp htop
  have hadd := addStackSegment_eq_some.mp has
  obtain ⟨-, rfl⟩ := AddressSpace.addSegment_eq_true.mp hadd
  refine ⟨rfl, Nat.le_add_right _ _, le_rfl, hstart, hmax, ⟨_, List.mem_cons_self _ _, rfl⟩,
    fun p h₁ h₂ => ?_⟩
  dsimp only at h₂ ⊢
  have hmem := fromPageNum_lt_of_lt_pageNum h₂
  have hlo : start ≤ fromPageNum p := by
    simp only [pageNum, fromPageNum, pageSize] at *; omega
  rw [AddressSpace.pageTable_eq_none_of_addSegment hwf hadd hstart hmax hlo hmem]
  simpa using h₂

/-- `new` computed the top of every reachable stack without overflow. -/
theorem Reachable.top_le {initialSize maxSize start : Nat} {access : AccessType} {as : AddressSpace}
    {st : Stack × AddressSpace} (h : Reachable initialSize maxSize start access as st) :
    start + maxSize ≤ usizeMax := by
  induction h with
  | registered htop _ => exact (usizeAdd_eq_some.mp htop).1
  | call _ _ _ ih => exact ih

/-- Every reachable stack keeps `max_size` and the invariant. -/
theorem Reachable.mapInv {initialSize maxSize start : Nat} {access : AccessType} {as : AddressSpace}
    (hstart : start % pageSize = 0) (hmax : maxSize % pageSize = 0) (hwf : as.WF)
    {st : Stack × AddressSpace} (h : Reachable initialSize maxSize start access as st) :
    st.1.maxSize = maxSize ∧ MapInv start st.1 st.2 := by
  induction h with
  | registered htop has => exact ⟨rfl, mapInv_registered hstart hmax hwf htop has⟩
  | @call st st' c _ hc ih =>
    refine ⟨?_, ih.2.run c hc⟩
    obtain ⟨s, as⟩ := st
    obtain ⟨s', as'⟩ := st'
    obtain ⟨_, rfl⟩ := Call.run_stack hc
    exact ih.1

/-- For a stack built by `Stack::new(initialSize, maxSize, start, access, Some(as))`
    with `start` and `max_size` page-aligned, in an address space whose mapped
    pages all meet its segments: what `new` returns is reachable, and every
    reachable stack keeps `max_size` and `MapInv` (`top = start + max_size`,
    `start ≤ bottom ≤ top`, and the mapped pages of the segment are exactly
    `[page_num(bottom), page_num(top))`). Every `map_page` and `unmap_page` of its
    next call lies in the segment, a `map_page` on a page not mapped when it is
    made and an `unmap_page` on one that is, and a call that panics does so
    whatever its page operations do. -/
theorem reachable_mapInv (initialSize maxSize start : Nat) (access : AccessType) (as : AddressSpace)
    (hstart : start % pageSize = 0) (hmax : maxSize % pageSize = 0) (hwf : as.WF) :
    (∀ st, newIn initialSize maxSize start access as = some st →
      Reachable initialSize maxSize start access as st) ∧
    ∀ st, Reachable initialSize maxSize start access as st →
      st.1.maxSize = maxSize ∧ MapInv start st.1 st.2 ∧
      ∀ c : Call, (c.runLogged st).map Prod.fst = c.run st ∧
        (∀ st' log, c.runLogged st = some (st', log) → ∀ e ∈ log,
          e.pageAddress ∈ (⟨start, maxSize⟩ : MemoryArea) ∧ e.wasMapped = !e.isMap) ∧
        (c.run st = none → ∀ (σ : Type) (P : Pager σ) (t : σ), c.apply P st.1 t = none) := by
  refine ⟨fun st h => Reachable.newIn h, fun ⟨s, as'⟩ h => ?_⟩
  obtain ⟨hm, hi⟩ := h.mapInv hstart hmax hwf
  refine ⟨hm, hi, fun c => ⟨c.runLogged_fst _, fun st' log hc => ?_, fun hc _ P t => hi.apply_eq_none hc P t⟩⟩
  rw [← hm]
  exact hi.runLogged hc

/-- A user stack of three pages in the first user-stack slot of an empty address
    space. -/
theorem reachable_mapInv_userStack :
    userStackAreaBase % pageSize = 0 ∧ userStackMaxSize % pageSize = 0 ∧ AddressSpace.empty.WF ∧
      (∀ st, newIn 0x3000 userStackMaxSize userStackAreaBase .UserAccessible AddressSpace.empty =
        some st → Reachable 0x3000 userStackMaxSize userStackAreaBase .UserAccessible
          AddressSpace.empty st) ∧
      ∀ st, Reachable 0x3000 userStackMaxSize userStackAreaBase .UserAccessible AddressSpace.empty st →
        st.1.maxSize = userStackMaxSize ∧ MapInv userStackAreaBase st.1 st.2 ∧
        ∀ c : Call, (c.runLogged st).map Prod.fst = c.run st ∧
          (∀ st' log, c.runLogged st = some (st', log) → ∀ e ∈ log,
            e.pageAddress ∈ (⟨userStackAreaBase, userStackMaxSize⟩ : MemoryArea) ∧
              e.wasMapped = !e.isMap) ∧
          (c.run st = none → ∀ (σ : Type) (P : Pager σ) (t : σ), c.apply P st.1 t = none) :=
  ⟨by decide, by decide, AddressSpace.WF.empty,
    reachable_mapInv 0x3000 userStackMaxSize userStackAreaBase .UserAccessible AddressSpace.empty
      (by decide) (by decide) AddressSpace.WF.empty⟩

/-- `Stack::new(0, 0x2000, 0x10000, UserAccessible, Some(as))` in an address space
    with no segment but page `0x10` mapped: `add_segment` accepts the segment
    `[0x10000, 0x12000)`, the stack is empty, and page `0x10` of its segment stays
    mapped. -/
theorem newIn_keeps_strayMapping :
    let as : AddressSpace := ⟨[], fun p => if p = 0x10 then some (pageFlags .UserAccessible) else none⟩
    ¬as.WF ∧ ∃ st, newIn 0 0x2000 0x10000 .UserAccessible as = some st ∧
      Reachable 0 0x2000 0x10000 .UserAccessible as st ∧ ¬MapInv 0x10000 st.1 st.2 := by
  intro as
  refine ⟨fun h => by simpa [as] using h 0x10 rfl, ?_⟩
  obtain ⟨st, hst⟩ := Option.isSome_iff_exists.mp
    (by decide : (newIn 0 0x2000 0x10000 .UserAccessible as).isSome = true)
  have hv : (newIn 0 0x2000 0x10000 .UserAccessible as).map (fun r => (r.1, (r.2.pageTable 0x10).isSome)) =
      some (⟨0x12000, 0x12000, 0x2000, 0x12000, .UserAccessible⟩, true) := by decide
  simp only [hst, Option.map_some', Option.some.injEq, Prod.mk.injEq] at hv
  refine ⟨st, hst, .newIn hst, fun hm => ?_⟩
  have := hm.mapped 0x10
  simp only [hv.1, hv.2] at this
  exact absurd (this (by decide) (by decide)) (by decide)

/-- From every stack built by `Stack::new(initialSize, maxSize, start, access, Some(as))`
    and changed since by calls that completed, with `start` and `max_size`
    page-aligned and `max_size` within `isize`, `resize(new_size)` completes for
    every new size up to `start + max_size` that fits `isize`. It leaves the bottom
    at `start + max_size - min(new_size, max_size)` and the invariant, so the pages
    mapped after it depend on `new_size` alone and not on the calls before. -/
theorem reachable_resize (initialSize maxSize start : Nat) (access : AccessType) (as : AddressSpace)
    (hstart : start % pageSize = 0) (hmax : maxSize % pageSize = 0) (hwf : as.WF)
    (hmaxi : (maxSize : Int) ≤ isizeMax) :
    ∀ st, Reachable initialSize maxSize start access as st →
      ∀ newSize : Nat, (newSize : Int) ≤ isizeMax → newSize ≤ start + maxSize →
        ∃ as', st.1.resize AddressSpace.pager newSize st.2 =
            some ({ st.1 with bottomAddress := start + maxSize - min newSize maxSize }, as') ∧
          MapInv start { st.1 with bottomAddress := start + maxSize - min newSize maxSize } as' := by
  intro st h newSize hn hle
  obtain ⟨hm, hi⟩ := h.mapInv hstart hmax hwf
  have htop : st.1.topAddress = start + maxSize := by rw [hi.top_eq, hm]
  rw [← htop, ← hm]
  exact hi.resize_complete (htop ▸ h.top_le) (hm ▸ hmaxi) hn (htop ▸ hle)

/-- A user stack in the first user-stack slot of an empty address space. -/
theorem reachable_resize_userStack :
    userStackAreaBase % pageSize = 0 ∧ userStackMaxSize % pageSize = 0 ∧ AddressSpace.empty.WF ∧
      (userStackMaxSize : Int) ≤ isizeMax ∧
      ∀ st, Reachable 0 userStackMaxSize userStackAreaBase .UserAccessible AddressSpace.empty st →
        ∀ newSize : Nat, (newSize : Int) ≤ isizeMax → newSize ≤ userStackAreaBase + userStackMaxSize →
          let bottom := userStackAreaBase + userStackMaxSize - min newSize userStackMaxSize
          ∃ as', st.1.resize AddressSpace.pager newSize st.2 =
              some ({ st.1 with bottomAddress := bottom }, as') ∧
            MapInv userStackAreaBase { st.1 with bottomAddress := bottom } as' :=
  ⟨by decide, by decide, AddressSpace.WF.empty, by decide,
    reachable_resize 0 userStackMaxSize userStackAreaBase .UserAccessible AddressSpace.empty
      (by decide) (by decide) AddressSpace.WF.empty (by decide)⟩

end Stack

end BoringOS
