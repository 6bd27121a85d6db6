import BoringOS.Multitasking.Teardown

/-!
# Stacks sharing an address space

The address space of a process holds the user stacks of all its threads, each in
a segment of its own. A run interleaves `Stack::new`, calls on any live stack, and
drops of live stacks while the address space is the active one, as the NOTE of
`drop` assumes (`Stack.SharedReachable`). Every stack keeps its invariant whatever
the others do, and a page outside every segment keeps its entry (`Stack.Shared`).

## Main results

- `Stack.sharedReachable_shared` — every run keeps the invariant; a dropped stack
  has no page mapped while its segment stays registered
- `Stack.sharedReachable_newIn_eq_none` — `Stack::new` never reuses the segment of
  a stack of the run
- `Kernel.schedule_drops_userStack` — a scheduling step that drops a dead thread
  for a thread of its own process is a drop step of that process's run

## Design notes

A dropped stack stays in the run with its bottom raised to its top: `drop` does
not remove its segment.
-/

namespace BoringOS

namespace AddressSpace

/-- The arch-level `map_page` and `unmap_page` on the page table of this address
    space, which is what `None` reaches while it is the active one; they look at
    no segment. -/
def archPager : Pager AddressSpace :=
  ⟨fun pageAddress flags as => (as.pageTable.mapPage pageAddress flags).map fun pageTable =>
      { as with pageTable },
    fun pageAddress as => (as.pageTable.unmapPage pageAddress).map fun pageTable =>
      { as with pageTable }⟩

theorem pager_keeps_segments : pager.Keeps segments :=
  ⟨fun _ _ _ _ h => (mapPage_frame h).1, fun _ _ _ h => (unmapPage_frame h).1⟩

theorem archPager_keeps_segments : archPager.Keeps segments := by
  refine ⟨fun a f as as' h => ?_, fun a as as' h => ?_⟩ <;>
    obtain ⟨_, -, rfl⟩ := Option.map_eq_some'.mp h <;> rfl

/-- A loop of page operations that each edit only their own page keeps the
    segments and every page outside its range. -/
theorem forPages_frame {f : Nat → AddressSpace → Option AddressSpace}
    (hf : ∀ a as as', f a as = some as' →
      as'.segments = as.segments ∧ ∀ q, q ≠ pageNum a → as'.pageTable q = as.pageTable q)
    {first last : Nat} {as as' : AddressSpace} (h : forPages f first last as = some as') :
    as'.segments = as.segments ∧
      ∀ q, ¬(first ≤ q ∧ q < last) → as'.pageTable q = as.pageTable q :=
  ⟨forPages_keeps AddressSpace.segments (fun _ _ _ ht => (hf _ _ _ ht).1) h, fun q hq =>
    forPages_keeps_of_range (fun as => as.pageTable q) (fun p _ _ h₁ h₂ ht =>
      (hf _ _ _ ht).2 q (by rw [pageNum_fromPageNum]; omega)) h⟩

end AddressSpace

namespace Stack

/-- The segment `Stack::new` registers for a stack whose segment starts at
    `start`: `MemoryArea::new(start_address, max_size)` with the stack's flags. -/
def segment (start : Nat) (s : Stack) : Segment :=
  ⟨⟨start, s.maxSize⟩, pageFlags s.accessType, .MemoryOnly⟩

/-- A call keeps the segments. -/
theorem Call.run_segments {c : Call} {s s' : Stack} {as as' : AddressSpace}
    (hc : c.run (s, as) = some (s', as')) : as'.segments = as.segments := by
  cases c with
  | grow => exact grow_keeps AddressSpace.pager_keeps_segments hc
  | shrink => exact shrink_keeps AddressSpace.pager_keeps_segments hc
  | resize => exact resize_keeps AddressSpace.pager_keeps_segments hc

/-! ### One stack -/

section Frame

variable {start : Nat} {s : Stack} {as : AddressSpace}

/-- The invariant reads only the registered segments and the pages of the
    stack's segment. -/
theorem MapInv.congr (h : MapInv start s as) {as' : AddressSpace}
    (hseg : ∀ seg ∈ as.segments, seg ∈ as'.segments)
    (hpt : ∀ p, pageNum start ≤ p → p < pageNum s.topAddress → as'.pageTable p = as.pageTable p) :
    MapInv start s as' := by
  obtain ⟨seg, hs, harea⟩ := h.segment
  exact ⟨h.top_eq, h.start_le_bottom, h.bottom_le_top, h.start_aligned, h.maxSize_aligned,
    ⟨seg, hseg seg hs, harea⟩, fun p h₁ h₂ => by rw [hpt p h₁ h₂]; exact h.mapped p h₁ h₂⟩

/-- Two stacks whose segments share no byte share no page. -/
theorem MapInv.pages_disjoint (h : MapInv start s as) {start' : Nat} {s' : Stack}
    {as' : AddressSpace} (h' : MapInv start' s' as')
    (hd : (⟨start, s.maxSize⟩ : MemoryArea).Disjoint ⟨start', s'.maxSize⟩) {p : Nat}
    (h₁ : pageNum start ≤ p) (h₂ : p < pageNum s.topAddress) :
    ¬(pageNum start' ≤ p ∧ p < pageNum s'.topAddress) := fun ⟨h₁', h₂'⟩ =>
  hd _ (h.mem_segment h₁ h₂).1 (h'.mem_segment h₁' h₂').1

/-- A `grow` keeps the segments and every page outside the stack's segment. -/
theorem MapInv.grow_frame (h : MapInv start s as) {amount : Nat} {s' : Stack} {as' : AddressSpace}
    (hg : s.grow AddressSpace.pager amount as = some (s', as')) :
    as'.segments = as.segments ∧
      ∀ q, ¬(pageNum start ≤ q ∧ q < pageNum s.topAddress) → as'.pageTable q = as.pageTable q := by
  obtain ⟨b, hb, hf, -⟩ := Stack.grow_eq_some.mp hg
  obtain ⟨-, -, rfl⟩ := growBottom_eq_some.mp hb
  have := h.top_eq
  have h₁ := pageNum_mono
    (show start ≤ max (s.topAddress - s.maxSize) (s.bottomAddress - amount) by omega)
  have h₂ := pageNum_mono h.bottom_le_top
  obtain ⟨hseg, hpt⟩ := AddressSpace.forPages_frame (fun _ _ _ => AddressSpace.mapPage_frame) hf
  exact ⟨hseg, fun q hq => hpt q (by omega)⟩

/-- A `shrink` keeps the segments and every page outside the stack's segment. -/
theorem MapInv.shrink_frame (h : MapInv start s as) {amount : Nat} {s' : Stack}
    {as' : AddressSpace} (hs : s.shrink AddressSpace.pager amount as = some (s', as')) :
    as'.segments = as.segments ∧
      ∀ q, ¬(pageNum start ≤ q ∧ q < pageNum s.topAddress) → as'.pageTable q = as.pageTable q := by
  obtain ⟨b, hb, hf, -⟩ := Stack.shrink_eq_some.mp hs
  obtain ⟨-, rfl⟩ := shrinkBottom_eq_some.mp hb
  have h₁ := pageNum_mono h.start_le_bottom
  have h₂ := pageNum_mono (min_le_left s.topAddress (s.bottomAddress + amount))
  obtain ⟨hseg, hpt⟩ := AddressSpace.forPages_frame (fun _ _ _ => AddressSpace.unmapPage_frame) hf
  exact ⟨hseg, fun q hq => hpt q (by omega)⟩

/-- A call keeps the segments and every page outside the stack's segment. -/
theorem MapInv.run_frame (h : MapInv start s as) {c : Call} {st : Stack × AddressSpace}
    (hc : c.run (s, as) = some st) :
    st.2.segments = as.segments ∧
      ∀ q, ¬(pageNum start ≤ q ∧ q < pageNum s.topAddress) → st.2.pageTable q = as.pageTable q := by
  obtain ⟨s', as'⟩ := st
  cases c with
  | grow => exact h.grow_frame hc
  | shrink => exact h.shrink_frame hc
  | resize =>
    obtain ⟨_, hc⟩ | ⟨_, hc⟩ := resize_eq_some_cases hc
    · exact h.grow_frame hc
    · exact h.shrink_frame hc

/-- A drop that completes has read a size that fits `isize`. -/
theorem size_le_of_drop {σ : Type} {P : Pager σ} {t t' : σ} (hb : s.bottomAddress ≤ s.topAddress)
    (hd : s.drop P t = some t') : (s.size : Int) ≤ isizeMax := by
  obtain ⟨_, hr, -⟩ := Option.map_eq_some'.mp hd
  obtain ⟨d, hd, -⟩ := Option.bind_eq_some.mp hr
  simp only [addrDistance, isizeChecked_eq_some] at hd
  simp only [size]; omega

/-- A drop in the stack's own address space, of a stack whose size fits `isize`,
    completes and unmaps the pages from `page_num(bottom)` up to `page_num(top)`,
    and no other. -/
theorem MapInv.drop_archPager_eq (h : MapInv start s as) (ht : s.topAddress ≤ usizeMax)
    (hs : (s.size : Int) ≤ isizeMax) :
    s.drop AddressSpace.archPager as = some { as with pageTable := s.clearPages as.pageTable } := by
  rw [drop_eq h.bottom_le_top ht hs]
  refine forPages_update (fun pageTable => { as with pageTable }) (fun _ => none)
    (fun _ e => e.isSome) (pageNum_mono h.bottom_le_top) rfl (fun p pt _ _ hp => ?_) fun p h₁ h₂ => ?_
  · simp [AddressSpace.archPager, PageTable.unmapPage, hp]
  · exact (h.mapped p (le_trans (pageNum_mono h.start_le_bottom) h₁) h₂).mpr h₁

/-- What a drop in the stack's own address space leaves when it completes. -/
theorem MapInv.drop_archPager (h : MapInv start s as) (ht : s.topAddress ≤ usizeMax)
    {as' : AddressSpace} (hd : s.drop AddressSpace.archPager as = some as') :
    as' = { as with pageTable := s.clearPages as.pageTable } :=
  Option.some.inj (hd.symm.trans (h.drop_archPager_eq ht (size_le_of_drop h.bottom_le_top hd)))

/-- After a drop in its own address space the stack's segment has no page mapped:
    the invariant holds with the bottom raised to the top. -/
theorem MapInv.dropped (h : MapInv start s as) (ht : s.topAddress ≤ usizeMax)
    {as' : AddressSpace} (hd : s.drop AddressSpace.archPager as = some as') :
    MapInv start { s with bottomAddress := s.topAddress } as' := by
  obtain rfl := h.drop_archPager ht hd
  refine ⟨h.top_eq, le_trans h.start_le_bottom h.bottom_le_top, le_rfl, h.start_aligned,
    h.maxSize_aligned, h.segment, fun p h₁ h₂ => ?_⟩
  dsimp only [clearPages] at h₂ ⊢
  split
  · simp only [Option.isSome_none, Bool.false_eq_true, false_iff]; omega
  · rw [h.mapped p h₁ h₂]; omega

end Frame

/-! ### Several stacks -/

/-- The stacks of the address space `as`, each with the start of its segment, in
    a run from `as₀`. -/
structure Shared (as₀ : AddressSpace) (slots : List (Nat × Stack)) (as : AddressSpace) : Prop where
  /-- The segments are those of the stacks and those of `as₀`. -/
  segments_perm : as.segments.Perm (slots.map (fun x => segment x.1 x.2) ++ as₀.segments)
  /-- Every top fits `usize`, as `Stack::new` computed it. -/
  top_le : ∀ x ∈ slots, x.2.topAddress ≤ usizeMax
  /-- Every stack keeps its invariant. -/
  mapInv : ∀ x ∈ slots, MapInv x.1 x.2 as
  /-- The segments of the stacks share no byte. -/
  disjoint : (slots.map fun x => (segment x.1 x.2).area).Pairwise MemoryArea.Disjoint
  /-- A page outside the segment of every stack has its entry of `as₀`. -/
  frame : ∀ p, (∀ x ∈ slots, ¬(pageNum x.1 ≤ p ∧ p < pageNum x.2.topAddress)) →
    as.pageTable p = as₀.pageTable p

section Shared

variable {as₀ as : AddressSpace} {slots rest : List (Nat × Stack)}

theorem Shared.init : Shared as₀ [] as₀ :=
  ⟨by simp, by simp, by simp, by simp, fun _ _ => rfl⟩

/-- The invariant does not depend on the order of the stacks. -/
theorem Shared.perm (h : Shared as₀ slots as) {slots' : List (Nat × Stack)}
    (hp : slots.Perm slots') : Shared as₀ slots' as :=
  ⟨h.segments_perm.trans ((hp.map _).append_right _), fun x hx => h.top_le x (hp.mem_iff.mpr hx),
    fun x hx => h.mapInv x (hp.mem_iff.mpr hx),
    ((hp.map _).pairwise_iff fun hd => hd.symm).mp h.disjoint,
    fun p hp' => h.frame p fun x hx => hp' x (hp.mem_iff.mp hx)⟩

/-- Every mapped page meets a segment: a page of a stack meets the stack's, and
    any other page is as in `as₀`. -/
theorem Shared.wf (h : Shared as₀ slots as) (hwf : as₀.WF) : as.WF := by
  intro p hp
  by_cases hin : ∃ x ∈ slots, pageNum x.1 ≤ p ∧ p < pageNum x.2.topAddress
  · obtain ⟨x, hx, h₁, h₂⟩ := hin
    have hmx := h.mapInv x hx
    obtain ⟨seg, hs, harea⟩ := hmx.segment
    exact ⟨seg, hs, fromPageNum p, harea ▸ (hmx.mem_segment h₁ h₂).1, pageNum_fromPageNum p⟩
  · rw [h.frame p fun x hx hp' => hin ⟨x, hx, hp'⟩] at hp
    obtain ⟨seg, hs, hx⟩ := hwf p hp
    exact ⟨seg, h.segments_perm.symm.subset (List.mem_append_right _ hs), hx⟩

/-- A step that moves the bottom of one stack, keeps the segments and edits only
    pages of that stack's segment keeps the invariant, if the stack keeps its
    own. -/
theorem Shared.update {start : Nat} {s : Stack} (h : Shared as₀ ((start, s) :: rest) as) {b : Nat}
    {as' : AddressSpace} (hm : MapInv start { s with bottomAddress := b } as')
    (hseg : as'.segments = as.segments)
    (hpt : ∀ q, ¬(pageNum start ≤ q ∧ q < pageNum s.topAddress) → as'.pageTable q = as.pageTable q) :
    Shared as₀ ((start, { s with bottomAddress := b }) :: rest) as' := by
  obtain ⟨hms, hmr⟩ := List.forall_mem_cons.mp h.mapInv
  have hdis := (List.pairwise_cons.mp h.disjoint).1
  refine ⟨hseg ▸ h.segments_perm, List.forall_mem_cons.mpr (List.forall_mem_cons.mp h.top_le),
    List.forall_mem_cons.mpr ⟨hm, fun x hx => ?_⟩, h.disjoint, fun p hp => ?_⟩
  · -- Another stack: its pages lie outside the segment of the one that changed.
    refine (hmr x hx).congr (fun seg hs => hseg ▸ hs) fun p h₁ h₂ => hpt p ?_
    exact (hmr x hx).pages_disjoint hms (hdis _ (List.mem_map_of_mem _ hx)).symm h₁ h₂
  · obtain ⟨hp₀, hpr⟩ := List.forall_mem_cons.mp hp
    rw [hpt p hp₀]
    exact h.frame p (List.forall_mem_cons.mpr ⟨hp₀, hpr⟩)

/-- A call on one stack keeps the invariant. -/
theorem Shared.call {start : Nat} {s : Stack} (h : Shared as₀ ((start, s) :: rest) as) {c : Call}
    {st : Stack × AddressSpace} (hc : c.run (s, as) = some st) :
    Shared as₀ ((start, st.1) :: rest) st.2 := by
  have hms : MapInv start s as := h.mapInv _ (List.mem_cons_self _ _)
  obtain ⟨s', as'⟩ := st
  obtain ⟨b, rfl⟩ := Call.run_stack hc
  exact h.update (hms.run c hc) (hms.run_frame hc).1 (hms.run_frame hc).2

/-- A drop of one stack in its own address space keeps the invariant, with the
    stack left empty. -/
theorem Shared.drop {start : Nat} {s : Stack} (h : Shared as₀ ((start, s) :: rest) as)
    {as' : AddressSpace} (hd : s.drop AddressSpace.archPager as = some as') :
    Shared as₀ ((start, { s with bottomAddress := s.topAddress }) :: rest) as' := by
  have hms : MapInv start s as := h.mapInv _ (List.mem_cons_self _ _)
  have ht : s.topAddress ≤ usizeMax := h.top_le _ (List.mem_cons_self _ _)
  have heq := hms.drop_archPager ht hd
  have hb := pageNum_mono hms.start_le_bottom
  refine h.update (hms.dropped ht hd) (by rw [heq]) fun q hq => ?_
  rw [heq]; dsimp only [clearPages]; rw [if_neg (by omega)]

/-- The segment `Stack::new` registers, page-aligned, joins the invariant with a
    stack that has no page in use. -/
theorem Shared.register (h : Shared as₀ slots as) (hwf : as₀.WF) {maxSize start top : Nat}
    {access : AccessType} {as' : AddressSpace} (hstart : start % pageSize = 0)
    (hmax : maxSize % pageSize = 0) (htop : addrAdd start maxSize = some top)
    (has : addStackSegment ⟨⟨start, maxSize⟩, pageFlags access, .MemoryOnly⟩ as = some as') :
    Shared as₀ ((start, ⟨top, top, maxSize, top, access⟩) :: slots) as' := by
  have hnew := mapInv_registered hstart hmax (h.wf hwf) htop has
  obtain ⟨hov, rfl⟩ := AddressSpace.addSegment_eq_true.mp (addStackSegment_eq_some.mp has)
  -- The new segment shares no byte with the segment of any stack.
  have hsep : ∀ x ∈ slots, (segment x.1 x.2).area.Disjoint ⟨start, maxSize⟩ := fun x hx =>
    AddressSpace.disjoint_of_overlaps_eq_false (hov _ (h.segments_perm.symm.subset
      (List.mem_append_left _ (List.mem_map_of_mem _ hx))))
  obtain ⟨htop', rfl⟩ := usizeAdd_eq_some.mp htop
  refine ⟨h.segments_perm.cons _, List.forall_mem_cons.mpr ⟨htop', h.top_le⟩,
    List.forall_mem_cons.mpr ⟨hnew, fun x hx =>
      (h.mapInv x hx).congr (fun _ => List.mem_cons_of_mem _) fun _ _ _ => rfl⟩,
    List.pairwise_cons.mpr ⟨?_, h.disjoint⟩, fun p hp => h.frame p (List.forall_mem_cons.mp hp).2⟩
  simp only [List.mem_map]
  rintro _ ⟨x, hx, rfl⟩
  exact (hsep x hx).symm

end Shared

/-! ### Runs -/

/-- The stacks of an address space from `as₀` on: `live` holds every live stack
    with the start of its segment, `dead` every dropped one as its drop left it.
    A step is a `Stack::new` in a page-aligned segment, a call on any live stack,
    or the drop of any live stack while the address space is the active one. -/
inductive SharedReachable (as₀ : AddressSpace) :
    List (Nat × Stack) → List (Nat × Stack) → AddressSpace → Prop
  | init : SharedReachable as₀ [] [] as₀
  | new {live dead : List (Nat × Stack)} {as : AddressSpace} {st : Stack × AddressSpace}
    (initialSize maxSize start : Nat) (access : AccessType) :
    start % pageSize = 0 → maxSize % pageSize = 0 → SharedReachable as₀ live dead as →
    newIn initialSize maxSize start access as = some st →
    SharedReachable as₀ ((start, st.1) :: live) dead st.2
  | call {l₁ l₂ dead : List (Nat × Stack)} {as : AddressSpace} {start : Nat} {s : Stack}
    {st : Stack × AddressSpace} (c : Call) :
    SharedReachable as₀ (l₁ ++ (start, s) :: l₂) dead as → c.run (s, as) = some st →
    SharedReachable as₀ (l₁ ++ (start, st.1) :: l₂) dead st.2
  | drop {l₁ l₂ dead : List (Nat × Stack)} {as as' : AddressSpace} {start : Nat} {s : Stack} :
    SharedReachable as₀ (l₁ ++ (start, s) :: l₂) dead as →
    s.drop AddressSpace.archPager as = some as' →
    SharedReachable as₀ (l₁ ++ l₂) ((start, { s with bottomAddress := s.topAddress }) :: dead) as'

/-- The segments of a run are those of its stacks, live and dropped, and those of
    `as₀`: nothing but `new` adds one, and nothing takes one away. -/
theorem SharedReachable.segments_perm {as₀ : AddressSpace} {live dead : List (Nat × Stack)}
    {as : AddressSpace} (h : SharedReachable as₀ live dead as) :
    as.segments.Perm ((live ++ dead).map (fun x => segment x.1 x.2) ++ as₀.segments) := by
  induction h with
  | init => simp
  | @new live dead as st initialSize maxSize start access _ _ _ hn ih =>
    obtain ⟨s', as'⟩ := st
    obtain ⟨top, -, as₁, has, hr⟩ := newIn_eq_some.mp hn
    obtain ⟨-, rfl⟩ := AddressSpace.addSegment_eq_true.mp (addStackSegment_eq_some.mp has)
    have hc : (Call.resize initialSize).run (⟨top, top, maxSize, top, access⟩, _) = some _ := hr
    obtain ⟨b, rfl⟩ := Call.run_stack hc
    rw [Call.run_segments hc]
    exact ih.cons _
  | @call l₁ l₂ dead as start s st c _ hc ih =>
    obtain ⟨s', as'⟩ := st
    obtain ⟨b, rfl⟩ := Call.run_stack hc
    rw [Call.run_segments hc]
    simpa [segment] using ih
  | @drop l₁ l₂ dead as as' start s _ hd ih =>
    rw [drop_keeps AddressSpace.archPager_keeps_segments hd]
    have hp : (l₁ ++ (start, s) :: l₂ ++ dead).Perm (l₁ ++ l₂ ++ (start, s) :: dead) :=
      (List.perm_middle.append_right dead).trans List.perm_middle.symm
    refine ih.trans (List.Perm.append_right _ ?_)
    simpa [segment] using hp.map (fun x => segment x.1 x.2)

/-- Every run keeps the invariant over the live and the dropped stacks, and a
    dropped stack has nothing in use. -/
theorem SharedReachable.shared {as₀ : AddressSpace} (hwf : as₀.WF) {live dead : List (Nat × Stack)}
    {as : AddressSpace} (h : SharedReachable as₀ live dead as) :
    Shared as₀ (live ++ dead) as ∧ ∀ x ∈ dead, x.2.bottomAddress = x.2.topAddress := by
  induction h with
  | init => exact ⟨Shared.init, by simp⟩
  | new initialSize maxSize start access hstart hmax _ hn ih =>
    obtain ⟨top, htop, as₁, has, hr⟩ := newIn_eq_some.mp hn
    have hc : (Call.resize initialSize).run (⟨top, top, maxSize, top, access⟩, as₁) = some _ := hr
    exact ⟨(ih.1.register hwf hstart hmax htop has).call hc, ih.2⟩
  | call c _ hc ih =>
    -- The stack called on is moved to the front and back.
    exact ⟨((ih.1.perm (List.perm_middle.append_right _)).call hc).perm
      (List.perm_middle.append_right _).symm, ih.2⟩
  | drop _ hd ih =>
    exact ⟨((ih.1.perm (List.perm_middle.append_right _)).drop hd).perm List.perm_middle.symm,
      by simpa using ih.2⟩

/-- In one address space, under any interleaving of `Stack::new` in page-aligned
    segments, of `grow`, `shrink` and `resize` on any live stack and of drops of
    live stacks in their own address space: the segments are those of the stacks
    and those there before, no two stacks' segments share a byte, every stack
    keeps `MapInv` (its mapped pages are exactly those from its bottom to its
    top), every page outside the stacks' segments keeps its entry, and every
    dropped stack has no page mapped while its segment stays registered. -/
theorem sharedReachable_shared (as₀ : AddressSpace) (hwf : as₀.WF) :
    ∀ live dead as, SharedReachable as₀ live dead as →
      Shared as₀ (live ++ dead) as ∧
        ∀ x ∈ dead, segment x.1 x.2 ∈ as.segments ∧
          ∀ p, pageNum x.1 ≤ p → p < pageNum x.2.topAddress → as.pageTable p = none := by
  intro live dead as h
  obtain ⟨hs, hd⟩ := h.shared hwf
  refine ⟨hs, fun x hx => ⟨hs.segments_perm.symm.subset (List.mem_append_left _
    (List.mem_map_of_mem _ (List.mem_append_right _ hx))), fun p h₁ h₂ => ?_⟩⟩
  have hm := (hs.mapInv x (List.mem_append_right _ hx)).mapped p h₁ h₂
  rw [hd x hx] at hm
  exact Option.not_isSome_iff_eq_none.mp fun hp => absurd (hm.mp hp) (by omega)

/-- The stacks of an address space with nothing in it. -/
theorem sharedReachable_shared_empty :
    AddressSpace.empty.WF ∧ ∀ live dead as, SharedReachable AddressSpace.empty live dead as →
      Shared AddressSpace.empty (live ++ dead) as ∧
        ∀ x ∈ dead, segment x.1 x.2 ∈ as.segments ∧
          ∀ p, pageNum x.1 ≤ p → p < pageNum x.2.topAddress → as.pageTable p = none :=
  ⟨AddressSpace.WF.empty, sharedReachable_shared _ AddressSpace.WF.empty⟩

/-- `Stack::new` in a segment that shares a byte with the segment of a stack of a
    run, live or dropped, panics with "Could not add stack segment.": the address
    space never hands out the segment of a stack twice, since a drop does not give
    it back. -/
theorem sharedReachable_newIn_eq_none (as₀ : AddressSpace) :
    ∀ live dead as, SharedReachable as₀ live dead as → ∀ x ∈ live ++ dead,
      ∀ initialSize maxSize start access,
        ¬(segment x.1 x.2).area.Disjoint ⟨start, maxSize⟩ →
          newIn initialSize maxSize start access as = none := by
  intro live dead as h x hx initialSize maxSize start access hov
  have hseg := h.segments_perm.symm.subset (List.mem_append_left _ (List.mem_map_of_mem _ hx))
  have hov' : AddressSpace.overlaps (segment x.1 x.2).area ⟨start, maxSize⟩ = true := by
    by_contra hc
    exact hov (AddressSpace.disjoint_of_overlaps_eq_false (by simpa using hc))
  have hany : (as.segments.any fun s => AddressSpace.overlaps s.area ⟨start, maxSize⟩) = true :=
    List.any_eq_true.mpr ⟨_, hseg, hov'⟩
  cases addrAdd start maxSize <;>
    simp [newIn, new, addStackSegment, AddressSpace.addSegment, hany]

/-- A user stack in the first user-stack slot of an empty address space: a second
    `Stack::new` in the first page of that slot panics. -/
theorem sharedReachable_newIn_eq_none_sameSlot :
    ∃ us as, newIn 0x1000 userStackMaxSize userStackAreaBase .UserAccessible AddressSpace.empty =
        some (us, as) ∧
      SharedReachable AddressSpace.empty ((userStackAreaBase, us) :: []) [] as ∧
      (userStackAreaBase, us) ∈ (userStackAreaBase, us) :: [] ++ [] ∧
      ¬(segment userStackAreaBase us).area.Disjoint ⟨userStackAreaBase, 0x1000⟩ ∧
      newIn 0 0x1000 userStackAreaBase .UserAccessible as = none := by
  refine ⟨_, _, rfl, ?_⟩
  have hr : SharedReachable AddressSpace.empty ((userStackAreaBase, _) :: []) [] _ :=
    @SharedReachable.new AddressSpace.empty [] [] AddressSpace.empty _ 0x1000 userStackMaxSize
      userStackAreaBase .UserAccessible (by decide) (by decide) .init rfl
  refine ⟨hr, List.mem_cons_self _ _, fun hd => hd userStackAreaBase (by decide) (by decide), ?_⟩
  exact sharedReachable_newIn_eq_none _ _ _ _ hr _ (List.mem_cons_self _ _) _ _ _ _
    fun hd => hd userStackAreaBase (by decide) (by decide)

end Stack

/-! ### The teardown of a dead thread -/

/-- A scheduling step that drops a dead thread and switches to a thread of the
    same process is, on that process's address space, the drop of the dead
    thread's user stack in its own address space: when the stacks of the address
    space come from a run, so does the address space after the step, with that
    stack dropped and every other stack as it was. The dead thread's kernel stack
    leaves the kernel half, and no other process changes. -/
theorem Kernel.schedule_drops_userStack {k : Kernel} {s' : Scheduler} {t : TCB} {pcb : PCB}
    {as₀ : AddressSpace} {l₁ l₂ dead : List (Nat × Stack)} {start : Nat} {us : Stack}
    (hs : k.scheduler.scheduleNextThread = some (s', some t)) (hsame : s'.currentThread.pid = t.pid)
    (hk : t.kernelStack.Fits) (hkp : t.kernelStack.PagesIn false k.kernelPageTable)
    (hu : t.userStack = some us) (hpcb : k.processList t.pid = some pcb) (hpos : 0 < pcb.threadCount)
    (hwf : as₀.WF) (hreach : Stack.SharedReachable as₀ (l₁ ++ (start, us) :: l₂) dead pcb.addressSpace)
    (hlow : us.topAddress ≤ virtualLowMaxAddress + 1) (hmaxi : (us.maxSize : Int) ≤ isizeMax) :
    ∃ k', k.schedule = some k' ∧ k'.scheduler = s' ∧
      k'.kernelPageTable = t.kernelStack.clearPages k.kernelPageTable ∧
      (∀ q, q ≠ t.pid → k'.processList q = k.processList q) ∧
      ∀ pcb', k'.processList t.pid = some pcb' →
        Stack.SharedReachable as₀ (l₁ ++ l₂) ((start, { us with bottomAddress := us.topAddress }) :: dead)
          pcb'.addressSpace := by
  have hmem : (start, us) ∈ l₁ ++ (start, us) :: l₂ ++ dead := by simp
  obtain ⟨hsh, -⟩ := hreach.shared hwf
  have hm : Stack.MapInv start us pcb.addressSpace := hsh.mapInv _ hmem
  have ht : us.topAddress ≤ usizeMax := hsh.top_le _ hmem
  have hf := hm.fits ht hmaxi
  obtain ⟨k', h₁, h₂, h₃, h₄, h₅⟩ :=
    schedule_clears_own_stacks hs hsame hk hkp hu hf hpcb (hm.pagesIn hlow) hpos
  refine ⟨k', h₁, h₂, h₃, h₄, fun pcb' h' => ?_⟩
  rw [h₅ pcb' h']
  exact .drop hreach (hm.drop_archPager_eq ht hf.size_le)

/-- Process 1 has two threads: thread 1, dead and current, with one kernel-stack
    page mapped in the kernel half and a user stack of one page that `Stack::new`
    built and mapped in the first user-stack slot of the process's address space;
    and thread 2, ready. The scheduling step switches to thread 2 and drops thread
    1 in the address space they share. -/
theorem schedule_drops_userStack_sameProcess :
    ∃ us as, Stack.newIn 0x1000 userStackMaxSize userStackAreaBase .UserAccessible
        AddressSpace.empty = some (us, as) ∧
      as.pageTable (pageNum (userStackAreaBase + userStackMaxSize) - 1) =
        some (Stack.pageFlags .UserAccessible) ∧
      let kernelTop := kernelStackAreaBase + kernelStackMaxSize
      let dead : TCB := ⟨1, 1, 5, .Dead,
        ⟨kernelTop, kernelTop - 0x1000, kernelStackMaxSize, kernelTop, .KernelOnly⟩, some us⟩
      let next : TCB := ⟨2, 1, 5, .Ready, ⟨0, 0, 0, 0, .KernelOnly⟩, none⟩
      let idle : TCB := ⟨0, 0, 0, .Ready, ⟨0, 0, 0, 0, .KernelOnly⟩, none⟩
      let pcb : PCB := ⟨as, 2, .Active⟩
      let k : Kernel := ⟨⟨[next, idle], dead, none⟩,
        fun pid => if pid = 0 then some (PCB.new AddressSpace.empty)
          else if pid = 1 then some pcb else none,
        Function.update (fun _ => none) (pageNum kernelTop - 1) (some (Stack.pageFlags .KernelOnly))⟩
      let s' : Scheduler := ⟨[idle], next.setRunning, none⟩
      k.scheduler.scheduleNextThread = some (s', some dead) ∧ s'.currentThread.pid = dead.pid ∧
      dead.kernelStack.Fits ∧ dead.kernelStack.PagesIn false k.kernelPageTable ∧
      dead.userStack = some us ∧ k.processList dead.pid = some pcb ∧ 0 < pcb.threadCount ∧
      AddressSpace.empty.WF ∧
      Stack.SharedReachable AddressSpace.empty ([] ++ (userStackAreaBase, us) :: []) [] pcb.addressSpace ∧
      us.topAddress ≤ virtualLowMaxAddress + 1 ∧ (us.maxSize : Int) ≤ isizeMax ∧
      ∃ k', k.schedule = some k' ∧ k'.scheduler = s' ∧
        k'.kernelPageTable = dead.kernelStack.clearPages k.kernelPageTable ∧
        (∀ q, q ≠ dead.pid → k'.processList q = k.processList q) ∧
        ∀ pcb', k'.processList dead.pid = some pcb' →
          Stack.SharedReachable AddressSpace.empty ([] ++ [])
            ((userStackAreaBase, { us with bottomAddress := us.topAddress }) :: []) pcb'.addressSpace := by
  refine ⟨_, _, rfl, by decide, ?_⟩
  intro kernelTop dead next idle pcb k s'
  have hs : k.scheduler.scheduleNextThread = some (s', some dead) := rfl
  have hk : dead.kernelStack.Fits := ⟨by decide, by decide, by decide⟩
  have hpage : pageNum (kernelTop - 0x1000) = pageNum kernelTop - 1 := by decide
  have hkp : dead.kernelStack.PagesIn false k.kernelPageTable := fun p h₁ h₂ => by
    obtain rfl : p = pageNum kernelTop - 1 := by dsimp only [dead] at h₁ h₂; omega
    exact ⟨by decide, by simp [k]⟩
  have hreach : Stack.SharedReachable AddressSpace.empty ([] ++ (userStackAreaBase, _) :: []) []
      pcb.addressSpace :=
    @Stack.SharedReachable.new AddressSpace.empty [] [] AddressSpace.empty _ 0x1000 userStackMaxSize
      userStackAreaBase .UserAccessible (by decide) (by decide) .init rfl
  exact ⟨hs, rfl, hk, hkp, rfl, rfl, by decide, AddressSpace.WF.empty, hreach, by decide, by decide,
    Kernel.schedule_drops_userStack hs rfl hk hkp rfl rfl (by decide) AddressSpace.WF.empty hreach
      (by decide) (by decide)⟩

end BoringOS
