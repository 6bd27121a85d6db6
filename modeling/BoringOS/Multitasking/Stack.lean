import BoringOS.Memory.AddressSpace

/-!
# Stacks

`Stack` of `multitasking::stack`: a full-descending stack whose pages between
`bottomAddress` and `topAddress` are mapped. `grow` lowers the bottom and maps the
pages it uncovers, `shrink` raises it and unmaps the pages it vacates, `resize`
does one of the two by the signed difference of the sizes, and dropping a stack
resizes it to zero.

The page operations go through a `Pager`: with `Some(address_space)` those of the
address-space object, with `None` the arch-level ones on the active page table.
The loops over pages are `forPages`, with its loop rule `forPages_of_step`.

## Main results

- `grow_eq_some`, `shrink_eq_some`, `resize_eq` — what each call computes
- `forPages_logCall`, `grow_map`, `shrink_map`, `resize_map` — the log of a loop of
  page operations, and the logging pager runs the calls as the pager it logs
- `grow_eq_none_of_lt`, `resize_usizeMax` — what they do with amounts beyond the
  stack: `grow` panics on `bottom - amount`, and `resize(usize::MAX)` reads
  `usize::MAX as isize` as `-1` and empties the stack
-/

namespace BoringOS

/-- Determines the type of accesses possible for this stack. -/
inductive AccessType where
  | UserAccessible
  | KernelOnly
  deriving DecidableEq, Repr

/-- A full-descending stack. -/
structure Stack where
  topAddress : Nat
  bottomAddress : Nat
  maxSize : Nat
  baseStackPointer : Nat
  accessType : AccessType
  deriving DecidableEq, Repr

/-- Where `grow` and `shrink` send their page operations (`map_fn`, `unmap_fn`),
    over a state `σ` holding the page tables they edit. -/
structure Pager (σ : Type) where
  mapPage : Nat → PageFlags → σ → Option σ
  unmapPage : Nat → σ → Option σ

/-- `Some(address_space)`: the address space's own `map_page`, which takes the
    flags from the segment and ignores those `grow` passes, and `unmap_page`. -/
def AddressSpace.pager : Pager AddressSpace :=
  ⟨fun pageAddress _ as => as.mapPage pageAddress, fun pageAddress as => as.unmapPage pageAddress⟩

/-- `for page_num in first..last { f(VirtualAddress::from_page_num(page_num)) }`,
    where a panic in `f` ends the loop. -/
def forPages {σ : Type} (f : Nat → σ → Option σ) (first last : Nat) (t : σ) : Option σ :=
  (List.range' first (last - first)).foldlM (fun t pageNum => f (fromPageNum pageNum) t) t

theorem forPages_of_le {σ : Type} (f : Nat → σ → Option σ) {first last : Nat} (h : last ≤ first)
    (t : σ) : forPages f first last t = some t := by
  simp [forPages, Nat.sub_eq_zero_of_le h]

theorem forPages_of_lt {σ : Type} (f : Nat → σ → Option σ) {first last : Nat} (h : first < last)
    (t : σ) : forPages f first last t = (f (fromPageNum first) t).bind (forPages f (first + 1) last) := by
  rw [forPages, show last - first = last - (first + 1) + 1 by omega, List.range'_succ,
    List.foldlM_cons]; rfl

/-- The loop rule of `forPages`: an invariant that holds before the first page and
    that each call carries from one page to the next holds after the last. -/
theorem forPages_of_step {σ : Type} {f : Nat → σ → Option σ} (I : Nat → σ → Prop)
    {first last : Nat} (hle : first ≤ last) {t : σ} (h₀ : I first t)
    (hstep : ∀ p t, first ≤ p → p < last → I p t → ∃ t', f (fromPageNum p) t = some t' ∧ I (p + 1) t') :
    ∃ t', forPages f first last t = some t' ∧ I last t' := by
  obtain ⟨n, rfl⟩ := Nat.exists_eq_add_of_le hle
  clear hle
  induction n generalizing first t with
  | zero => exact ⟨t, forPages_of_le f (by omega) t, h₀⟩
  | succ n ih =>
    obtain ⟨t', hf, hI⟩ := hstep first t le_rfl (by omega) h₀
    obtain ⟨t'', hl, hI'⟩ := ih hI fun p t h₁ h₂ => hstep p t (by omega) (by omega)
    rw [show first + (n + 1) = first + 1 + n by omega]
    exact ⟨t'', by rw [forPages_of_lt f (by omega), hf, Option.some_bind, hl], hI'⟩

/-- What every call of `f` on a page of `[first, last)` keeps, the loop keeps. -/
theorem forPages_keeps_of_range {σ β : Type} {f : Nat → σ → Option σ} (g : σ → β) {first last : Nat}
    (hf : ∀ p t t', first ≤ p → p < last → f (fromPageNum p) t = some t' → g t' = g t) {t t' : σ}
    (h : forPages f first last t = some t') : g t' = g t := by
  unfold forPages at h
  have hmem : ∀ p ∈ List.range' first (last - first), first ≤ p ∧ p < last := fun p hp => by
    rw [List.mem_range'_1] at hp; omega
  generalize List.range' first (last - first) = l at h hmem
  induction l generalizing t with
  | nil => cases h; rfl
  | cons p ps ih =>
    obtain ⟨u, hu, h⟩ := Option.bind_eq_some.mp h
    obtain ⟨h₁, h₂⟩ := hmem p (List.mem_cons_self _ _)
    rw [ih h fun q hq => hmem q (List.mem_cons_of_mem _ hq), hf p _ _ h₁ h₂ hu]

/-- What every call of `f` keeps, a loop over pages keeps. -/
theorem forPages_keeps {σ β : Type} {f : Nat → σ → Option σ} (g : σ → β)
    (hf : ∀ a t t', f a t = some t' → g t' = g t) {first last : Nat} {t t' : σ}
    (h : forPages f first last t = some t') : g t' = g t :=
  forPages_keeps_of_range g (fun _ _ _ _ _ => hf _ _ _) h

/-- A loop whose call on page `p` sets the entry of `p` to `v p` in a page table,
    seen in the state through `set`, when the entry is as `ok` asks, sets the
    entries of its range and nothing else. -/
theorem forPages_update {σ : Type} {f : Nat → σ → Option σ} (set : PageTable → σ)
    (v : Nat → Option PageFlags) (ok : Nat → Option PageFlags → Prop)
    {first last : Nat} (hle : first ≤ last) {t : σ} {pt : PageTable} (hself : set pt = t)
    (hf : ∀ p pt', first ≤ p → p < last → ok p (pt' p) →
      f (fromPageNum p) (set pt') = some (set (Function.update pt' p (v p))))
    (hm : ∀ p, first ≤ p → p < last → ok p (pt p)) :
    forPages f first last t = some (set fun q => if first ≤ q ∧ q < last then v q else pt q) := by
  subst hself
  have h₀ : set pt = set fun q => if first ≤ q ∧ q < first then v q else pt q := by
    congr; funext q; rw [if_neg (by omega)]
  obtain ⟨t', ht, rfl⟩ := forPages_of_step
    (fun p t' => t' = set fun q => if first ≤ q ∧ q < p then v q else pt q) hle h₀
    fun p t' h₁ h₂ ht' => by
      subst ht'
      refine ⟨_, hf p _ h₁ h₂ (by rw [if_neg (by omega)]; exact hm p h₁ h₂), ?_⟩
      congr; funext q
      by_cases hq : q = p
      · subst hq; simp [h₁]
      · rw [Function.update_noteq hq]; exact if_congr (by omega) rfl rfl
  exact ht

/-- A pager whose page operations keep `g`. -/
def Pager.Keeps {σ β : Type} (P : Pager σ) (g : σ → β) : Prop :=
  (∀ a flags t t', P.mapPage a flags t = some t' → g t' = g t) ∧
    ∀ a t t', P.unmapPage a t = some t' → g t' = g t

/-! ### Logged page operations -/

/-- One call of `map_page` (`isMap`) or `unmap_page` on `pageAddress`, with
    whether its page was mapped when the call was made. -/
structure PageCall where
  isMap : Bool
  pageAddress : Nat
  wasMapped : Bool
  deriving DecidableEq, Repr

/-- The page operation `op`, which also appends the call to a log, with the
    mapping `mapped` reads just before it. -/
def logCall {σ : Type} (isMap : Bool) (mapped : σ → Nat → Bool) (op : Nat → σ → Option σ)
    (pageAddress : Nat) (t : σ × List PageCall) : Option (σ × List PageCall) :=
  (op pageAddress t.1).map fun u => (u, t.2 ++ [⟨isMap, pageAddress, mapped t.1 pageAddress⟩])

/-- `P` with a log of every page operation it is asked for. -/
def Pager.logging {σ : Type} (P : Pager σ) (mapped : σ → Nat → Bool) : Pager (σ × List PageCall) :=
  ⟨fun pageAddress flags => logCall true mapped (fun a => P.mapPage a flags) pageAddress,
    logCall false mapped P.unmapPage⟩

/-- `Q` does on the part `π` of its state what `P` does. -/
structure Pager.Hom {σ τ : Type} (Q : Pager τ) (P : Pager σ) (π : τ → σ) : Prop where
  map_mapPage : ∀ a flags u, (Q.mapPage a flags u).map π = P.mapPage a flags (π u)
  map_unmapPage : ∀ a u, (Q.unmapPage a u).map π = P.unmapPage a (π u)

theorem logCall_map_fst {σ : Type} (isMap : Bool) (mapped : σ → Nat → Bool)
    (op : Nat → σ → Option σ) (a : Nat) (t : σ × List PageCall) :
    (logCall isMap mapped op a t).map Prod.fst = op a t.1 := by
  simp [logCall, Option.map_map, Function.comp_def]

/-- The log is an observation: the logging pager does what `P` does. -/
theorem Pager.logging_hom {σ : Type} (P : Pager σ) (mapped : σ → Nat → Bool) :
    (P.logging mapped).Hom P Prod.fst :=
  ⟨fun a f u => logCall_map_fst true mapped (fun a => P.mapPage a f) a u,
    fun a u => logCall_map_fst false mapped P.unmapPage a u⟩

/-- A loop whose every operation does on `π` what `f` does runs the loop of `f`
    on `π`. -/
theorem forPages_map {σ τ : Type} {f : Nat → σ → Option σ} {g : Nat → τ → Option τ} (π : τ → σ)
    (hg : ∀ a u, (g a u).map π = f a (π u)) (first last : Nat) (u : τ) :
    (forPages g first last u).map π = forPages f first last (π u) := by
  unfold forPages
  induction List.range' first (last - first) generalizing u with
  | nil => rfl
  | cons p ps ih =>
    simp only [List.foldlM_cons, ← hg]
    cases g (fromPageNum p) u with
    | none => rfl
    | some u' => exact ih u'

/-- What a loop of logged operations records: one call per page of its range, in
    order, each with the mapping its page had when the loop began, when every
    operation leaves the mapping of every other page as it was. -/
theorem forPages_logCall {σ : Type} {isMap : Bool} {mapped : σ → Nat → Bool}
    {op : Nat → σ → Option σ}
    (hframe : ∀ a b t t', op a t = some t' → pageNum b ≠ pageNum a → mapped t' b = mapped t b)
    {first last : Nat} {t t' : σ} {log log' : List PageCall}
    (h : forPages (logCall isMap mapped op) first last (t, log) = some (t', log')) :
    ∃ l, log' = log ++ l ∧ ∀ e ∈ l, e.isMap = isMap ∧
      ∃ p, first ≤ p ∧ p < last ∧ e.pageAddress = fromPageNum p ∧ e.wasMapped = mapped t e.pageAddress := by
  obtain ⟨n, hn⟩ : ∃ n, last - first = n := ⟨_, rfl⟩
  induction n generalizing first t log with
  | zero =>
    rw [forPages_of_le _ (by omega)] at h
    cases h; exact ⟨[], by simp, by simp⟩
  | succ n ih =>
    rw [forPages_of_lt _ (by omega)] at h
    obtain ⟨⟨t₁, log₁⟩, h₁, h⟩ := Option.bind_eq_some.mp h
    obtain ⟨_, ho, he⟩ := Option.map_eq_some'.mp h₁
    cases he
    obtain ⟨l, rfl, hl⟩ := ih h (by omega)
    refine ⟨⟨isMap, fromPageNum first, mapped t (fromPageNum first)⟩ :: l, by simp, fun e he => ?_⟩
    rcases List.mem_cons.mp he with rfl | he
    · exact ⟨rfl, first, le_rfl, by omega, rfl, rfl⟩
    · -- A later page: the operation on `first` left its mapping as it was.
      obtain ⟨hm, p, h₁, h₂, hp, hw⟩ := hl e he
      refine ⟨hm, p, by omega, h₂, hp, hw.trans (hframe _ _ _ _ ho ?_)⟩
      rw [hp, pageNum_fromPageNum, pageNum_fromPageNum]; omega

namespace Stack

/-- `READABLE | WRITABLE`, with `USER_ACCESSIBLE` for a user stack: the flags `new`
    and `grow` compute alike. -/
def pageFlags (accessType : AccessType) : PageFlags :=
  ⟨true, true, accessType == .UserAccessible⟩

/-- The bytes in use, `top - bottom`. -/
def size (s : Stack) : Nat := s.topAddress - s.bottomAddress

/-- The bottom `grow` computes: `max(top - max_size, bottom - amount)`. -/
def growBottom (s : Stack) (amount : Nat) : Option Nat := do
  let lowest ← addrSub s.topAddress s.maxSize
  let lowered ← addrSub s.bottomAddress amount
  return max lowest lowered

/-- `Stack::grow`. -/
def grow {σ : Type} (P : Pager σ) (s : Stack) (amount : Nat) (t : σ) : Option (Stack × σ) := do
  let newBottom ← s.growBottom amount
  let flags := pageFlags s.accessType
  let firstPageToMap := pageNum newBottom
  -- This should be one less, but the range is exclusive.
  let lastPageToMap := pageNum s.bottomAddress
  let t ← forPages (fun pageAddress => P.mapPage pageAddress flags) firstPageToMap lastPageToMap t
  return ({ s with bottomAddress := newBottom }, t)

/-- The bottom `shrink` computes: `min(top, bottom + amount)`. -/
def shrinkBottom (s : Stack) (amount : Nat) : Option Nat := do
  let raised ← addrAdd s.bottomAddress amount
  return min s.topAddress raised

/-- `Stack::shrink`. -/
def shrink {σ : Type} (P : Pager σ) (s : Stack) (amount : Nat) (t : σ) : Option (Stack × σ) := do
  let newBottom ← s.shrinkBottom amount
  let firstPageToUnmap := pageNum s.bottomAddress
  -- This should be one less, but the range is exclusive.
  let lastPageToUnmap := pageNum newBottom
  let t ← forPages P.unmapPage firstPageToUnmap lastPageToUnmap t
  return ({ s with bottomAddress := newBottom }, t)

/-- `Stack::resize`: `(top - bottom) as isize`, then `new_size as isize - current_size`,
    then `grow(difference as usize)` or `shrink(-difference as usize)`. -/
def resize {σ : Type} (P : Pager σ) (s : Stack) (newSize : Nat) (t : σ) : Option (Stack × σ) := do
  let currentSize ← addrDistance s.topAddress s.bottomAddress
  let difference ← isizeChecked (usizeAsIsize newSize - currentSize)
  if difference > 0 then s.grow P (isizeAsUsize difference) t
  else s.shrink P (isizeAsUsize (← isizeChecked (-difference))) t

/-- `Stack::new`: `register` is what `new` does with the address space it is given
    before the resize (`addStackSegment` for `Some`, nothing for `None`). -/
def new {σ : Type} (P : Pager σ) (register : Segment → σ → Option σ)
    (initialSize maxSize startAddress : Nat) (accessType : AccessType) (t : σ) :
    Option (Stack × σ) := do
  let top ← addrAdd startAddress maxSize
  let stack : Stack := ⟨top, top, maxSize, top, accessType⟩
  let area : MemoryArea := ⟨startAddress, maxSize⟩
  let t ← register ⟨area, pageFlags accessType, .MemoryOnly⟩ t
  stack.resize P initialSize t

/-- `assert!(address_space.add_segment(..), "Could not add stack segment.")`. -/
def addStackSegment (segment : Segment) (as : AddressSpace) : Option AddressSpace :=
  match as.addSegment segment with
  | (true, as') => some as'
  | (false, _) => none

/-- `Stack::new` with `Some(address_space)`. -/
def newIn (initialSize maxSize startAddress : Nat) (accessType : AccessType) (as : AddressSpace) :
    Option (Stack × AddressSpace) :=
  new AddressSpace.pager addStackSegment initialSize maxSize startAddress accessType as

/-- `Drop for Stack`. -/
def drop {σ : Type} (P : Pager σ) (s : Stack) (t : σ) : Option σ :=
  -- NOTE: This assumes that the stack is dropped in its own address space.
  (s.resize P 0 t).map Prod.snd

/-! ### What each call computes -/

section Calls

variable {σ : Type} {P : Pager σ} {s s' : Stack} {t t' : σ}

theorem growBottom_eq_some {amount b : Nat} :
    s.growBottom amount = some b ↔ s.maxSize ≤ s.topAddress ∧ amount ≤ s.bottomAddress ∧
      b = max (s.topAddress - s.maxSize) (s.bottomAddress - amount) := by
  simp only [growBottom, addrSub_eq, bind, Option.bind_eq_some, usizeSub_eq_some, pure,
    Option.some.injEq]
  constructor
  · rintro ⟨_, ⟨h₁, rfl⟩, _, ⟨h₂, rfl⟩, rfl⟩; exact ⟨h₁, h₂, rfl⟩
  · rintro ⟨h₁, h₂, rfl⟩; exact ⟨_, ⟨h₁, rfl⟩, _, ⟨h₂, rfl⟩, rfl⟩

theorem growBottom_eq_none {amount : Nat} (h : s.maxSize ≤ s.topAddress) :
    s.growBottom amount = none ↔ s.bottomAddress < amount := by
  rw [← not_iff_not, ← ne_eq, Option.ne_none_iff_exists']
  simp [growBottom_eq_some, h]

theorem shrinkBottom_eq_some {amount b : Nat} :
    s.shrinkBottom amount = some b ↔ s.bottomAddress + amount ≤ usizeMax ∧
      b = min s.topAddress (s.bottomAddress + amount) := by
  simp only [shrinkBottom, addrAdd_eq, bind, Option.bind_eq_some, usizeAdd_eq_some, pure,
    Option.some.injEq]
  constructor
  · rintro ⟨_, ⟨h, rfl⟩, rfl⟩; exact ⟨h, rfl⟩
  · rintro ⟨h, rfl⟩; exact ⟨_, ⟨h, rfl⟩, rfl⟩

theorem grow_eq_some {amount : Nat} :
    s.grow P amount t = some (s', t') ↔ ∃ b, s.growBottom amount = some b ∧
      forPages (fun a => P.mapPage a (pageFlags s.accessType)) (pageNum b) (pageNum s.bottomAddress)
        t = some t' ∧ s' = { s with bottomAddress := b } := by
  simp only [grow, bind, Option.bind_eq_some, pure, Option.some.injEq, Prod.mk.injEq]
  constructor
  · rintro ⟨b, hb, _, hf, rfl, rfl⟩; exact ⟨b, hb, hf, rfl⟩
  · rintro ⟨b, hb, hf, rfl⟩; exact ⟨b, hb, _, hf, rfl, rfl⟩

theorem shrink_eq_some {amount : Nat} :
    s.shrink P amount t = some (s', t') ↔ ∃ b, s.shrinkBottom amount = some b ∧
      forPages P.unmapPage (pageNum s.bottomAddress) (pageNum b) t = some t' ∧
      s' = { s with bottomAddress := b } := by
  simp only [shrink, bind, Option.bind_eq_some, pure, Option.some.injEq, Prod.mk.injEq]
  constructor
  · rintro ⟨b, hb, _, hf, rfl, rfl⟩; exact ⟨b, hb, hf, rfl⟩
  · rintro ⟨b, hb, hf, rfl⟩; exact ⟨b, hb, _, hf, rfl, rfl⟩

theorem grow_eq_none_of_lt {amount : Nat} (h : s.maxSize ≤ s.topAddress)
    (ha : s.bottomAddress < amount) : s.grow P amount t = none := by
  simp [grow, (growBottom_eq_none h).mpr ha]

/-- `resize` on a stack whose size fits `isize`: the signed difference, computed
    with the cast of `new_size`. -/
theorem resize_eq {newSize : Nat} (hb : s.bottomAddress ≤ s.topAddress)
    (hs : (s.size : Int) ≤ isizeMax) :
    s.resize P newSize t =
      (isizeChecked (usizeAsIsize newSize - s.size)).bind fun d =>
        if d > 0 then s.grow P (isizeAsUsize d) t
        else (isizeChecked (-d)).bind fun n => s.shrink P (isizeAsUsize n) t := by
  have : addrDistance s.topAddress s.bottomAddress = some (s.size : Int) := by
    simp only [addrDistance, isizeChecked_eq_some, isizeMin, isizeMax]
    simp only [size, isizeMax] at *; omega
  simp only [resize, this, bind, Option.some_bind]

/-- `resize(usize::MAX)`: `usize::MAX as isize` is `-1`, so the stack shrinks by one
    byte more than its size, to nothing. -/
theorem resize_usizeMax (hb : s.bottomAddress ≤ s.topAddress) (hs : (s.size : Int) < isizeMax) :
    s.resize P usizeMax t = s.shrink P (s.size + 1) t := by
  rw [resize_eq hb hs.le]
  unfold isizeMax at hs
  have hc : usizeAsIsize usizeMax = -1 := by decide
  have h₁ : isizeChecked (-1 - (s.size : Int)) = some (-1 - (s.size : Int)) := by
    simp only [isizeChecked_eq_some, isizeMin, isizeMax, and_true]; omega
  have h₂ : isizeChecked (-(-1 - (s.size : Int))) = some (1 + (s.size : Int)) := by
    simp only [isizeChecked_eq_some, isizeMin, isizeMax, and_true]; omega
  have h₃ : isizeAsUsize (1 + (s.size : Int)) = s.size + 1 := by
    rw [isizeAsUsize, if_pos (by omega)]; omega
  simp only [hc, h₁, h₂, h₃, Option.some_bind, gt_iff_lt,
    if_neg (by omega : ¬(0 : Int) < -1 - (s.size : Int))]

/-- `Drop for Stack` on a stack whose size fits `isize`: `resize(0)` shrinks by the
    whole size, so it unmaps every page from `page_num(bottom)` up to
    `page_num(top)`. -/
theorem drop_eq (hb : s.bottomAddress ≤ s.topAddress) (ht : s.topAddress ≤ usizeMax)
    (hs : (s.size : Int) ≤ isizeMax) :
    s.drop P t = forPages P.unmapPage (pageNum s.bottomAddress) (pageNum s.topAddress) t := by
  have h₁ : isizeChecked (usizeAsIsize 0 - s.size) = some (-(s.size : Int)) := by
    simp only [isizeChecked_eq_some, isizeMin, isizeMax] at hs ⊢
    rw [show usizeAsIsize 0 = 0 from rfl]; omega
  have h₂ : isizeChecked (-(-(s.size : Int))) = some (s.size : Int) := by
    simp only [isizeChecked_eq_some, isizeMin, isizeMax] at hs ⊢; omega
  have h₃ : isizeAsUsize s.size = s.size := by rw [isizeAsUsize, if_pos (by omega)]; rfl
  have hb' : s.shrinkBottom s.size = some s.topAddress := by
    rw [shrinkBottom_eq_some]; simp only [size]; omega
  rw [drop, resize_eq hb hs, h₁, Option.some_bind, if_neg (by omega), h₂, Option.some_bind, h₃]
  simp only [shrink, hb', bind, Option.some_bind, pure]
  cases forPages P.unmapPage (pageNum s.bottomAddress) (pageNum s.topAddress) t <;> rfl

/-! ### Frames -/

section Keeps

variable {β : Type} {g : σ → β} (hP : P.Keeps g)
include hP

theorem grow_keeps {amount : Nat} (h : s.grow P amount t = some (s', t')) : g t' = g t := by
  obtain ⟨_, -, hf, -⟩ := grow_eq_some.mp h
  exact forPages_keeps g (fun a _ _ => hP.1 a _ _ _) hf

theorem shrink_keeps {amount : Nat} (h : s.shrink P amount t = some (s', t')) : g t' = g t := by
  obtain ⟨_, -, hf, -⟩ := shrink_eq_some.mp h
  exact forPages_keeps g hP.2 hf

theorem resize_keeps {newSize : Nat} (h : s.resize P newSize t = some (s', t')) : g t' = g t := by
  simp only [resize, bind, Option.bind_eq_some] at h
  obtain ⟨_, -, d, -, h⟩ := h
  split at h
  · exact grow_keeps hP h
  · obtain ⟨_, -, h⟩ := Option.bind_eq_some.mp h
    exact shrink_keeps hP h

theorem drop_keeps (h : s.drop P t = some t') : g t' = g t := by
  obtain ⟨⟨_, _⟩, hr, rfl⟩ := Option.map_eq_some'.mp (by simpa only [drop] using h)
  exact resize_keeps hP hr

end Keeps

/-- What `resize` asks of the pager is fixed by the stack and the new size alone:
    one `grow` (`true`) or one `shrink` (`false`) by a computed amount, or a
    panic in the arithmetic before either. -/
theorem resize_eq_grow_or_shrink (s : Stack) (newSize : Nat) :
    ∃ o : Option (Bool × Nat), ∀ {σ : Type} (P : Pager σ) (t : σ),
      s.resize P newSize t = o.bind fun c => if c.1 then s.grow P c.2 t else s.shrink P c.2 t := by
  simp only [resize, bind]
  cases addrDistance s.topAddress s.bottomAddress with
  | none => exact ⟨none, fun _ _ => rfl⟩
  | some c =>
    simp only [Option.some_bind]
    cases isizeChecked (usizeAsIsize newSize - c) with
    | none => exact ⟨none, fun _ _ => rfl⟩
    | some d =>
      simp only [Option.some_bind]
      by_cases hd : d > 0
      · exact ⟨some (true, isizeAsUsize d), fun _ _ => if_pos hd⟩
      · cases isizeChecked (-d) with
        | none => exact ⟨none, fun _ _ => if_neg hd⟩
        | some n => exact ⟨some (false, isizeAsUsize n), fun _ _ => if_neg hd⟩

/-! ### Transport along `Pager.Hom` -/

section Hom

variable {τ : Type} {Q : Pager τ} {π : τ → σ} (hQ : Q.Hom P π) {u : τ}
include hQ

theorem grow_map {amount : Nat} :
    (s.grow Q amount u).map (Prod.map id π) = s.grow P amount (π u) := by
  cases hb : s.growBottom amount with
  | none => simp [grow, hb]
  | some b =>
    simp only [grow, hb, bind, pure, Option.some_bind]
    rw [← forPages_map π fun a u => hQ.map_mapPage a _ u]
    cases forPages _ _ _ u <;> rfl

theorem shrink_map {amount : Nat} :
    (s.shrink Q amount u).map (Prod.map id π) = s.shrink P amount (π u) := by
  cases hb : s.shrinkBottom amount with
  | none => simp [shrink, hb]
  | some b =>
    simp only [shrink, hb, bind, pure, Option.some_bind]
    rw [← forPages_map π hQ.map_unmapPage]
    cases forPages _ _ _ u <;> rfl

theorem resize_map {newSize : Nat} :
    (s.resize Q newSize u).map (Prod.map id π) = s.resize P newSize (π u) := by
  obtain ⟨o, ho⟩ := resize_eq_grow_or_shrink s newSize
  rw [ho, ho]
  rcases o with _ | ⟨_ | _, amount⟩
  · rfl
  · exact shrink_map hQ
  · exact grow_map hQ

end Hom

end Calls

/-- A user stack fresh from `Stack::new(0, USER_STACK_MAX_SIZE, USER_STACK_AREA_BASE,
    UserAccessible, Some(as))`: `grow(usize::MAX)` panics on `bottom - amount` before
    the clamp to `top - max_size`, and `resize(usize::MAX)` leaves the stack empty
    where the clamp to `max_size` would fill it. -/
theorem grow_resize_of_huge_amount :
    ∃ s as, newIn 0 userStackMaxSize userStackAreaBase .UserAccessible AddressSpace.empty =
      some (s, as) ∧ s.grow AddressSpace.pager usizeMax as = none ∧
      ∃ s' as', s.resize AddressSpace.pager usizeMax as = some (s', as') ∧ s'.size = 0 ∧
        min usizeMax s.maxSize = 0x200000 := by
  let as : AddressSpace :=
    ⟨[⟨⟨userStackAreaBase, userStackMaxSize⟩, pageFlags .UserAccessible, .MemoryOnly⟩], fun _ => none⟩
  refine ⟨⟨0x00007f8000200000, 0x00007f8000200000, 0x200000, 0x00007f8000200000, .UserAccessible⟩,
    as, rfl, grow_eq_none_of_lt (by decide) (by decide),
    ⟨0x00007f8000200000, 0x00007f8000200000, 0x200000, 0x00007f8000200000, .UserAccessible⟩,
    as, ?_, rfl, rfl⟩
  rw [resize_usizeMax (by decide) (by decide)]
  rfl

end Stack

end BoringOS
