import BoringOS.Boot.Initramfs

/-!
# The memory-map filter

`MemoryMapIterator` walks the usable areas that the boot layer reports and cuts
the two exclusion areas (the kernel image and the initramfs) out of them, so that
what it yields is free physical memory.

## Main results

- `MemoryMapIterator.next_reports` — one call of `next` reports exactly the bytes
  it removes from the bytes still free, in order
- `MemoryMapIterator.collect_spec` — over a whole run the yielded areas are
  ascending, each lies within an input area, and their bytes are exactly the
  input bytes outside every exclusion (`FilterInv` is the invariant of the run)

## Design notes

The boot-layer iterator is modelled by the list of the areas it has not yet
yielded. The exclusions are kept as a list: the code only reads their number and
indexes them, and the run lemmas hold for any number of them.
-/

namespace BoringOS

/-- `MemoryMapIterator`; `multibootIterator` lists the areas the boot-layer
    iterator has not yet yielded. -/
structure MemoryMapIterator where
  toExclude : List MemoryArea
  currentEntry : Option MemoryArea
  excludeIndex : Nat
  multibootIterator : List MemoryArea
  deriving DecidableEq, Repr

namespace MemoryMapIterator

/-- `self.current_entry = self.multiboot_iterator.next()`. -/
def advance (it : MemoryMapIterator) : MemoryMapIterator :=
  { it with currentEntry := it.multibootIterator.head?,
            multibootIterator := it.multibootIterator.tail }

/-- `entry_before`: the part of the current entry below the exclusion area. -/
def entryBefore (currentEntry excludeArea : MemoryArea) : MemoryArea :=
  ⟨currentEntry.start, excludeArea.start - currentEntry.start⟩

/-- `entry_after`: the part of the current entry above the exclusion area. -/
def entryAfter (currentEntry excludeArea : MemoryArea) : MemoryArea :=
  ⟨excludeArea.endAddress, currentEntry.endAddress - excludeArea.endAddress⟩

/-- The state once an exclusion area has been cut out of the current entry:
    the next exclusion is due, and the rest of the entry, unless it is empty,
    becomes the current entry. -/
def cut (it : MemoryMapIterator) (entryAfter : MemoryArea) : MemoryMapIterator :=
  let it := { it with excludeIndex := it.excludeIndex + 1 }
  if entryAfter.endAddress = entryAfter.start then it.advance
  else { it with currentEntry := some entryAfter }

@[simp] theorem advance_toExclude (it : MemoryMapIterator) :
    it.advance.toExclude = it.toExclude := rfl

@[simp] theorem advance_excludeIndex (it : MemoryMapIterator) :
    it.advance.excludeIndex = it.excludeIndex := rfl

@[simp] theorem cut_toExclude (it : MemoryMapIterator) (a : MemoryArea) :
    (it.cut a).toExclude = it.toExclude := by
  unfold cut; split <;> rfl

@[simp] theorem cut_excludeIndex (it : MemoryMapIterator) (a : MemoryArea) :
    (it.cut a).excludeIndex = it.excludeIndex + 1 := by
  unfold cut; split <;> rfl

@[simp] theorem entryBefore_start (c x : MemoryArea) : (entryBefore c x).start = c.start := rfl

@[simp] theorem entryBefore_length (c x : MemoryArea) :
    (entryBefore c x).length = x.start - c.start := rfl

@[simp] theorem entryAfter_start (c x : MemoryArea) :
    (entryAfter c x).start = x.start + x.length := rfl

@[simp] theorem entryAfter_length (c x : MemoryArea) :
    (entryAfter c x).length = c.start + c.length - (x.start + x.length) := rfl

/-- `Iterator::next`. The `loop` only goes round again after an exclusion has
    been cut out, so the exclusions still due bound it. -/
def next (it : MemoryMapIterator) : Option MemoryArea × MemoryMapIterator :=
  match it.currentEntry with
  | none => (none, it)
  | some currentEntry =>
    -- The lookup fails exactly when `exclude_index >= to_exclude.len()`.
    match h : it.toExclude[it.excludeIndex]? with
    | none => (some currentEntry, it.advance)
    | some excludeArea =>
      if excludeArea.isContainedIn currentEntry then
        let entryBefore := entryBefore currentEntry excludeArea
        let it' := it.cut (entryAfter currentEntry excludeArea)
        if entryBefore.endAddress = entryBefore.start then next it'
        else (some entryBefore, it')
      else (some currentEntry, it.advance)
termination_by it.toExclude.length - it.excludeIndex
decreasing_by
  have := (List.getElem?_eq_some_iff.mp h).1
  simp only [cut_toExclude, cut_excludeIndex]; omega

/-! ## The filter over lists of areas -/

/-- The invariant of a run, over the entries `ins` still to be filtered and the
    exclusions `xs` still to be cut out. -/
structure FilterInv (ins xs : List MemoryArea) : Prop where
  /-- The entries come in ascending order. -/
  ascending : MemoryArea.Ascending ins
  /-- An exclusion ends before every later one starts, unless the later one is empty. -/
  sorted : xs.Pairwise fun x y => x.endAddress ≤ y.start ∨ y.length = 0
  /-- Every exclusion but the last lies within an entry. -/
  lodged : ∀ x ∈ xs.dropLast, ∃ e ∈ ins, x.isContainedIn e
  /-- The last exclusion lies within an entry or is empty. -/
  last : ∀ x ∈ xs.getLast?, (∃ e ∈ ins, x.isContainedIn e) ∨ x.length = 0
  /-- The exclusions strictly between the first and the last are not empty. -/
  middle : ∀ x ∈ xs.tail.dropLast, 0 < x.length

/-- The bytes of the entries `ins` outside every exclusion of `xs`. -/
def Free (ins xs : List MemoryArea) (b : Nat) : Prop :=
  (∃ e ∈ ins, b ∈ e) ∧ ∀ x ∈ xs, b ∉ x

/-- What one step of the filter guarantees: it goes from `ins`, `xs` to `ins'`,
    `xs'`, reporting `r`. -/
structure Reports (ins xs : List MemoryArea) (r : Option MemoryArea)
    (ins' xs' : List MemoryArea) : Prop where
  inv : FilterInv ins' xs'
  refines : ∀ e ∈ ins', ∃ e₀ ∈ ins, e.isContainedIn e₀
  free : ∀ b, Free ins xs b ↔ (∃ a ∈ r, b ∈ a) ∨ Free ins' xs' b
  yield : ∀ a ∈ r, (∃ e₀ ∈ ins, a.isContainedIn e₀) ∧ ∀ e ∈ ins', a.start + a.length ≤ e.start

@[simp] theorem endAddress_eq_start {a : MemoryArea} : a.endAddress = a.start ↔ a.length = 0 := by
  simp

/-- The entries once the current one is replaced by the rest `a` of it, which is
    dropped when empty. -/
theorem mem_ite_cons {a e : MemoryArea} {rest : List MemoryArea} :
    e ∈ (if a.endAddress = a.start then rest else a :: rest) ↔ e ∈ rest ∨ (e = a ∧ 0 < a.length) := by
  split <;> simp_all [Nat.pos_iff_ne_zero, or_comm]

/-- The bytes of the part of `c` below `x`, reported unless it is empty. -/
theorem mem_entryBefore_iff {c x : MemoryArea} {b : Nat} :
    (∃ a ∈ (if (entryBefore c x).endAddress = (entryBefore c x).start then none
      else some (entryBefore c x)), b ∈ a) ↔ c.start ≤ b ∧ b < x.start := by
  split
  · rename_i h0
    simp only [MemoryArea.endAddress_eq, entryBefore_start, entryBefore_length] at h0
    simp only [Option.mem_def, reduceCtorEq, false_and, exists_false, false_iff]; omega
  · simp only [Option.mem_def, Option.some.injEq, exists_eq_left', MemoryArea.mem_iff,
      entryBefore_start, entryBefore_length]; omega

/-- The bytes of the entries once the part of `c` above `x` is the current one. -/
theorem mem_entryAfter_iff {c x : MemoryArea} {rest : List MemoryArea} {b : Nat} :
    (∃ e ∈ (if (entryAfter c x).endAddress = (entryAfter c x).start then rest
      else entryAfter c x :: rest), b ∈ e) ↔
      (x.start + x.length ≤ b ∧ b < c.start + c.length) ∨ ∃ e ∈ rest, b ∈ e := by
  have hmem : b ∈ entryAfter c x ↔ x.start + x.length ≤ b ∧ b < c.start + c.length := by
    simp only [MemoryArea.mem_iff, entryAfter_start, entryAfter_length]; omega
  constructor
  · rintro ⟨e, he, hbe⟩
    rcases mem_ite_cons.mp he with he | ⟨rfl, -⟩
    · exact .inr ⟨e, he, hbe⟩
    · exact .inl (hmem.mp hbe)
  · rintro (hb | ⟨e, he, hbe⟩)
    · refine ⟨entryAfter c x, mem_ite_cons.mpr (.inr ⟨rfl, ?_⟩), hmem.mpr hb⟩
      simp only [entryAfter_length]; omega
    · exact ⟨e, mem_ite_cons.mpr (.inl he), hbe⟩

theorem mem_dropLast_cons {x y : MemoryArea} {xs : List MemoryArea}
    (h : y ∈ (x :: xs).dropLast) : y = x ∨ y ∈ xs.dropLast := by
  cases xs with
  | nil => simp at h
  | cons z zs => simpa using h

theorem mem_dropLast_cons_of_mem {x y : MemoryArea} {xs : List MemoryArea}
    (h : y ∈ xs.dropLast) : y ∈ (x :: xs).dropLast := by
  cases xs with
  | nil => simp at h
  | cons z zs => simp [h]

theorem mem_getLast?_cons {x y : MemoryArea} {xs : List MemoryArea}
    (h : y ∈ xs.getLast?) : y ∈ (x :: xs).getLast? := by
  cases xs with
  | nil => simp at h
  | cons z zs => simpa using h

theorem mem_dropLast_of_mem_tail_dropLast {y : MemoryArea} {xs : List MemoryArea}
    (h : y ∈ xs.tail.dropLast) : y ∈ xs.dropLast := by
  cases xs with
  | nil => simp at h
  | cons z zs => exact mem_dropLast_cons_of_mem h

/-- An area inside `c` that starts at or after `c`'s end is empty. -/
theorem length_eq_zero_of_isContainedIn {x c : MemoryArea} (h : x.isContainedIn c)
    (hx : c.start + c.length ≤ x.start ∨ x.length = 0) : x.length = 0 := by
  simp only [MemoryArea.isContainedIn_iff] at h; omega

namespace FilterInv

variable {c x : MemoryArea} {rest xs : List MemoryArea}

/-- The first exclusion lies within an entry, unless it is the only one and empty. -/
theorem head (h : FilterInv ins (x :: xs)) :
    (∃ e ∈ ins, x.isContainedIn e) ∨ (xs = [] ∧ x.length = 0) := by
  cases xs with
  | nil => simpa using h.last x (by simp)
  | cons y ys => exact .inl (h.lodged x (by simp))

/-- If the first exclusion is not within the current entry, no exclusion reaches
    into it. -/
theorem clear (h : FilterInv (c :: rest) xs) (hn : ∀ x ∈ xs.head?, ¬x.isContainedIn c) :
    ∀ y ∈ xs, c.start + c.length ≤ y.start ∨ y.length = 0 := by
  cases xs with
  | nil => simp
  | cons x xs =>
    have hasc := List.pairwise_cons.mp h.ascending
    -- The first exclusion is not in `c`, so an entry that holds it comes later.
    have hlater : (∃ e ∈ c :: rest, x.isContainedIn e) → c.start + c.length ≤ x.start := by
      rintro ⟨e, he, hxe⟩
      rcases List.mem_cons.mp he with rfl | he
      · exact absurd hxe (hn x (by simp))
      · have := hasc.1 e he
        simp only [MemoryArea.isContainedIn_iff, MemoryArea.endAddress_eq] at hxe this; omega
    intro y hy
    rcases List.mem_cons.mp hy with rfl | hy
    · exact h.head.imp hlater And.right
    · have hxy := (List.pairwise_cons.mp h.sorted).1 y hy
      obtain he | ⟨hnil, -⟩ := h.head
      · have := hlater he; simp only [MemoryArea.endAddress_eq] at hxy; omega
      · exact absurd hnil (List.ne_nil_of_mem hy)

/-- An entry with no exclusion in it is reported whole. -/
theorem skip (h : FilterInv (c :: rest) xs) (hn : ∀ x ∈ xs.head?, ¬x.isContainedIn c) :
    Reports (c :: rest) xs (some c) rest xs := by
  have hasc := List.pairwise_cons.mp h.ascending
  have hc := h.clear hn
  refine ⟨⟨hasc.2, h.sorted, ?_, ?_, h.middle⟩, ?_, ?_, ?_⟩
  · intro y hy
    obtain ⟨e, he, hye⟩ := h.lodged y hy
    rcases List.mem_cons.mp he with rfl | he
    · have h0 := length_eq_zero_of_isContainedIn hye (hc y (List.dropLast_subset _ hy))
      cases xs with
      | nil => simp at hy
      | cons x xs =>
        rcases mem_dropLast_cons hy with rfl | hy
        · exact absurd hye (hn y (by simp))
        · exact absurd h0 (Nat.pos_iff_ne_zero.mp (h.middle y hy))
    · exact ⟨e, he, hye⟩
  · intro y hy
    rcases h.last y hy with ⟨e, he, hye⟩ | h0
    · rcases List.mem_cons.mp he with rfl | he
      · exact .inr (length_eq_zero_of_isContainedIn hye (hc y (List.mem_of_mem_getLast? hy)))
      · exact .inl ⟨e, he, hye⟩
    · exact .inr h0
  · exact fun e he => ⟨e, List.mem_cons_of_mem _ he, MemoryArea.isContainedIn_refl e⟩
  · intro b
    simp only [Free, List.mem_cons, exists_eq_or_imp, Option.mem_def, Option.some.injEq,
      exists_eq_left']
    constructor
    · rintro ⟨hb | hb, hx⟩
      · exact .inl hb
      · exact .inr ⟨hb, hx⟩
    · rintro (hb | ⟨hb, hx⟩)
      · refine ⟨.inl hb, fun y hy hby => ?_⟩
        have := hc y hy; simp only [MemoryArea.mem_iff] at hb hby; omega
      · exact ⟨.inr hb, hx⟩
  · rintro a ⟨⟩
    exact ⟨⟨c, List.mem_cons_self _ _, MemoryArea.isContainedIn_refl c⟩, by simpa using hasc.1⟩

/-- Cutting the first exclusion out of the entry that holds it keeps the
    invariant, with the part above the exclusion as the current entry. -/
theorem cut_inv (h : FilterInv (c :: rest) (x :: xs)) (hx : x.isContainedIn c) :
    FilterInv (if (entryAfter c x).endAddress = (entryAfter c x).start then rest
      else entryAfter c x :: rest) xs := by
  have hasc := List.pairwise_cons.mp h.ascending
  have hxs : ∀ z ∈ xs, x.start + x.length ≤ z.start ∨ z.length = 0 := by
    simpa using (List.pairwise_cons.mp h.sorted).1
  simp only [MemoryArea.isContainedIn_iff] at hx
  -- An exclusion after `x` that lies within `c` lies within the part above `x`.
  have hafter : ∀ z ∈ xs, z.isContainedIn c → 0 < z.length →
      ∃ e ∈ (if (entryAfter c x).endAddress = (entryAfter c x).start then rest
        else entryAfter c x :: rest), z.isContainedIn e := by
    intro z hz hzc hz0
    have := hxs z hz
    simp only [MemoryArea.isContainedIn_iff] at hzc
    refine ⟨entryAfter c x, mem_ite_cons.mpr (.inr ⟨rfl, ?_⟩), ?_⟩ <;>
      simp only [entryAfter_start, entryAfter_length, MemoryArea.isContainedIn_iff] <;> omega
  refine ⟨?_, (List.pairwise_cons.mp h.sorted).2, fun y hy => ?_, fun y hy => ?_,
    fun y hy => h.middle y (mem_dropLast_of_mem_tail_dropLast hy)⟩
  · split
    · exact hasc.2
    · refine List.pairwise_cons.mpr ⟨fun e he => ?_, hasc.2⟩
      have : c.start + c.length ≤ e.start := by simpa using hasc.1 e he
      simp only [MemoryArea.endAddress_eq, entryAfter_start, entryAfter_length]; omega
  · obtain ⟨e, he, hye⟩ := h.lodged y (mem_dropLast_cons_of_mem hy)
    rcases List.mem_cons.mp he with rfl | he
    · exact hafter y (List.dropLast_subset _ hy) hye (h.middle y hy)
    · exact ⟨e, mem_ite_cons.mpr (.inl he), hye⟩
  · rcases h.last y (mem_getLast?_cons hy) with ⟨e, he, hye⟩ | h0
    · rcases List.mem_cons.mp he with rfl | he
      · rcases Nat.eq_zero_or_pos y.length with h0 | h0
        · exact .inr h0
        · exact .inl (hafter y (List.mem_of_mem_getLast? hy) hye h0)
      · exact .inl ⟨e, mem_ite_cons.mpr (.inl he), hye⟩
    · exact .inr h0

/-- Cutting the first exclusion out of the entry that holds it reports the part
    below it, and keeps the part above it as the current entry. -/
theorem cut (h : FilterInv (c :: rest) (x :: xs)) (hx : x.isContainedIn c) :
    Reports (c :: rest) (x :: xs)
      (if (entryBefore c x).endAddress = (entryBefore c x).start then none
        else some (entryBefore c x))
      (if (entryAfter c x).endAddress = (entryAfter c x).start then rest
        else entryAfter c x :: rest) xs := by
  have hinv := h.cut_inv hx
  have hrest : ∀ e ∈ rest, c.start + c.length ≤ e.start := by
    simpa using (List.pairwise_cons.mp h.ascending).1
  simp only [MemoryArea.isContainedIn_iff] at hx
  refine ⟨hinv, fun e he => ?_, fun b => ?_, fun a ha => ?_⟩
  · rcases mem_ite_cons.mp he with he | ⟨rfl, -⟩
    · exact ⟨e, List.mem_cons_of_mem _ he, MemoryArea.isContainedIn_refl e⟩
    · refine ⟨c, List.mem_cons_self _ _, ?_⟩
      simp only [entryAfter_start, entryAfter_length, MemoryArea.isContainedIn_iff]; omega
  · have hxs : ∀ z ∈ xs, x.start + x.length ≤ z.start ∨ z.length = 0 := by
      simpa using (List.pairwise_cons.mp h.sorted).1
    simp only [Free, List.mem_cons, forall_eq_or_imp, exists_eq_or_imp, mem_entryBefore_iff,
      mem_entryAfter_iff]
    constructor
    · rintro ⟨hb | hb, hbx, hbxs⟩
      · simp only [MemoryArea.mem_iff] at hb hbx
        by_cases hlt : b < x.start
        · exact .inl ⟨hb.1, hlt⟩
        · exact .inr ⟨.inl (by omega), hbxs⟩
      · exact .inr ⟨.inr hb, hbxs⟩
    · simp only [MemoryArea.mem_iff]
      rintro (hb | ⟨hb | ⟨e, he, hbe⟩, hbxs⟩)
      · refine ⟨.inl (by omega), by omega, fun z hz hbz => ?_⟩
        have := hxs z hz; omega
      · exact ⟨.inl (by omega), by omega, hbxs⟩
      · have := hrest e he
        exact ⟨.inr ⟨e, he, hbe⟩, by omega, hbxs⟩
  · split at ha
    · cases ha
    · obtain rfl := Option.mem_some_iff.mp ha
      refine ⟨⟨c, List.mem_cons_self _ _, ?_⟩, fun e he => ?_⟩
      · simp only [entryBefore_start, entryBefore_length, MemoryArea.isContainedIn_iff]; omega
      rcases mem_ite_cons.mp he with he | ⟨rfl, -⟩
      · have := hrest e he
        simp only [entryBefore_start, entryBefore_length]; omega
      · simp only [entryBefore_start, entryBefore_length, entryAfter_start]; omega

end FilterInv

namespace Reports

variable {ins xs ins' xs' ins'' xs'' : List MemoryArea} {r : Option MemoryArea}

theorem refl (h : FilterInv ins xs) : Reports ins xs none ins xs :=
  ⟨h, fun e he => ⟨e, he, MemoryArea.isContainedIn_refl e⟩, fun _ => by simp, by simp⟩

/-- A step that reports nothing followed by any step. -/
theorem trans (h₁ : Reports ins xs none ins' xs') (h₂ : Reports ins' xs' r ins'' xs'') :
    Reports ins xs r ins'' xs'' where
  inv := h₂.inv
  refines e he := by
    obtain ⟨e₁, he₁, h₁e⟩ := h₂.refines e he
    obtain ⟨e₀, he₀, h₀e⟩ := h₁.refines e₁ he₁
    exact ⟨e₀, he₀, h₁e.trans h₀e⟩
  free b := by rw [h₁.free b, h₂.free b]; simp
  yield a ha := by
    obtain ⟨⟨e₁, he₁, h₁e⟩, hlt⟩ := h₂.yield a ha
    obtain ⟨e₀, he₀, h₀e⟩ := h₁.refines e₁ he₁
    exact ⟨⟨e₀, he₀, h₁e.trans h₀e⟩, hlt⟩

end Reports

/-! ## The iterator -/

/-- The areas still to be filtered: the current entry, then those the boot-layer
    iterator has not yet yielded. -/
def entries (it : MemoryMapIterator) : List MemoryArea :=
  match it.currentEntry with
  | none => []
  | some e => e :: it.multibootIterator

/-- The exclusion areas not yet cut out. -/
def pending (it : MemoryMapIterator) : List MemoryArea := it.toExclude.drop it.excludeIndex

variable {it : MemoryMapIterator} {c x : MemoryArea}

theorem entries_of_currentEntry (h : it.currentEntry = some c) :
    it.entries = c :: it.multibootIterator := by
  simp [entries, h]

theorem entries_advance (it : MemoryMapIterator) : it.advance.entries = it.multibootIterator := by
  cases h : it.multibootIterator <;> simp [entries, advance, h]

theorem entries_cut (it : MemoryMapIterator) (a : MemoryArea) :
    (it.cut a).entries = if a.endAddress = a.start then it.multibootIterator
      else a :: it.multibootIterator := by
  unfold cut; split
  · exact entries_advance _
  · rfl

theorem pending_advance (it : MemoryMapIterator) : it.advance.pending = it.pending := rfl

theorem pending_of_getElem? (h : it.toExclude[it.excludeIndex]? = some x) (a : MemoryArea) :
    it.pending = x :: (it.cut a).pending := by
  obtain ⟨hlt, rfl⟩ := List.getElem?_eq_some_iff.mp h
  rw [pending, List.drop_eq_getElem_cons hlt]; simp [pending]

theorem pending_of_getElem?_eq_none (h : it.toExclude[it.excludeIndex]? = none) :
    it.pending = [] :=
  List.drop_eq_nil_iff.mpr (List.getElem?_eq_none_iff.mp h)

theorem next_of_currentEntry_eq_none (hc : it.currentEntry = none) : it.next = (none, it) := by
  rw [next]; simp [hc]

theorem next_of_getElem?_eq_none (hc : it.currentEntry = some c)
    (hx : it.toExclude[it.excludeIndex]? = none) : it.next = (some c, it.advance) := by
  rw [next]; simp only [hc]; split <;> simp_all

theorem next_of_not_isContainedIn (hc : it.currentEntry = some c)
    (hx : it.toExclude[it.excludeIndex]? = some x) (hn : ¬x.isContainedIn c) :
    it.next = (some c, it.advance) := by
  rw [next]; simp only [hc]; split <;> simp_all

theorem next_of_isContainedIn (hc : it.currentEntry = some c)
    (hx : it.toExclude[it.excludeIndex]? = some x) (hin : x.isContainedIn c) :
    it.next = if (entryBefore c x).endAddress = (entryBefore c x).start
      then (it.cut (entryAfter c x)).next
      else (some (entryBefore c x), it.cut (entryAfter c x)) := by
  rw [next]; simp only [hc]; split <;> simp_all

/-- One call of `next` is a step of the filter. -/
theorem next_reports (h : FilterInv it.entries it.pending) :
    Reports it.entries it.pending it.next.1 it.next.2.entries it.next.2.pending := by
  induction it using next.induct with
  | case1 it hc => rw [next_of_currentEntry_eq_none hc]; exact .refl h
  | case2 it c hc hx =>
    rw [next_of_getElem?_eq_none hc hx, entries_advance, pending_advance]
    rw [entries_of_currentEntry hc, pending_of_getElem?_eq_none hx] at *
    exact h.skip (by simp)
  | case3 it c hc x hx hin _ _ hb ih =>
    rw [entries_of_currentEntry hc, pending_of_getElem? hx (entryAfter c x)] at h ⊢
    have hr := h.cut hin
    rw [if_pos hb, ← entries_cut] at hr
    rw [next_of_isContainedIn hc hx hin, if_pos hb]
    exact hr.trans (ih hr.inv)
  | case4 it c hc x hx hin _ hb =>
    rw [entries_of_currentEntry hc, pending_of_getElem? hx (entryAfter c x)] at h ⊢
    have hr := h.cut hin
    rw [if_neg hb, ← entries_cut] at hr
    rwa [next_of_isContainedIn hc hx hin, if_neg hb]
  | case5 it c hc x hx hn =>
    rw [next_of_not_isContainedIn hc hx hn, entries_advance, pending_advance]
    rw [entries_of_currentEntry hc, pending_of_getElem? hx (entryAfter c x)] at *
    exact h.skip (by simpa using hn)

/-- What a run still has to go through: the entries left and the exclusions
    still due. -/
def remaining (it : MemoryMapIterator) : Nat :=
  it.entries.length + (it.toExclude.length - it.excludeIndex)

theorem remaining_cut (hc : it.currentEntry = some c) (hx : it.toExclude[it.excludeIndex]? = some x)
    (a : MemoryArea) : (it.cut a).remaining < it.remaining := by
  have := (List.getElem?_eq_some_iff.mp hx).1
  simp only [remaining, entries_cut, entries_of_currentEntry hc, cut_toExclude,
    cut_excludeIndex]
  split <;> simp <;> omega

/-- Every call of `next` that yields an area leaves less to go through, and one
    that yields nothing leaves no entry. -/
theorem next_progress (it : MemoryMapIterator) :
    (it.next.1 = none → it.next.2.entries = []) ∧
      (it.next.1 ≠ none → it.next.2.remaining < it.remaining) := by
  induction it using next.induct with
  | case1 it hc => simp [next_of_currentEntry_eq_none hc, entries, hc]
  | case2 it c hc hx =>
    simp [next_of_getElem?_eq_none hc hx, remaining, entries_advance, entries_of_currentEntry hc]
  | case5 it c hc x hx hn =>
    simp [next_of_not_isContainedIn hc hx hn, remaining, entries_advance,
      entries_of_currentEntry hc]
  | case3 it c hc x hx hin _ _ hb ih =>
    rw [next_of_isContainedIn hc hx hin, if_pos hb]
    exact ⟨ih.1, fun h => (ih.2 h).trans (remaining_cut hc hx _)⟩
  | case4 it c hc x hx hin _ hb =>
    rw [next_of_isContainedIn hc hx hin, if_neg hb]
    exact ⟨by simp, fun _ => remaining_cut hc hx _⟩

/-- The areas a consumer receives by calling `next` until it returns `None`. -/
def collect (it : MemoryMapIterator) : List MemoryArea :=
  match h : it.next with
  | (none, _) => []
  | (some a, it') => a :: collect it'
termination_by it.remaining
decreasing_by simpa [h] using (next_progress it).2 (by simp [h])

theorem collect_of_next_none {it' : MemoryMapIterator} (h : it.next = (none, it')) :
    it.collect = [] := by
  rw [collect]; split <;> simp_all

theorem collect_of_next_some {a : MemoryArea} {it' : MemoryMapIterator}
    (h : it.next = (some a, it')) : it.collect = a :: it'.collect := by
  rw [collect]; split <;> simp_all

/-- **The filter over a whole run.** From a state satisfying the invariant, the
    areas yielded until `next` returns `None` come in ascending order, each lies
    within an entry, and their bytes are exactly the bytes of the entries outside
    every pending exclusion. -/
theorem collect_spec (h : FilterInv it.entries it.pending) :
    (∀ a ∈ it.collect, ∃ e ∈ it.entries, a.isContainedIn e) ∧
      MemoryArea.Ascending it.collect ∧
      ∀ b, (∃ a ∈ it.collect, b ∈ a) ↔ Free it.entries it.pending b := by
  induction it using collect.induct with
  | case1 it it' hn =>
    have hr := next_reports h
    rw [hn] at hr
    have he : it'.entries = [] := by simpa [hn] using (next_progress it).1
    rw [collect_of_next_none hn]
    refine ⟨by simp, List.Pairwise.nil, fun b => ?_⟩
    rw [hr.free b]; simp [Free, he]
  | case2 it a it' hn ih =>
    have hr := next_reports h
    rw [hn] at hr
    obtain ⟨hin, hasc, hfree⟩ := ih hr.inv
    obtain ⟨⟨e₀, he₀, hae⟩, hlt⟩ := hr.yield a rfl
    rw [collect_of_next_some hn]
    refine ⟨?_, List.pairwise_cons.mpr ⟨fun b hb => ?_, hasc⟩, fun b => ?_⟩
    · intro b hb
      rcases List.mem_cons.mp hb with rfl | hb
      · exact ⟨e₀, he₀, hae⟩
      · obtain ⟨e, he, hbe⟩ := hin b hb
        obtain ⟨e', he', hee'⟩ := hr.refines e he
        exact ⟨e', he', hbe.trans hee'⟩
    · obtain ⟨e, he, hbe⟩ := hin b hb
      have := hlt e he; simp only [MemoryArea.isContainedIn_iff] at hbe
      simp only [MemoryArea.endAddress_eq]; omega
    · simp [hr.free b, ← hfree]

/-! ## Two exclusions -/

/-- The state `new` builds once it has put the exclusion areas in order. -/
def start (toExclude iter : List MemoryArea) : MemoryMapIterator :=
  { toExclude, currentEntry := iter.head?, excludeIndex := 0, multibootIterator := iter.tail }

@[simp] theorem entries_start (toExclude iter : List MemoryArea) :
    (start toExclude iter).entries = iter := by
  cases iter <;> rfl

@[simp] theorem pending_start (toExclude iter : List MemoryArea) :
    (start toExclude iter).pending = toExclude := rfl

/-- Two exclusions sorted by start, sharing no byte, each within an input area,
    satisfy the invariant over ascending input areas. -/
theorem filterInv_pair {areas : List MemoryArea} {x₀ x₁ : MemoryArea}
    (hasc : MemoryArea.Ascending areas) (hle : x₀.start ≤ x₁.start) (hd : x₀.Disjoint x₁)
    (h₀ : ∃ e ∈ areas, x₀.isContainedIn e) (h₁ : ∃ e ∈ areas, x₁.isContainedIn e) :
    FilterInv areas [x₀, x₁] := by
  refine ⟨hasc, ?_, by simpa using h₀, by simpa using Or.inl h₁, by simp⟩
  simp only [List.pairwise_cons, List.mem_singleton, forall_eq, List.not_mem_nil,
    IsEmpty.forall_iff, implies_true, List.Pairwise.nil, and_true, MemoryArea.endAddress_eq]
  by_contra hc
  exact hd x₁.start (by simp; omega) (by simp; omega)

/-- With two exclusions over ascending input areas, the filter yields areas in
    ascending order, each within an input area, whose bytes are exactly the bytes
    of the input areas outside both exclusions. -/
theorem collect_pair_spec {areas : List MemoryArea} {x₀ x₁ : MemoryArea}
    (hasc : MemoryArea.Ascending areas) (hle : x₀.start ≤ x₁.start) (hd : x₀.Disjoint x₁)
    (h₀ : ∃ e ∈ areas, x₀.isContainedIn e) (h₁ : ∃ e ∈ areas, x₁.isContainedIn e) :
    (∀ a ∈ (start [x₀, x₁] areas).collect, ∃ e ∈ areas, a.isContainedIn e) ∧
      MemoryArea.Ascending (start [x₀, x₁] areas).collect ∧
      ∀ b, (∃ a ∈ (start [x₀, x₁] areas).collect, b ∈ a) ↔ (∃ e ∈ areas, b ∈ e) ∧ b ∉ x₀ ∧ b ∉ x₁ := by
  have := @collect_spec (start [x₀, x₁] areas) (by simpa using filterInv_pair hasc hle hd h₀ h₁)
  simpa [Free] using this

/-- With two exclusions over ascending input areas, every area the filter yields
    lies within an input area and is clear of both exclusions. -/
theorem collect_pair_mem {areas : List MemoryArea} {x₀ x₁ : MemoryArea}
    (hasc : MemoryArea.Ascending areas) (hle : x₀.start ≤ x₁.start) (hd : x₀.Disjoint x₁)
    (h₀ : ∃ e ∈ areas, x₀.isContainedIn e) (h₁ : ∃ e ∈ areas, x₁.isContainedIn e) {a : MemoryArea}
    (ha : a ∈ (start [x₀, x₁] areas).collect) :
    (∃ e ∈ areas, a.isContainedIn e) ∧ a.Disjoint x₀ ∧ a.Disjoint x₁ := by
  obtain ⟨hin, -, hfree⟩ := collect_pair_spec hasc hle hd h₀ h₁
  exact ⟨hin a ha, fun b hb => ((hfree b).mp ⟨a, ha, hb⟩).2.1,
    fun b hb => ((hfree b).mp ⟨a, ha, hb⟩).2.2⟩

/-- The memory-map filter over ascending input areas with two exclusion areas:
    what it yields is ascending, pairwise disjoint, within the input areas, clear
    of both exclusions, and covers every input byte outside them. -/
theorem collect_excludes_of_ascending (areas : List MemoryArea) (x₀ x₁ : MemoryArea)
    (hasc : MemoryArea.Ascending areas) (hle : x₀.start ≤ x₁.start) (hd : x₀.Disjoint x₁)
    (h₀ : ∃ e ∈ areas, x₀.isContainedIn e) (h₁ : ∃ e ∈ areas, x₁.isContainedIn e) :
    let out := (start [x₀, x₁] areas).collect
    out.Pairwise MemoryArea.Disjoint ∧
      (∀ a ∈ out, (∃ e ∈ areas, a.isContainedIn e) ∧ a.Disjoint x₀ ∧ a.Disjoint x₁) ∧
      (∀ b, (∃ a ∈ out, b ∈ a) ↔ (∃ e ∈ areas, b ∈ e) ∧ b ∉ x₀ ∧ b ∉ x₁) ∧
      MemoryArea.Ascending out := by
  obtain ⟨-, hout, hfree⟩ := collect_pair_spec hasc hle hd h₀ h₁
  exact ⟨hout.pairwise_disjoint, fun a ha => collect_pair_mem hasc hle hd h₀ h₁ ha, hfree, hout⟩

/-- Scenario S1 of the spec: one usable area holding the kernel image and the
    initramfs. -/
theorem collect_excludes_scenario :
    MemoryArea.Ascending [⟨0, 0x100000⟩] ∧ (⟨0x10000, 0x5000⟩ : MemoryArea).start ≤ 0x20000 ∧
      (⟨0x10000, 0x5000⟩ : MemoryArea).Disjoint ⟨0x20000, 0x2000⟩ ∧
      (∃ e ∈ [(⟨0, 0x100000⟩ : MemoryArea)], (⟨0x10000, 0x5000⟩ : MemoryArea).isContainedIn e) ∧
      (∃ e ∈ [(⟨0, 0x100000⟩ : MemoryArea)], (⟨0x20000, 0x2000⟩ : MemoryArea).isContainedIn e) ∧
      let out := (start [⟨0x10000, 0x5000⟩, ⟨0x20000, 0x2000⟩] [⟨0, 0x100000⟩]).collect
      out.Pairwise MemoryArea.Disjoint ∧
        (∀ a ∈ out, (∃ e ∈ [(⟨0, 0x100000⟩ : MemoryArea)], a.isContainedIn e) ∧
          a.Disjoint ⟨0x10000, 0x5000⟩ ∧ a.Disjoint ⟨0x20000, 0x2000⟩) ∧
        (∀ b, (∃ a ∈ out, b ∈ a) ↔ (∃ e ∈ [(⟨0, 0x100000⟩ : MemoryArea)], b ∈ e) ∧
          b ∉ (⟨0x10000, 0x5000⟩ : MemoryArea) ∧ b ∉ (⟨0x20000, 0x2000⟩ : MemoryArea)) ∧
        MemoryArea.Ascending out :=
  have hasc : MemoryArea.Ascending [⟨0, 0x100000⟩] := by simp [MemoryArea.Ascending]
  have hd : (⟨0x10000, 0x5000⟩ : MemoryArea).Disjoint ⟨0x20000, 0x2000⟩ :=
    MemoryArea.disjoint_of_le (by decide)
  have h₀ : ∃ e ∈ [(⟨0, 0x100000⟩ : MemoryArea)], (⟨0x10000, 0x5000⟩ : MemoryArea).isContainedIn e :=
    ⟨_, List.mem_singleton_self _, by decide⟩
  have h₁ : ∃ e ∈ [(⟨0, 0x100000⟩ : MemoryArea)], (⟨0x20000, 0x2000⟩ : MemoryArea).isContainedIn e :=
    ⟨_, List.mem_singleton_self _, by decide⟩
  ⟨hasc, by decide, hd, h₀, h₁,
    collect_excludes_of_ascending _ _ _ hasc (by decide) hd h₀ h₁⟩

/-- A firmware map that lists the area holding the second exclusion first: the
    first area is yielded whole, second exclusion and all. -/
theorem collect_reports_excluded_of_descending :
    let areas : List MemoryArea := [⟨0x1000, 0x1000⟩, ⟨0, 0x1000⟩]
    let x₀ : MemoryArea := ⟨0x100, 0x100⟩
    let x₁ : MemoryArea := ⟨0x1100, 0x100⟩
    areas.Pairwise MemoryArea.Disjoint ∧ x₀.start ≤ x₁.start ∧ x₀.Disjoint x₁ ∧
      x₀.isContainedIn ⟨0, 0x1000⟩ ∧ x₁.isContainedIn ⟨0x1000, 0x1000⟩ ∧
      ⟨0x1000, 0x1000⟩ ∈ (start [x₀, x₁] areas).collect ∧ 0x1100 ∈ (⟨0x1000, 0x1000⟩ : MemoryArea) ∧
      0x1100 ∈ x₁ := by
  have hn : (start [⟨0x100, 0x100⟩, ⟨0x1100, 0x100⟩] [⟨0x1000, 0x1000⟩, ⟨0, 0x1000⟩]).next =
      (some ⟨0x1000, 0x1000⟩, _) :=
    next_of_not_isContainedIn (x := ⟨0x100, 0x100⟩) rfl rfl (by decide)
  refine ⟨?_, by decide, MemoryArea.disjoint_of_le (by decide), by decide, by decide,
    by rw [collect_of_next_some hn]; exact List.mem_cons_self _ _, by decide, by decide⟩
  simp only [List.pairwise_cons, List.mem_singleton, forall_eq, List.not_mem_nil,
    IsEmpty.forall_iff, implies_true, List.Pairwise.nil, and_true]
  exact (MemoryArea.disjoint_of_le (by decide)).symm

end MemoryMapIterator

end BoringOS
