import FrogAgent.Hook.Thunks
import Mathlib.Data.List.Pairwise
import Mathlib.Order.BooleanAlgebra.Set

/-!
# The slab as a set of used slots

Seen from outside, the thunk slab is the set of slot addresses whose free bit is
clear.  `emit_thunk` adds one address that was not in it, `free_thunk` takes one
out, and neither touches the bytes of any other used slot.
-/

namespace FrogAgent.Thunks

open FrogAgent.ByteMemory

/-- The slots of a page whose free bit is clear. -/
def SlabPage.used (page : SlabPage) : Set ℕ :=
  {addr | ∃ idx < slotsPerPage, page.freeMask.getLsbD idx = false ∧
    addr = page.base + idx * slotBytes}

def usedSlots (pages : List SlabPage) : Set ℕ :=
  {addr | ∃ page ∈ pages, addr ∈ page.used}

def bases (pages : List SlabPage) : List ℕ := pages.map SlabPage.base

/-- No two slab pages share an address. -/
def PagesApart (pages : List SlabPage) : Prop :=
  (bases pages).Pairwise fun left right => Apart left pageBytes right pageBytes

@[simp]
theorem usedSlots_nil : usedSlots [] = ∅ := by
  ext addr
  simp [usedSlots]

@[simp]
theorem usedSlots_cons (page : SlabPage) (pages : List SlabPage) :
    usedSlots (page :: pages) = page.used ∪ usedSlots pages := by
  ext addr
  simp [usedSlots]

@[simp]
theorem usedSlots_append (first second : List SlabPage) :
    usedSlots (first ++ second) = usedSlots first ∪ usedSlots second := by
  ext addr
  simp [usedSlots, or_and_right, exists_or]

theorem pagesApart_cons {page : SlabPage} {pages : List SlabPage} :
    PagesApart (page :: pages) ↔
      (∀ base ∈ bases pages, Apart page.base pageBytes base pageBytes) ∧
        PagesApart pages :=
  List.pairwise_cons

/-! ## One page -/

theorem used_range {page : SlabPage} {addr : ℕ}
    (hused : addr ∈ page.used) :
    page.base ≤ addr ∧ addr + slotBytes ≤ page.base + pageBytes := by
  obtain ⟨idx, hidx, -, rfl⟩ := hused
  simp only [slotsPerPage, pageBytes, slotBytes] at hidx ⊢
  omega

theorem contains_of_used {page : SlabPage} {addr : ℕ}
    (hused : addr ∈ page.used) : page.contains addr = true := by
  have hrange := used_range hused
  simp only [slotBytes] at hrange
  simp only [SlabPage.contains, Bool.and_eq_true, decide_eq_true_eq]
  omega

theorem not_used_new (base addr : ℕ) : addr ∉ (SlabPage.new base).used := by
  rintro ⟨idx, hidx, hclear, -⟩
  have hbit : idx < 128 := hidx
  rw [SlabPage.new, BitVec.getLsbD_allOnes, decide_eq_false_iff_not] at hclear
  exact hclear hbit

/-- Two used slots of one page are the same or 32 bytes apart. -/
theorem used_apart {page : SlabPage} {left right : ℕ}
    (hleft : left ∈ page.used) (hright : right ∈ page.used)
    (hne : left ≠ right) : Apart left slotBytes right slotBytes := by
  obtain ⟨leftIdx, -, -, rfl⟩ := hleft
  obtain ⟨rightIdx, -, -, rfl⟩ := hright
  simp only [Apart, slotBytes] at hne ⊢
  omega

/-- The mask of a single slot. -/
theorem getLsbD_slotMask {idx other : ℕ} (hother : other < slotsPerPage) :
    (1#128 <<< idx).getLsbD other = decide (other = idx) := by
  have hbit : other < 128 := hother
  rw [BitVec.getLsbD_shiftLeft, BitVec.getLsbD_one, Bool.eq_iff_iff]
  simp only [hbit, decide_true, Bool.true_and, Bool.and_eq_true, Bool.not_eq_true',
    decide_eq_false_iff_not, decide_eq_true_eq]
  omega

theorem getLsbD_clearSlot (mask : BitVec 128) {idx other : ℕ}
    (hother : other < slotsPerPage) :
    (mask &&& ~~~(1#128 <<< idx)).getLsbD other = false ↔
      mask.getLsbD other = false ∨ other = idx := by
  have hbit : other < 128 := hother
  rw [BitVec.getLsbD_and, BitVec.getLsbD_not, getLsbD_slotMask hother,
    Bool.and_eq_false_iff]
  simp only [hbit, decide_true, Bool.true_and, Bool.not_eq_false',
    decide_eq_true_eq]

theorem getLsbD_setSlot (mask : BitVec 128) {idx other : ℕ}
    (hother : other < slotsPerPage) :
    (mask ||| 1#128 <<< idx).getLsbD other = false ↔
      mask.getLsbD other = false ∧ other ≠ idx := by
  rw [BitVec.getLsbD_or, getLsbD_slotMask hother]
  simp

/-- `try_alloc` marks exactly one further slot as used. -/
theorem tryAlloc_used {page next : SlabPage} {addr : ℕ}
    (halloc : page.tryAlloc = some (addr, next)) :
    next.base = page.base ∧ addr ∉ page.used ∧
      next.used = insert addr page.used := by
  unfold SlabPage.tryAlloc at halloc
  split at halloc
  · contradiction
  · rename_i idx hfind
    have hidx : idx < slotsPerPage :=
      List.mem_range.mp (List.mem_of_find?_eq_some hfind)
    have hset : page.freeMask.getLsbD idx = true := List.find?_some hfind
    cases halloc
    refine ⟨rfl, ?_, ?_⟩
    · rintro ⟨other, hother, hclear, hequal⟩
      have hsame : idx = other := by
        simp only [slotBytes] at hequal
        omega
      rw [← hsame, hset] at hclear
      contradiction
    · ext other
      rw [Set.mem_insert_iff]
      constructor
      · rintro ⟨found, hfound, hclear, rfl⟩
        rcases (getLsbD_clearSlot page.freeMask hfound).mp hclear with hold | rfl
        · exact Or.inr ⟨found, hfound, hold, rfl⟩
        · exact Or.inl rfl
      · rintro (rfl | ⟨found, hfound, hold, rfl⟩)
        · exact ⟨idx, hidx,
            (getLsbD_clearSlot page.freeMask hidx).mpr (Or.inr rfl), rfl⟩
        · exact ⟨found, hfound,
            (getLsbD_clearSlot page.freeMask hfound).mpr (Or.inl hold), rfl⟩

/-- `free` gives exactly the named slot back. -/
theorem free_used {page : SlabPage} {addr : ℕ} (hused : addr ∈ page.used) :
    (page.free addr).used = page.used \ {addr} := by
  obtain ⟨idx, hidx, hclear, rfl⟩ := hused
  have hindex : (page.base + idx * slotBytes - page.base) / slotBytes = idx := by
    rw [Nat.add_sub_cancel_left]
    exact Nat.mul_div_cancel idx (by decide)
  ext other
  rw [Set.mem_sdiff, Set.mem_singleton_iff]
  constructor
  · rintro ⟨found, hfound, hfree, rfl⟩
    simp only [SlabPage.free, hindex] at hfree
    obtain ⟨hold, hne⟩ := (getLsbD_setSlot page.freeMask hfound).mp hfree
    refine ⟨⟨found, hfound, hold, rfl⟩, ?_⟩
    simp only [SlabPage.free, slotBytes]
    omega
  · rintro ⟨⟨found, hfound, hold, rfl⟩, hne⟩
    refine ⟨found, hfound, ?_, rfl⟩
    simp only [SlabPage.free, hindex]
    apply (getLsbD_setSlot page.freeMask hfound).mpr
    refine ⟨hold, ?_⟩
    rintro rfl
    exact hne rfl

/-! ## The list of pages -/

theorem usedSlots_range {pages : List SlabPage} {addr : ℕ}
    (hused : addr ∈ usedSlots pages) :
    ∃ base ∈ bases pages, base ≤ addr ∧ addr + slotBytes ≤ base + pageBytes := by
  obtain ⟨page, hpage, hslot⟩ := hused
  exact ⟨page.base, List.mem_map_of_mem hpage, used_range hslot⟩

/-- A range apart from every page is apart from every used slot. -/
theorem apart_used {pages : List SlabPage} {start width addr : ℕ}
    (hapart : ∀ base ∈ bases pages, Apart start width base pageBytes)
    (hused : addr ∈ usedSlots pages) : Apart start width addr slotBytes := by
  obtain ⟨base, hbase, hlow, hhigh⟩ := usedSlots_range hused
  exact (hapart base hbase).mono le_rfl le_rfl hlow hhigh

theorem usedSlots_apart {pages : List SlabPage} (hpages : PagesApart pages)
    {left right : ℕ} (hleft : left ∈ usedSlots pages)
    (hright : right ∈ usedSlots pages) (hne : left ≠ right) :
    Apart left slotBytes right slotBytes := by
  induction pages with
  | nil => simp at hleft
  | cons page pages ih =>
      obtain ⟨hhead, htail⟩ := pagesApart_cons.mp hpages
      rw [usedSlots_cons] at hleft hright
      -- a slot of the first page against a slot of a later one
      have hcross : ∀ {first second : ℕ}, first ∈ page.used →
          second ∈ usedSlots pages → Apart first slotBytes second slotBytes := by
        intro first second hfirst hsecond
        have hrange := used_range hfirst
        exact (apart_used hhead hsecond).mono hrange.1 hrange.2 le_rfl le_rfl
      rcases hleft with hleft | hleft
      · rcases hright with hright | hright
        · exact used_apart hleft hright hne
        · exact hcross hleft hright
      · rcases hright with hright | hright
        · exact (hcross hright hleft).symm
        · exact ih htail hleft hright

theorem pagesApart_concat {page : SlabPage} {pages : List SlabPage}
    (hpages : PagesApart pages)
    (hpage : ∀ base ∈ bases pages, Apart base pageBytes page.base pageBytes) :
    PagesApart (pages ++ [page]) := by
  rw [PagesApart, bases, List.map_append, List.pairwise_append]
  refine ⟨hpages, List.pairwise_singleton _ _, ?_⟩
  intro base hbase other hother
  rw [List.map_singleton, List.mem_singleton] at hother
  rw [hother]
  exact hpage base hbase

theorem pagesApart_of_bases {pages next : List SlabPage}
    (hbases : bases next = bases pages) (hpages : PagesApart pages) :
    PagesApart next := by
  rw [PagesApart, hbases]
  exact hpages

/-- The slots of a page apart from all others are not used elsewhere. -/
theorem not_usedSlots_of_contains {page : SlabPage} {pages : List SlabPage}
    {addr : ℕ} (hhead : ∀ base ∈ bases pages, Apart page.base pageBytes base pageBytes)
    (hcontains : page.contains addr = true) : addr ∉ usedSlots pages := by
  intro hused
  obtain ⟨base, hbase, hlow, hhigh⟩ := usedSlots_range hused
  have hapart := hhead base hbase
  simp only [SlabPage.contains, Bool.and_eq_true, decide_eq_true_eq] at hcontains
  simp only [Apart, slotBytes] at hapart hhigh
  omega

/-- Allocating from the pages adds one slot that was not used. -/
theorem allocFromPages_used {pages next : List SlabPage} {addr : ℕ}
    (halloc : allocFromPages pages = some (addr, next))
    (hpages : PagesApart pages) :
    bases next = bases pages ∧ addr ∉ usedSlots pages ∧
      usedSlots next = insert addr (usedSlots pages) := by
  induction pages generalizing addr next with
  | nil => contradiction
  | cons page pages ih =>
      obtain ⟨hhead, htail⟩ := pagesApart_cons.mp hpages
      unfold allocFromPages at halloc
      split at halloc
      · rename_i found taken htaken
        cases halloc
        obtain ⟨hbase, hfresh, hused⟩ := tryAlloc_used htaken
        have hslot : addr ∈ taken.used := by
          rw [hused]
          exact Set.mem_insert addr page.used
        have hcontains : page.contains addr = true := by
          have hinside := contains_of_used hslot
          rwa [SlabPage.contains, hbase] at hinside
        refine ⟨by simp [bases, hbase], ?_, ?_⟩
        · rw [usedSlots_cons, Set.mem_union, not_or]
          exact ⟨hfresh, not_usedSlots_of_contains hhead hcontains⟩
        · rw [usedSlots_cons, usedSlots_cons, hused, Set.insert_union]
      · rw [Option.map_eq_some_iff] at halloc
        obtain ⟨⟨found, rest⟩, hrest, hequal⟩ := halloc
        cases hequal
        obtain ⟨hbases, hfresh, hused⟩ := ih hrest htail
        refine ⟨by simpa [bases] using hbases, ?_, ?_⟩
        · rw [usedSlots_cons, Set.mem_union, not_or]
          refine ⟨?_, hfresh⟩
          intro hslot
          have hlater : addr ∈ usedSlots rest := by
            rw [hused]
            exact Set.mem_insert addr (usedSlots pages)
          rw [← hbases] at hhead
          exact not_usedSlots_of_contains hhead (contains_of_used hslot) hlater
        · rw [usedSlots_cons, usedSlots_cons, hused, Set.union_insert]

/-- Freeing a used slot takes it, and nothing else, out of the set. -/
theorem freeInPages_used {pages : List SlabPage} {addr : ℕ}
    (hpages : PagesApart pages) (hslot : addr ∈ usedSlots pages) :
    bases (freeInPages addr pages) = bases pages ∧
      usedSlots (freeInPages addr pages) = usedSlots pages \ {addr} := by
  induction pages with
  | nil => simp at hslot
  | cons page pages ih =>
      obtain ⟨hhead, htail⟩ := pagesApart_cons.mp hpages
      unfold freeInPages
      split
      · rename_i hcontains
        have hrest := not_usedSlots_of_contains hhead hcontains
        rw [usedSlots_cons] at hslot ⊢
        rw [free_used (hslot.resolve_right hrest), usedSlots_cons,
          Set.union_sdiff_distrib, Set.sdiff_singleton_eq_self hrest]
        exact ⟨rfl, rfl⟩
      · rename_i hcontains
        have hpage : addr ∉ page.used := fun hused =>
          hcontains (contains_of_used hused)
        rw [usedSlots_cons] at hslot ⊢
        obtain ⟨hbases, hused⟩ := ih htail (hslot.resolve_left hpage)
        refine ⟨by simpa [bases] using hbases, ?_⟩
        rw [usedSlots_cons, hused, Set.union_sdiff_distrib,
          Set.sdiff_singleton_eq_self hpage]

/-! ## Emitting and freeing a thunk -/

/-- What `emit_thunk` does to the slab when it returns `addr`. -/
structure Emitted (shimAddr : ℕ) (slab : Slab) (newPage : Option ℕ)
    (methodId addr : ℕ) (next : Slab) : Prop where
  pages : PagesApart next.pages
  bases : ∀ base ∈ bases next.pages, base ∈ bases slab.pages ∨ newPage = some base
  fresh : addr ∉ usedSlots slab.pages
  used : usedSlots next.pages = insert addr (usedSlots slab.pages)
  written : load next.memory addr slotBytes = thunkBytes methodId shimAddr
  kept : ∀ other ∈ usedSlots slab.pages,
    load next.memory other slotBytes = load slab.memory other slotBytes

theorem Emitted.mem_used {shimAddr methodId addr : ℕ} {slab next : Slab}
    {newPage : Option ℕ}
    (hemitted : Emitted shimAddr slab newPage methodId addr next) :
    addr ∈ usedSlots next.pages := by
  rw [hemitted.used]
  exact Set.mem_insert addr (usedSlots slab.pages)

/-- Writing the thunk of a slot that was just allocated. -/
theorem emitted_store {shimAddr methodId addr : ℕ} {slab middle : Slab}
    {newPage : Option ℕ} (hpages : PagesApart middle.pages)
    (hbases : ∀ base ∈ bases middle.pages,
      base ∈ bases slab.pages ∨ newPage = some base)
    (hfresh : addr ∉ usedSlots slab.pages)
    (hused : usedSlots middle.pages = insert addr (usedSlots slab.pages))
    (hkept : ∀ other ∈ usedSlots slab.pages,
      load middle.memory other slotBytes = load slab.memory other slotBytes) :
    Emitted shimAddr slab newPage methodId addr
      { middle with
        memory := store middle.memory ⟨addr, thunkBytes methodId shimAddr⟩ } where
  pages := hpages
  bases := hbases
  fresh := hfresh
  used := hused
  written := load_store_self middle.memory ⟨addr, _⟩
    (length_thunkBytes methodId shimAddr)
  kept := by
    intro other hother
    have hnew : addr ∈ usedSlots middle.pages := by
      rw [hused]
      exact Set.mem_insert addr (usedSlots slab.pages)
    have hold : other ∈ usedSlots middle.pages := by
      rw [hused]
      exact Set.mem_insert_of_mem addr hother
    have hne : addr ≠ other := by
      rintro rfl
      exact hfresh hother
    rw [load_store_of_apart, hkept other hother]
    rw [length_thunkBytes]
    exact usedSlots_apart hpages hnew hold hne

theorem emitThunk_emitted {shimAddr methodId addr : ℕ} {slab next : Slab}
    {newPage : Option ℕ}
    (hemit : emitThunk shimAddr slab newPage methodId = some (addr, next))
    (hpages : PagesApart slab.pages)
    (hnew : ∀ base ∈ newPage, ∀ other ∈ bases slab.pages,
      Apart other pageBytes base pageBytes) :
    Emitted shimAddr slab newPage methodId addr next := by
  unfold emitThunk at hemit
  simp only [Option.map_eq_some_iff, Prod.exists, Prod.mk.injEq] at hemit
  obtain ⟨found, middle, halloc, rfl, rfl⟩ := hemit
  split at halloc
  · rename_i taken pages htaken
    cases halloc
    obtain ⟨hbases, hfresh, hused⟩ := allocFromPages_used htaken hpages
    apply emitted_store (pagesApart_of_bases hbases hpages) _ hfresh hused
    · intro other hother
      rfl
    · intro base hbase
      rw [hbases] at hbase
      exact Or.inl hbase
  · simp only [Option.bind_eq_bind, Option.bind_eq_some_iff] at halloc
    obtain ⟨base, hbase, ⟨taken, page⟩, htaken, hequal⟩ := halloc
    cases hequal
    obtain ⟨hpage, -, hused⟩ := tryAlloc_used htaken
    have hbaseEq : page.base = base := hpage
    have hapart : ∀ other ∈ bases slab.pages,
        Apart other pageBytes page.base pageBytes := by
      rw [hbaseEq]
      exact hnew base hbase
    have honly : page.used = {taken} := by
      rw [hused, Set.eq_empty_of_forall_notMem (not_used_new base),
        insert_empty_eq]
    have hslot : taken ∈ page.used := by
      rw [honly]
      exact Set.mem_singleton taken
    apply emitted_store (pagesApart_concat hpages hapart)
    · intro other hother
      rw [bases, List.map_append, List.mem_append, List.map_singleton,
        List.mem_singleton, hbaseEq] at hother
      rcases hother with hold | rfl
      · exact Or.inl hold
      · exact Or.inr hbase
    · exact not_usedSlots_of_contains
        (fun other hother => (hapart other hother).symm) (contains_of_used hslot)
    · rw [usedSlots_append, usedSlots_cons, usedSlots_nil, Set.union_empty, honly,
        Set.union_singleton]
    · intro other hother
      apply load_fill_of_apart
      rw [← hbaseEq]
      exact apart_used (fun old hold => (hapart old hold).symm) hother

theorem freeThunk_used (slab : Slab) {addr : ℕ} (hpages : PagesApart slab.pages)
    (hslot : addr ∈ usedSlots slab.pages) :
    PagesApart (freeThunk slab addr).pages ∧
      usedSlots (freeThunk slab addr).pages = usedSlots slab.pages \ {addr} := by
  obtain ⟨hbases, hused⟩ := freeInPages_used hpages hslot
  exact ⟨pagesApart_of_bases hbases hpages, hused⟩

/-- Freeing a thunk leaves the other thunks as they are. -/
theorem freeThunk_kept (slab : Slab) {addr other : ℕ}
    (hpages : PagesApart slab.pages) (hslot : addr ∈ usedSlots slab.pages)
    (hother : other ∈ usedSlots slab.pages) (hne : addr ≠ other) :
    load (freeThunk slab addr).memory other slotBytes =
      load slab.memory other slotBytes := by
  apply load_store_of_apart
  rw [List.length_replicate]
  exact usedSlots_apart hpages hslot hother hne

end FrogAgent.Thunks
