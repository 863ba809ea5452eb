import FrogAgent.Lib.ByteMemory
import FrogAgent.Lib.LittleEndian

/-!
# Thunk slab

`hook_runtime/thunks.rs`: 32-byte thunks carved out of executable pages.  A page
keeps a 128-bit mask of its free slots; freed slots are filled with `int3`.
-/

namespace FrogAgent.Thunks

open FrogAgent.ByteMemory
open FrogAgent.LittleEndian

def slotBytes : ℕ := 32
def pageBytes : ℕ := 4096
def slotsPerPage : ℕ := pageBytes / slotBytes

/-- A slab page; bit `i` of the mask is set when slot `i` is free. -/
structure SlabPage where
  base : ℕ
  freeMask : BitVec 128
  deriving DecidableEq

def SlabPage.new (base : ℕ) : SlabPage := ⟨base, BitVec.allOnes 128⟩

/-- Take the lowest free slot. -/
def SlabPage.tryAlloc (page : SlabPage) : Option (ℕ × SlabPage) :=
  match (List.range slotsPerPage).find? fun idx => page.freeMask.getLsbD idx with
  | none => none
  | some idx => some (page.base + idx * slotBytes,
      { page with freeMask := page.freeMask &&& ~~~(1#128 <<< idx) })

/-- Does the page contain the slot? -/
def SlabPage.contains (page : SlabPage) (slotAddr : ℕ) : Bool :=
  page.base ≤ slotAddr && slotAddr < page.base + pageBytes

def SlabPage.free (page : SlabPage) (slotAddr : ℕ) : SlabPage :=
  { page with
    freeMask := page.freeMask |||
      (1#128 <<< ((slotAddr - page.base) / slotBytes)) }

/-- Try the pages in order; the first one with a free slot serves it. -/
def allocFromPages : List SlabPage → Option (ℕ × List SlabPage)
  | [] => none
  | page :: pages =>
      match page.tryAlloc with
      | some (addr, page) => some (addr, page :: pages)
      | none => (allocFromPages pages).map fun (addr, pages) => (addr, page :: pages)

/-- The first page that contains the slot takes it back. -/
def freeInPages (slotAddr : ℕ) : List SlabPage → List SlabPage
  | [] => []
  | page :: pages =>
      if page.contains slotAddr then page.free slotAddr :: pages
      else page :: freeInPages slotAddr pages

/-- `mov r10, id; mov r11, shim; jmp r11`, padded with `int3`. -/
def thunkBytes (methodId shimAddr : ℕ) : List UInt8 :=
  [0x49, 0xBA] ++ leBytes 8 methodId ++ [0x49, 0xBB] ++ leBytes 8 shimAddr ++
    [0x41, 0xFF, 0xE3] ++ List.replicate 9 0xCC

/-- The state the thunk functions work on. -/
structure Slab where
  memory : Memory UInt8
  pages : List SlabPage

/-- Allocate a slot and write its thunk.  `newPage` is the answer of
`VirtualAlloc` should a new page be needed. -/
def emitThunk (shimAddr : ℕ) (slab : Slab) (newPage : Option ℕ)
    (methodId : ℕ) : Option (ℕ × Slab) :=
  let allocated : Option (ℕ × Slab) :=
    match allocFromPages slab.pages with
    | some (addr, pages) => some (addr, ⟨slab.memory, pages⟩)
    | none => do
        let base ← newPage
        let (addr, page) ← (SlabPage.new base).tryAlloc
        some (addr, ⟨fill slab.memory base pageBytes 0xCC, slab.pages ++ [page]⟩)
  allocated.map fun (addr, slab) =>
    (addr, { slab with
      memory := store slab.memory ⟨addr, thunkBytes methodId shimAddr⟩ })

/-- Overwrite a slot with `int3` and return it to its page. -/
def freeThunk (slab : Slab) (slotAddr : ℕ) : Slab where
  memory := store slab.memory ⟨slotAddr, List.replicate slotBytes 0xCC⟩
  pages := freeInPages slotAddr slab.pages

theorem length_thunkBytes (methodId shimAddr : ℕ) :
    (thunkBytes methodId shimAddr).length = slotBytes := by
  simp [thunkBytes, slotBytes]

/-! ## The slab stays inside its pages -/

def PagesAvoid (region : Set ℕ) (pages : List SlabPage) : Prop :=
  ∀ page ∈ pages, Avoids region page.base pageBytes

theorem tryAlloc_eq_some {page page' : SlabPage} {addr : ℕ}
    (halloc : page.tryAlloc = some (addr, page')) :
    page'.base = page.base ∧ page.base ≤ addr ∧
      addr + slotBytes ≤ page.base + pageBytes := by
  unfold SlabPage.tryAlloc at halloc
  split at halloc
  · contradiction
  · rename_i idx hfind
    have hidx : idx < slotsPerPage :=
      List.mem_range.mp (List.mem_of_find?_eq_some hfind)
    simp only [slotsPerPage, pageBytes, slotBytes] at hidx
    simp only [Option.some.injEq, Prod.mk.injEq] at halloc
    obtain ⟨rfl, rfl⟩ := halloc
    refine ⟨rfl, by omega, ?_⟩
    simp only [pageBytes, slotBytes]
    omega

theorem avoids_slot_of_tryAlloc {region : Set ℕ} {page page' : SlabPage}
    {addr : ℕ} (halloc : page.tryAlloc = some (addr, page'))
    (havoids : Avoids region page.base pageBytes) :
    Avoids region addr slotBytes ∧ Avoids region page'.base pageBytes := by
  obtain ⟨hbase, hlow, hhigh⟩ := tryAlloc_eq_some halloc
  exact ⟨havoids.mono hlow hhigh, hbase ▸ havoids⟩

theorem pagesAvoid_allocFromPages {region : Set ℕ}
    {pages pages' : List SlabPage} {addr : ℕ}
    (halloc : allocFromPages pages = some (addr, pages'))
    (havoids : PagesAvoid region pages) :
    Avoids region addr slotBytes ∧ PagesAvoid region pages' := by
  induction pages generalizing addr pages' with
  | nil => contradiction
  | cons page pages ih =>
      have hhead := havoids page List.mem_cons_self
      have htail : PagesAvoid region pages := fun other hother =>
        havoids other (List.mem_cons_of_mem _ hother)
      unfold allocFromPages at halloc
      split at halloc
      · rename_i found page' hfound
        cases halloc
        obtain ⟨hslot, hpage⟩ := avoids_slot_of_tryAlloc hfound hhead
        refine ⟨hslot, fun other hother => ?_⟩
        rcases List.mem_cons.mp hother with rfl | hmem
        · exact hpage
        · exact htail other hmem
      · rw [Option.map_eq_some_iff] at halloc
        obtain ⟨⟨found, rest⟩, hrest, hequal⟩ := halloc
        cases hequal
        obtain ⟨hslot, hpages⟩ := ih hrest htail
        refine ⟨hslot, fun other hother => ?_⟩
        rcases List.mem_cons.mp hother with rfl | hmem
        · exact hhead
        · exact hpages other hmem

/-- Emitting a thunk changes nothing outside the slab pages. -/
theorem emitThunk_avoids {region : Set ℕ} {shimAddr methodId addr : ℕ}
    {slab slab' : Slab} {newPage : Option ℕ}
    (hemit : emitThunk shimAddr slab newPage methodId = some (addr, slab'))
    (havoids : PagesAvoid region slab.pages)
    (hnew : ∀ base ∈ newPage, Avoids region base pageBytes) :
    Avoids region addr slotBytes ∧ PagesAvoid region slab'.pages ∧
      AgreeOn region slab'.memory slab.memory := by
  unfold emitThunk at hemit
  simp only [Option.map_eq_some_iff, Prod.exists, Prod.mk.injEq] at hemit
  obtain ⟨addr', middle, halloc, rfl, rfl⟩ := hemit
  -- the slot itself lies in a page that avoids the region
  suffices hmiddle : Avoids region addr' slotBytes ∧
      PagesAvoid region middle.pages ∧
      AgreeOn region middle.memory slab.memory by
    obtain ⟨hslot, hpages, hagree⟩ := hmiddle
    refine ⟨hslot, hpages, AgreeOn.trans ?_ hagree⟩
    apply store_agreeOn_of_avoids
    simpa only [length_thunkBytes] using hslot
  split at halloc
  · rename_i found pages hfound
    cases halloc
    obtain ⟨hslot, hpages⟩ := pagesAvoid_allocFromPages hfound havoids
    exact ⟨hslot, hpages, fun _ _ => rfl⟩
  · simp only [Option.bind_eq_bind, Option.bind_eq_some_iff] at halloc
    obtain ⟨base, hbase, ⟨found, page⟩, hfound, hequal⟩ := halloc
    cases hequal
    have hpage : Avoids region (SlabPage.new base).base pageBytes :=
      hnew base hbase
    obtain ⟨hslot, hpage'⟩ := avoids_slot_of_tryAlloc hfound hpage
    refine ⟨hslot, fun other hother => ?_, fill_agreeOn_of_avoids _ _ hpage⟩
    rcases List.mem_append.mp hother with hold | hlast
    · exact havoids other hold
    · rw [List.mem_singleton] at hlast
      subst hlast
      exact hpage'

theorem freeThunk_avoids {region : Set ℕ} (slab : Slab) {slotAddr : ℕ}
    (hslot : Avoids region slotAddr slotBytes)
    (havoids : PagesAvoid region slab.pages) :
    PagesAvoid region (freeThunk slab slotAddr).pages ∧
      AgreeOn region (freeThunk slab slotAddr).memory slab.memory := by
  constructor
  · obtain ⟨memory, pages⟩ := slab
    simp only [freeThunk] at havoids ⊢
    induction pages with
    | nil => exact havoids
    | cons page pages ih =>
        have hhead := havoids page List.mem_cons_self
        have htail : PagesAvoid region pages := fun other hother =>
          havoids other (List.mem_cons_of_mem _ hother)
        unfold freeInPages
        split
        · intro other hother
          rcases List.mem_cons.mp hother with rfl | hmem
          · exact hhead
          · exact htail other hmem
        · intro other hother
          rcases List.mem_cons.mp hother with rfl | hmem
          · exact hhead
          · exact ih htail other hmem
  · apply store_agreeOn_of_avoids
    simpa using hslot

end FrogAgent.Thunks
