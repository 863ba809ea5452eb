import FrogAgent.External.VirtualMemory
import FrogAgent.Host.MemHost

/-!
# Guarded writes

`guarded_write` queries the region of the address, decides with `can_write`, makes the
pages of the range writable, copies the bytes and puts the protection back.  One saved
protection is enough for every page, because the range lies in one region.
-/

namespace FrogAgent.GuardedWrite

open FrogAgent.ByteMemory
open FrogAgent.MemHost
open FrogAgent.VirtualMemory

inductive WriteError where
  | zeroLen
  | notCommitted
  | guardPage
  | spansRegion
  | protectFailed
  deriving DecidableEq

/-- Is the write of `len` bytes at `addr` safe, given what the query says about its
region? -/
def canWrite (state protect : UInt32) (base size addr len : ℕ) : Except WriteError Unit :=
  if len = 0 then .error .zeroLen
  else if state ≠ memCommit then .error .notCommitted
  else if protect &&& pageGuard ≠ 0 ∨ protect = pageNoaccess then .error .guardPage
  else
    let regionEnd := saturatingAdd base size
    match checkedAdd addr len with
    | none => .error .spansRegion
    | some writeEnd =>
        if addr < base ∨ regionEnd < writeEnd then .error .spansRegion else .ok ()

def pageSize : ℕ := 4096

structure Page where
  state : UInt32
  protect : UInt32
  deriving DecidableEq

/-- Some byte of the range lies on the page. -/
def Touches (addr len page : ℕ) : Prop :=
  page * pageSize < addr + len ∧ addr < (page + 1) * pageSize

instance (addr len page : ℕ) : Decidable (Touches addr len page) :=
  inferInstanceAs (Decidable (_ ∧ _))

/-- The system calls, over a table of pages.  A query describes a region that starts at a
page and whose pages are all alike; `protects` says which changes of protection
succeed. -/
structure System where
  virtualQuery : (ℕ → Page) → ℕ → Option MemoryBasicInformation
  protects : (ℕ → Page) → ℕ → ℕ → UInt32 → Bool
  query_aligned : ∀ pages addr mbi, virtualQuery pages addr = some mbi →
    pageSize ∣ mbi.baseAddress
  query_uniform : ∀ pages addr mbi page, virtualQuery pages addr = some mbi →
    mbi.baseAddress ≤ page * pageSize →
    page * pageSize < mbi.baseAddress + mbi.regionSize →
    pages page = ⟨mbi.state, mbi.protect⟩

/-- The pages after a change of the protection of every page of a range. -/
def protectPages (pages : ℕ → Page) (addr len : ℕ) (protect : UInt32) : ℕ → Page :=
  fun page => if Touches addr len page then ⟨(pages page).state, protect⟩ else pages page

/-- `VirtualProtect`: the changed pages and the old protection of the first one. -/
def virtualProtect (system : System) (pages : ℕ → Page) (addr len : ℕ)
    (protect : UInt32) : Option ((ℕ → Page) × UInt32) :=
  if system.protects pages addr len protect then
    some (protectPages pages addr len protect, (pages (addr / pageSize)).protect)
  else none

structure Process where
  memory : Memory UInt8
  pages : ℕ → Page

def isWritable (protect : UInt32) : Bool :=
  protect &&& (pageReadwrite ||| pageWritecopy ||| pageExecuteReadwrite |||
      pageExecuteWritecopy) != 0 &&
    protect &&& pageGuard == 0

/-- A byte can be stored there without a fault. -/
def Writable (pages : ℕ → Page) (address : ℕ) : Prop :=
  (pages (address / pageSize)).state = memCommit ∧
    isWritable (pages (address / pageSize)).protect = true

instance (pages : ℕ → Page) (address : ℕ) : Decidable (Writable pages address) :=
  inferInstanceAs (Decidable (_ ∧ _))

/-- `copy_nonoverlapping`; the result is `none` if a byte faults. -/
def copyBytes (process : Process) (addr : ℕ) (bytes : List UInt8) : Option Process :=
  if ∀ offset < bytes.length, Writable process.pages (addr + offset) then
    some { process with memory := store process.memory ⟨addr, bytes⟩ }
  else none

/-- The process and the answer after a guarded write; `none` is an access violation. -/
def guardedWrite (system : System) (process : Process) (addr : ℕ) (bytes : List UInt8) :
    Option (Process × Except WriteError Unit) :=
  match system.virtualQuery process.pages addr with
  | none => some (process, .error .notCommitted)
  | some mbi =>
      match canWrite mbi.state mbi.protect mbi.baseAddress mbi.regionSize addr
          bytes.length with
      | .error error => some (process, .error error)
      | .ok () =>
          match virtualProtect system process.pages addr bytes.length
              pageExecuteReadwrite with
          | none => some (process, .error .protectFailed)
          | some (opened, oldProtect) => do
              let written ← copyBytes { process with pages := opened } addr bytes
              -- The restoring call is best-effort: its failure is not reported.
              match virtualProtect system written.pages addr bytes.length oldProtect with
              | none => some (written, .ok ())
              | some (restored, _) => some ({ written with pages := restored }, .ok ())

/-- The decision and the system both let the range be written. -/
def acceptsWrite (system : System) (pages : ℕ → Page) (addr len : ℕ) : Bool :=
  match system.virtualQuery pages addr with
  | none => false
  | some mbi =>
      match canWrite mbi.state mbi.protect mbi.baseAddress mbi.regionSize addr len with
      | .error _ => false
      | .ok () => system.protects pages addr len pageExecuteReadwrite

/-- The call that puts the protection back succeeds. -/
def Restores (system : System) (pages : ℕ → Page) (addr len : ℕ) : Prop :=
  system.protects (protectPages pages addr len pageExecuteReadwrite) addr len
    (pages (addr / pageSize)).protect = true

/-! ## The range of an accepted write -/

section Accepted

variable {state protect : UInt32} {base size addr len : ℕ}

theorem canWrite_ok (haccepted : canWrite state protect base size addr len = .ok ()) :
    0 < len ∧ state = memCommit ∧ base ≤ addr ∧ addr + len ≤ base + size := by
  unfold canWrite checkedAdd at haccepted
  split at haccepted
  case isTrue => contradiction
  case isFalse hlen =>
    split at haccepted
    case isTrue => contradiction
    case isFalse hstate =>
      split at haccepted
      case isTrue => contradiction
      case isFalse =>
        simp only at haccepted
        split at haccepted
        case h_1 => contradiction
        case h_2 writeEnd hend =>
          rw [Option.ite_none_right_eq_some, Option.some.injEq] at hend
          split at haccepted
          case isTrue => contradiction
          case isFalse hinside =>
            have hlimit : saturatingAdd base size ≤ base + size := Nat.min_le_left _ _
            exact ⟨Nat.pos_of_ne_zero hlen, not_not.mp hstate, by omega, by omega⟩

theorem touches_of_offset {offset : ℕ} (hoffset : offset < len) :
    Touches addr len ((addr + offset) / pageSize) := by
  have hbelow := Nat.div_mul_le_self (addr + offset) pageSize
  have habove := Nat.lt_div_mul_add (a := addr + offset) (b := pageSize) (by decide)
  rw [Touches, Nat.succ_mul]
  omega

variable {system : System} {pages : ℕ → Page} {mbi : MemoryBasicInformation}

/-- Every page of a range inside the region has the attributes of the region. -/
theorem page_of_touches (hquery : system.virtualQuery pages addr = some mbi)
    (hbase : mbi.baseAddress ≤ addr)
    (hinside : addr + len ≤ mbi.baseAddress + mbi.regionSize) {page : ℕ}
    (htouches : Touches addr len page) : pages page = ⟨mbi.state, mbi.protect⟩ := by
  obtain ⟨first, hfirst⟩ := system.query_aligned pages addr mbi hquery
  have hsize : pageSize = 4096 := rfl
  obtain ⟨hend, hstart⟩ := htouches
  apply system.query_uniform pages addr mbi page hquery
  · rw [hfirst] at hbase ⊢
    rw [hsize] at hbase hstart ⊢
    omega
  · exact Nat.lt_of_lt_of_le hend hinside

theorem protectPages_of_touches {protect : UInt32} {page : ℕ}
    (htouches : Touches addr len page) :
    protectPages pages addr len protect page = ⟨(pages page).state, protect⟩ :=
  if_pos htouches

/-- Putting one protection back restores every page that had it. -/
theorem protectPages_restored {opened old : UInt32}
    (hold : ∀ page, Touches addr len page → (pages page).protect = old) :
    protectPages (protectPages pages addr len opened) addr len old = pages := by
  funext page
  by_cases htouches : Touches addr len page
  · rw [protectPages_of_touches htouches, protectPages_of_touches htouches,
      ← hold page htouches]
  · simp only [protectPages, if_neg htouches]

end Accepted

/-! ## The whole write -/

section Whole

variable {system : System} {process : Process} {addr : ℕ} {bytes : List UInt8}

theorem acceptsWrite_eq_true {pages : ℕ → Page} {len : ℕ}
    (haccepts : acceptsWrite system pages addr len = true) :
    ∃ mbi, system.virtualQuery pages addr = some mbi ∧
      canWrite mbi.state mbi.protect mbi.baseAddress mbi.regionSize addr len = .ok () ∧
      system.protects pages addr len pageExecuteReadwrite = true := by
  unfold acceptsWrite at haccepts
  split at haccepts
  case h_1 => contradiction
  case h_2 mbi hquery =>
    split at haccepts
    case h_1 => contradiction
    case h_2 haccepted => exact ⟨mbi, hquery, haccepted, haccepts⟩

/-- An accepted write does not fault, stores its bytes and restores the pages. -/
theorem guardedWrite_of_accepted
    (haccepts : acceptsWrite system process.pages addr bytes.length = true)
    (hrestores : Restores system process.pages addr bytes.length) :
    guardedWrite system process addr bytes =
      some ({ process with memory := store process.memory ⟨addr, bytes⟩ }, .ok ()) := by
  obtain ⟨mbi, hquery, haccepted, hprotects⟩ := acceptsWrite_eq_true haccepts
  obtain ⟨hlen, hcommitted, hbase, hinside⟩ := canWrite_ok haccepted
  have hpages : ∀ page, Touches addr bytes.length page →
      process.pages page = ⟨mbi.state, mbi.protect⟩ := fun page htouches =>
    page_of_touches hquery hbase hinside htouches
  have hwritable : ∀ offset < bytes.length,
      Writable (protectPages process.pages addr bytes.length pageExecuteReadwrite)
        (addr + offset) := by
    intro offset hoffset
    have htouches : Touches addr bytes.length ((addr + offset) / pageSize) :=
      touches_of_offset hoffset
    rw [Writable, protectPages_of_touches htouches, hpages _ htouches]
    exact ⟨hcommitted, (by decide : isWritable pageExecuteReadwrite = true)⟩
  have hfirst : (process.pages (addr / pageSize)).protect = mbi.protect := by
    have htouches : Touches addr bytes.length ((addr + 0) / pageSize) :=
      touches_of_offset hlen
    rw [← Nat.add_zero addr, hpages _ htouches]
  have hrestored : protectPages
      (protectPages process.pages addr bytes.length pageExecuteReadwrite) addr bytes.length
      (process.pages (addr / pageSize)).protect = process.pages := by
    apply protectPages_restored
    intro page htouches
    rw [hpages page htouches, hfirst]
  have hopen : virtualProtect system process.pages addr bytes.length pageExecuteReadwrite =
      some (protectPages process.pages addr bytes.length pageExecuteReadwrite,
        (process.pages (addr / pageSize)).protect) := if_pos hprotects
  have hclose : virtualProtect system
      (protectPages process.pages addr bytes.length pageExecuteReadwrite) addr bytes.length
      (process.pages (addr / pageSize)).protect =
        some (process.pages,
          (protectPages process.pages addr bytes.length pageExecuteReadwrite
            (addr / pageSize)).protect) := by
    rw [Restores] at hrestores
    rw [virtualProtect, if_pos hrestores, hrestored]
  simp only [guardedWrite, hquery, haccepted, hopen]
  rw [copyBytes, if_pos hwritable]
  simp only [Option.bind_eq_bind, Option.bind_some, hclose]

/-- Any other write answers with an error before anything is changed. -/
theorem guardedWrite_of_refused
    (hrefused : acceptsWrite system process.pages addr bytes.length = false) :
    ∃ error, guardedWrite system process addr bytes = some (process, .error error) := by
  unfold acceptsWrite at hrefused
  cases hquery : system.virtualQuery process.pages addr with
  | none => exact ⟨.notCommitted, by simp only [guardedWrite, hquery]⟩
  | some mbi =>
      cases hdecision : canWrite mbi.state mbi.protect mbi.baseAddress mbi.regionSize addr
          bytes.length with
      | error error => exact ⟨error, by simp only [guardedWrite, hquery, hdecision]⟩
      | ok accepted =>
          simp only [hquery, hdecision] at hrefused
          have hprotect : virtualProtect system process.pages addr bytes.length
              pageExecuteReadwrite = none := if_neg (by simp [hrefused])
          exact ⟨.protectFailed, by simp only [guardedWrite, hquery, hdecision, hprotect]⟩

/-- A backend that lists the accepted ranges writes what the guarded write writes. -/
theorem rawWrite_eq_guardedWrite {backend : Backend}
    (hbackend : backend.writable addr bytes.length =
      acceptsWrite system process.pages addr bytes.length)
    (hrestores : Restores system process.pages addr bytes.length) :
    rawWrite backend process.memory ⟨addr, bytes⟩ =
      match guardedWrite system process addr bytes with
      | some (after, .ok ()) => some after.memory
      | _ => none := by
  rw [rawWrite, hbackend]
  cases haccepts : acceptsWrite system process.pages addr bytes.length with
  | true => simp [guardedWrite_of_accepted haccepts hrestores]
  | false =>
      obtain ⟨error, hfailed⟩ := guardedWrite_of_refused haccepts
      simp [hfailed]

end Whole

/-- A guarded write never faults.  If it fails, every byte and every page is as before; if
it succeeds, exactly the bytes of the range are the new ones and every page is as before. -/
theorem guardedWrite_exact (system : System) (process : Process) (addr : ℕ)
    (bytes : List UInt8) (hrestores : Restores system process.pages addr bytes.length) :
    ∃ after answer, guardedWrite system process addr bytes = some (after, answer) ∧
      ((∃ error, answer = .error error) →
        after.memory = process.memory ∧ after.pages = process.pages) ∧
      (answer = .ok () →
        (∀ offset (hoffset : offset < bytes.length),
          after.memory (addr + offset) = bytes[offset]) ∧
        (∀ address, address < addr ∨ addr + bytes.length ≤ address →
          after.memory address = process.memory address) ∧
        after.pages = process.pages) := by
  cases haccepts : acceptsWrite system process.pages addr bytes.length with
  | false =>
      obtain ⟨error, hfailed⟩ := guardedWrite_of_refused haccepts
      refine ⟨process, _, hfailed, fun _ => ⟨rfl, rfl⟩, ?_⟩
      intro hok
      contradiction
  | true =>
      refine ⟨_, _, guardedWrite_of_accepted haccepts hrestores, ?_, ?_⟩
      · rintro ⟨error, herror⟩
        contradiction
      · intro _
        refine ⟨?_, ?_, rfl⟩
        · intro offset hoffset
          simp [store, hoffset]
        · intro address houtside
          apply store_of_not_covers
          intro hcovers
          have hstart := hcovers.1
          have hend := hcovers.2
          simp only at hstart hend
          omega

/-- A system whose queries describe the page of the address and the next one, if they are
alike. -/
def sampleSystem : System where
  virtualQuery := fun pages addr =>
    let page := addr / pageSize
    let count := if pages (page + 1) = pages page then 2 else 1
    some ⟨pageSize * page, pageSize * count, (pages page).state, (pages page).protect⟩
  protects := fun _ _ _ _ => true
  query_aligned := by
    intro pages addr mbi hquery
    cases hquery
    exact Nat.dvd_mul_right _ _
  query_uniform := by
    intro pages addr mbi page hquery hstart hend
    cases hquery
    have hsize : pageSize = 4096 := rfl
    generalize addr / pageSize = first at hstart hend ⊢
    by_cases halike : pages (first + 1) = pages first
    · simp only [if_pos halike, hsize] at hstart hend
      rcases (by omega : page = first ∨ page = first + 1) with rfl | rfl
      · rfl
      · exact halike
    · simp only [if_neg halike, hsize] at hstart hend
      rw [(by omega : page = first)]

/-- Committed, read-only and zero everywhere. -/
def sampleProcess : Process := ⟨fun _ => 0, fun _ => ⟨memCommit, pageReadonly⟩⟩

/-- Two bytes across the border of two read-only pages. -/
theorem guardedWrite_exact_border :
    ∃ after, guardedWrite sampleSystem sampleProcess 0x1FFF [1, 2] = some (after, .ok ()) ∧
      after.memory 0x1FFF = 1 ∧ after.memory 0x2000 = 2 ∧
      after.pages = sampleProcess.pages := by
  obtain ⟨after, answer, hwrite, -, hok⟩ :=
    guardedWrite_exact sampleSystem sampleProcess 0x1FFF [1, 2] rfl
  have haccepts : acceptsWrite sampleSystem sampleProcess.pages 0x1FFF 2 = true := by decide
  have hwritten : guardedWrite sampleSystem sampleProcess 0x1FFF [1, 2] = some (_, .ok ()) :=
    guardedWrite_of_accepted haccepts rfl
  rw [hwritten, Option.some.injEq, Prod.mk.injEq] at hwrite
  obtain ⟨hbytes, -, hpages⟩ := hok hwrite.2.symm
  refine ⟨after, ?_, hbytes 0 (by decide), hbytes 1 (by decide), hpages⟩
  rw [hwritten, hwrite.1]

end FrogAgent.GuardedWrite
