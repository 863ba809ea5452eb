import FrogAgent.Lib.UndoLog

/-!
# Undo logs that capture only some writes

A write is marked as permanent or not, and the log captures a write that is not
permanent if its range can be read.  For writes whose ranges are equal or disjoint, the
replay of the log takes every address back to its cell from before the first captured
write that covers it, whatever the order of the replay.
-/

namespace FrogAgent.MarkedLog

open FrogAgent.ByteMemory

variable {Cell : Type*}

structure Marked (Cell : Type*) where
  permanent : Bool
  patch : Patch Cell
  deriving DecidableEq

/-- Whether a log that can read these ranges captures the write. -/
def captured (readable : ℕ → ℕ → Bool) (write : Marked Cell) : Bool :=
  !write.permanent && readable write.patch.start write.patch.cells.length

/-- One write: the log is updated first, the memory second. -/
def step (readable : ℕ → ℕ → Bool) (state : Memory Cell × List (Patch Cell))
    (write : Marked Cell) : Memory Cell × List (Patch Cell) :=
  (store state.1 write.patch,
    if captured readable write then UndoLog.record state.1 state.2 write.patch
    else state.2)

def run (readable : ℕ → ℕ → Bool) (memory : Memory Cell) (writes : List (Marked Cell)) :
    Memory Cell × List (Patch Cell) :=
  writes.foldl (step readable) (memory, [])

/-- The cell of an address from before the first selected write that covers it; without
one, its cell after all the writes. -/
def valueBefore (selected : Marked Cell → Bool) :
    Memory Cell → List (Marked Cell) → Memory Cell
  | memory, [], address => memory address
  | memory, write :: writes, address =>
      if selected write = true ∧ write.patch.Covers address then memory address
      else valueBefore selected (store memory write.patch) writes address

/-- The last write that covers an address. -/
def lastWrite (writes : List (Marked Cell)) (address : ℕ) : Option (Marked Cell) :=
  (writes.filter fun write => write.patch.Covers address).getLast?

/-- The same start and the same length. -/
def SameRange (left right : Patch Cell) : Prop :=
  left.start = right.start ∧ left.cells.length = right.cells.length

/-- Any two writes have the same range or disjoint ones, and none is empty. -/
structure Aligned (writes : List (Marked Cell)) : Prop where
  ranges : ∀ left ∈ writes, ∀ right ∈ writes,
    SameRange left.patch right.patch ∨ left.patch.Disjoint right.patch
  nonempty : ∀ write ∈ writes, write.patch.cells ≠ []

section Ranges

variable {left right : Patch Cell} {writes : List (Marked Cell)} {address : ℕ}

theorem SameRange.covers_iff (hsame : SameRange left right) :
    left.Covers address ↔ right.Covers address := by
  rw [Patch.Covers, Patch.Covers, hsame.1, hsame.2]

theorem covers_start (hnonempty : left.cells ≠ []) : left.Covers left.start := by
  have hpos := List.length_pos_iff.mpr hnonempty
  exact ⟨Nat.le_refl _, by omega⟩

theorem Aligned.same_of_covers (haligned : Aligned writes) {first second : Marked Cell}
    (hfirst : first ∈ writes) (hsecond : second ∈ writes)
    (hleft : first.patch.Covers address) (hright : second.patch.Covers address) :
    SameRange first.patch second.patch := by
  rcases haligned.ranges first hfirst second hsecond with hsame | hdisjoint
  · exact hsame
  · exact absurd hright (hdisjoint address hleft)

theorem Aligned.same_of_start (haligned : Aligned writes) {first second : Marked Cell}
    (hfirst : first ∈ writes) (hsecond : second ∈ writes)
    (hstart : first.patch.start = second.patch.start) :
    SameRange first.patch second.patch := by
  have hleft := covers_start (haligned.nonempty first hfirst)
  have hright := covers_start (haligned.nonempty second hsecond)
  rw [hstart] at hleft
  exact haligned.same_of_covers hfirst hsecond hleft hright

end Ranges

/-! ## Values before a write -/

section Values

variable {selected : Marked Cell → Bool} {memory : Memory Cell}
variable {writes : List (Marked Cell)} {address : ℕ}

theorem valueBefore_of_none
    (hnone : ∀ write ∈ writes, selected write = true → ¬ write.patch.Covers address) :
    valueBefore selected memory writes address =
      storeAll memory (writes.map Marked.patch) address := by
  induction writes generalizing memory with
  | nil => rfl
  | cons write writes ih =>
      have hhead : ¬ (selected write = true ∧ write.patch.Covers address) := by
        rintro ⟨hselected, hcovers⟩
        exact hnone write List.mem_cons_self hselected hcovers
      rw [valueBefore, if_neg hhead, List.map_cons, storeAll_cons]
      exact ih fun other hother => hnone other (List.mem_cons_of_mem _ hother)

/-- Later writes do not matter once a selected write covers the address. -/
theorem valueBefore_append (later : List (Marked Cell))
    (hsome : ∃ write ∈ writes, selected write = true ∧ write.patch.Covers address) :
    valueBefore selected memory (writes ++ later) address =
      valueBefore selected memory writes address := by
  induction writes generalizing memory with
  | nil =>
      obtain ⟨write, hwrite, -⟩ := hsome
      contradiction
  | cons write writes ih =>
      rw [List.cons_append, valueBefore, valueBefore]
      split
      case isTrue => rfl
      case isFalse hhead =>
        apply ih
        obtain ⟨other, hother, hselected⟩ := hsome
        rcases List.mem_cons.mp hother with rfl | htail
        · exact absurd hselected hhead
        · exact ⟨other, htail, hselected⟩

/-- The last write is the first that is selected for the address. -/
theorem valueBefore_concat {last : Marked Cell}
    (hnone : ∀ write ∈ writes, selected write = true → ¬ write.patch.Covers address)
    (hselected : selected last = true) (hcovers : last.patch.Covers address) :
    valueBefore selected memory (writes ++ [last]) address =
      storeAll memory (writes.map Marked.patch) address := by
  induction writes generalizing memory with
  | nil =>
      rw [List.nil_append, valueBefore, if_pos ⟨hselected, hcovers⟩]
      rfl
  | cons write writes ih =>
      have hhead : ¬ (selected write = true ∧ write.patch.Covers address) := by
        rintro ⟨hwrite, hinside⟩
        exact hnone write List.mem_cons_self hwrite hinside
      rw [List.cons_append, valueBefore, if_neg hhead, List.map_cons, storeAll_cons]
      exact ih fun other hother => hnone other (List.mem_cons_of_mem _ hother)

theorem valueBefore_congr {other : Marked Cell → Bool}
    (hsame : ∀ write ∈ writes, write.patch.Covers address →
      selected write = other write) :
    valueBefore selected memory writes address =
      valueBefore other memory writes address := by
  induction writes generalizing memory with
  | nil => rfl
  | cons write writes ih =>
      have hrest : valueBefore selected (store memory write.patch) writes address =
          valueBefore other (store memory write.patch) writes address :=
        ih fun later hlater => hsame later (List.mem_cons_of_mem _ hlater)
      rw [valueBefore, valueBefore, hrest]
      by_cases hcovers : write.patch.Covers address
      · rw [hsame write List.mem_cons_self hcovers]
      · rw [if_neg fun hboth => hcovers hboth.2, if_neg fun hboth => hcovers hboth.2]

theorem lastWrite_eq_some {write : Marked Cell} (hlast : lastWrite writes address = some write) :
    write ∈ writes ∧ write.patch.Covers address := by
  have hmem := List.mem_of_getLast? hlast
  simpa using List.mem_filter.mp hmem

/-- After all the writes an address holds what its last write put there. -/
theorem storeAll_lastWrite {write : Marked Cell}
    (hlast : lastWrite writes address = some write) :
    storeAll memory (writes.map Marked.patch) address =
      store memory write.patch address := by
  induction writes using List.reverseRecOn with
  | nil => contradiction
  | append_singleton writes last ih =>
      rw [List.map_append, storeAll_append]
      change store _ last.patch address = _
      rw [lastWrite, List.filter_append] at hlast
      by_cases hcovers : last.patch.Covers address
      · rw [List.filter_cons_of_pos (by simpa using hcovers), List.filter_nil,
          List.getLast?_append_cons] at hlast
        cases hlast
        exact store_of_covers _ _ hcovers
      · rw [List.filter_cons_of_neg (by simpa using hcovers), List.filter_nil,
          List.append_nil] at hlast
        rw [store_of_not_covers _ hcovers]
        exact ih hlast

end Values

/-! ## The log of a run -/

section Log

variable {readable : ℕ → ℕ → Bool} {memory : Memory Cell} {writes : List (Marked Cell)}

theorem run_concat (write : Marked Cell) :
    run readable memory (writes ++ [write]) =
      step readable (run readable memory writes) write := by
  simp [run]

theorem run_fst :
    (run readable memory writes).1 = storeAll memory (writes.map Marked.patch) := by
  induction writes using List.reverseRecOn with
  | nil => rfl
  | append_singleton writes write ih =>
      rw [run_concat, step, ih, List.map_append, storeAll_append]
      rfl

theorem mem_step_log {state : Memory Cell × List (Patch Cell)} {write : Marked Cell}
    {entry : Patch Cell} :
    entry ∈ (step readable state write).2 ↔
      entry ∈ state.2 ∨ captured readable write = true ∧
        write.patch.start ∉ state.2.map Patch.start ∧
        entry = UndoLog.capture state.1 write.patch := by
  simp only [step, UndoLog.record]
  split
  case isFalse hskipped => simp [hskipped]
  case isTrue hcaptured =>
    split
    case isTrue hpresent => simp [hpresent]
    case isFalse habsent => simp [hcaptured, habsent]

/-- Every captured write has an entry at its start address. -/
theorem exists_entry {write : Marked Cell} (hwrite : write ∈ writes)
    (hcaptured : captured readable write = true) :
    write.patch.start ∈ (run readable memory writes).2.map Patch.start := by
  induction writes using List.reverseRecOn with
  | nil => contradiction
  | append_singleton writes last ih =>
      rw [run_concat, List.mem_map]
      rcases List.mem_append.mp hwrite with hbefore | hlast
      · obtain ⟨entry, hentry, hstart⟩ := List.mem_map.mp (ih hbefore)
        exact ⟨entry, mem_step_log.mpr (Or.inl hentry), hstart⟩
      · obtain rfl := List.mem_singleton.mp hlast
        by_cases hpresent :
            write.patch.start ∈ (run readable memory writes).2.map Patch.start
        · obtain ⟨entry, hentry, hstart⟩ := List.mem_map.mp hpresent
          exact ⟨entry, mem_step_log.mpr (Or.inl hentry), hstart⟩
        · exact ⟨_, mem_step_log.mpr (Or.inr ⟨hcaptured, hpresent, rfl⟩), rfl⟩

/-- Every entry was taken just before the first captured write at its start address. -/
theorem exists_write {entry : Patch Cell} (hentry : entry ∈ (run readable memory writes).2) :
    ∃ before write after, writes = before ++ write :: after ∧
      captured readable write = true ∧
      (∀ earlier ∈ before, captured readable earlier = true →
        earlier.patch.start ≠ write.patch.start) ∧
      entry = UndoLog.capture (storeAll memory (before.map Marked.patch)) write.patch := by
  induction writes using List.reverseRecOn with
  | nil => contradiction
  | append_singleton writes last ih =>
      rw [run_concat, mem_step_log] at hentry
      rcases hentry with hold | ⟨hcaptured, habsent, hentry⟩
      · obtain ⟨before, write, after, rfl, hwrite, hfirst, hentry⟩ := ih hold
        exact ⟨before, write, after ++ [last], by simp, hwrite, hfirst, hentry⟩
      · refine ⟨writes, last, [], rfl, hcaptured, ?_, run_fst ▸ hentry⟩
        intro earlier hearlier hcapturedEarlier hstart
        exact habsent (hstart ▸ exists_entry hearlier hcapturedEarlier)

/-- An entry of aligned writes holds the cells from before the first captured write. -/
theorem Aligned.entry_agrees (haligned : Aligned writes) {entry : Patch Cell}
    (hentry : entry ∈ (run readable memory writes).2) :
    entry.Agrees (valueBefore (captured readable) memory writes) := by
  obtain ⟨before, write, after, rfl, hwrite, hfirst, rfl⟩ := exists_write hentry
  apply (agrees_load_iff _ _ _ _).mpr
  intro address hstart hend
  have hcovers : write.patch.Covers address := ⟨hstart, hend⟩
  have hnone : ∀ earlier ∈ before, captured readable earlier = true →
      ¬ earlier.patch.Covers address := by
    intro earlier hearlier hcaptured hcoversEarlier
    have hsame := haligned.same_of_covers (List.mem_append_left _ hearlier)
      (List.mem_append_right _ List.mem_cons_self) hcoversEarlier hcovers
    exact hfirst earlier hearlier hcaptured hsame.1
  rw [List.append_cons, valueBefore_append after ⟨write, by simp, hwrite, hcovers⟩,
    valueBefore_concat hnone hwrite hcovers]

/-- The entries of aligned writes cover what the captured writes cover. -/
theorem Aligned.entry_covers (haligned : Aligned writes) {write : Marked Cell}
    (hwrite : write ∈ writes) (hcaptured : captured readable write = true) {address : ℕ}
    (hcovers : write.patch.Covers address) :
    ∃ entry ∈ (run readable memory writes).2, entry.Covers address := by
  have hpresent : write.patch.start ∈ (run readable memory writes).2.map Patch.start :=
    exists_entry hwrite hcaptured
  obtain ⟨entry, hentry, hstart⟩ := List.mem_map.mp hpresent
  refine ⟨entry, hentry, ?_⟩
  obtain ⟨before, first, after, hsplit, -, -, rfl⟩ := exists_write hentry
  have hfirst : first ∈ writes := by
    rw [hsplit]
    simp
  apply (UndoLog.covers_capture_iff _ _ _).mpr
  exact (haligned.same_of_start hfirst hwrite hstart).covers_iff.mpr hcovers

/-- In every order the replay of the log of aligned writes takes each address back to its
cell from before the first captured write. -/
theorem Aligned.replay_eq (haligned : Aligned writes) {order : List (Patch Cell)}
    (horder : order.Perm (run readable memory writes).2) :
    storeAll (run readable memory writes).1 order =
      valueBefore (captured readable) memory writes := by
  refine (forall_perm_storeAll_eq_iff _ _ _).mpr ⟨?_, ?_⟩ order horder
  · intro entry hentry
    exact haligned.entry_agrees hentry
  · intro address houtside
    rw [run_fst, valueBefore_of_none]
    intro write hwrite hcaptured hcovers
    have hcovered : ∃ entry ∈ (run readable memory writes).2, entry.Covers address :=
      haligned.entry_covers hwrite hcaptured hcovers
    obtain ⟨entry, hentry, hinside⟩ := hcovered
    exact houtside entry hentry hinside

end Log

end FrogAgent.MarkedLog
