import FrogAgent.Lib.ByteMemory

/-!
# First-touch undo logs

A first-touch undo log keeps, for each start address that is written, the cells
found there just before the first write with that start address.  Replaying the
log in an unknown order undoes the writes exactly when no captured cell had
already been changed by an earlier overlapping write, and no write with a known
start address reached further than the first one did.
-/

namespace FrogAgent.UndoLog

open FrogAgent.ByteMemory

variable {Cell : Type*}

/-- What the log keeps for a write that is about to happen. -/
def capture (memory : Memory Cell) (write : Patch Cell) : Patch Cell :=
  ⟨write.start, load memory write.start write.cells.length⟩

def record (memory : Memory Cell) (log : List (Patch Cell))
    (write : Patch Cell) : List (Patch Cell) :=
  if write.start ∈ log.map Patch.start then log
  else log ++ [capture memory write]

/-- One logged write: the log is updated first, the memory second. -/
def step (state : Memory Cell × List (Patch Cell)) (write : Patch Cell) :
    Memory Cell × List (Patch Cell) :=
  (store state.1 write, record state.1 state.2 write)

def run (memory : Memory Cell) (writes : List (Patch Cell)) :
    Memory Cell × List (Patch Cell) :=
  writes.foldl step (memory, [])

/-- `write` is the first of the writes with its start address. -/
def IsFirst (before : List (Patch Cell)) (write : Patch Cell) : Prop :=
  ∀ earlier ∈ before, earlier.start ≠ write.start

theorem run_concat (memory : Memory Cell) (writes : List (Patch Cell))
    (write : Patch Cell) :
    run memory (writes ++ [write]) = step (run memory writes) write := by
  simp [run]

@[simp]
theorem run_fst (memory : Memory Cell) (writes : List (Patch Cell)) :
    (run memory writes).1 = storeAll memory writes := by
  induction writes using List.reverseRecOn with
  | nil => rfl
  | append_singleton writes write ih =>
      rw [run_concat, step, ih, storeAll_append]
      rfl

theorem mem_starts_run_iff (memory : Memory Cell) (writes : List (Patch Cell))
    (start : ℕ) :
    start ∈ (run memory writes).2.map Patch.start ↔
      ∃ write ∈ writes, write.start = start := by
  induction writes using List.reverseRecOn with
  | nil => simp [run]
  | append_singleton writes write ih =>
      rw [run_concat]
      simp only [step, record]
      split
      · rename_i hpresent
        rw [ih]
        simp only [List.mem_append, List.mem_singleton]
        constructor
        · rintro ⟨other, hother, hstart⟩
          exact ⟨other, Or.inl hother, hstart⟩
        · rintro ⟨other, hother | rfl, hstart⟩
          · exact ⟨other, hother, hstart⟩
          · exact ih.mp (hstart ▸ hpresent)
      · simp only [List.map_append, List.mem_append, ih, List.map_singleton,
          List.mem_singleton, capture]
        constructor
        · rintro (⟨other, hother, hstart⟩ | rfl)
          · exact ⟨other, Or.inl hother, hstart⟩
          · exact ⟨write, Or.inr rfl, rfl⟩
        · rintro ⟨other, hother | rfl, hstart⟩
          · exact Or.inl ⟨other, hother, hstart⟩
          · exact Or.inr hstart.symm

theorem isFirst_iff (memory : Memory Cell) (before : List (Patch Cell))
    (write : Patch Cell) :
    IsFirst before write ↔
      write.start ∉ (run memory before).2.map Patch.start := by
  rw [mem_starts_run_iff]
  simp [IsFirst]

/-- The log holds exactly the captures of the first writes. -/
theorem mem_log_iff (memory : Memory Cell) (writes : List (Patch Cell))
    (entry : Patch Cell) :
    entry ∈ (run memory writes).2 ↔
      ∃ before write after, writes = before ++ write :: after ∧
        IsFirst before write ∧
        entry = capture (storeAll memory before) write := by
  induction writes using List.reverseRecOn with
  | nil => simp [run]
  | append_singleton writes last ih =>
      have hlog : entry ∈ (run memory (writes ++ [last])).2 ↔
          entry ∈ (run memory writes).2 ∨
            (IsFirst writes last ∧
              entry = capture (storeAll memory writes) last) := by
        rw [run_concat, isFirst_iff memory]
        simp only [step, record, run_fst]
        split <;> simp_all
      rw [hlog, ih]
      constructor
      · rintro (⟨before, write, after, rfl, hfirst, hentry⟩ | ⟨hfirst, hentry⟩)
        · exact ⟨before, write, after ++ [last], by simp, hfirst, hentry⟩
        · exact ⟨writes, last, [], rfl, hfirst, hentry⟩
      · rintro ⟨before, write, after, hsplit, hfirst, hentry⟩
        rcases List.eq_nil_or_concat after with rfl | ⟨rest, final, rfl⟩
        · obtain ⟨rfl, hlast⟩ := List.append_inj' hsplit rfl
          cases hlast
          exact Or.inr ⟨hfirst, hentry⟩
        · rw [List.concat_eq_append, ← List.cons_append,
            ← List.append_assoc] at hsplit
          obtain ⟨rfl, -⟩ := List.append_inj' hsplit rfl
          exact Or.inl ⟨before, write, rest, rfl, hfirst, hentry⟩

/-- The condition on a write sequence under which its first-touch log undoes
it.  `capture`: whenever a write is the first at its start address, no earlier
write has left a different cell in its range.  `reach`: every address that ends
up changed lies in the range of some first write. -/
structure Undoable (memory : Memory Cell) (writes : List (Patch Cell)) :
    Prop where
  capture : ∀ before write after, writes = before ++ write :: after →
    IsFirst before write → ∀ address, write.Covers address →
      ∀ cell ∈ lastCell before address, cell = memory address
  reach : ∀ address, ∀ cell ∈ lastCell writes address,
    cell ≠ memory address →
      ∃ before write after, writes = before ++ write :: after ∧
        IsFirst before write ∧ write.Covers address

theorem covers_capture_iff (memory : Memory Cell) (write : Patch Cell)
    (address : ℕ) :
    (capture memory write).Covers address ↔ write.Covers address := by
  simp [capture, Patch.Covers]

theorem agrees_capture_iff (memory : Memory Cell) (before : List (Patch Cell))
    (write : Patch Cell) :
    (capture (storeAll memory before) write).Agrees memory ↔
      ∀ address, write.Covers address →
        ∀ cell ∈ lastCell before address, cell = memory address := by
  rw [capture, agrees_load_iff]
  constructor
  · intro hequal address hcovers
    exact (storeAll_eq_iff_lastCell memory before address).mp
      (hequal address hcovers.1 hcovers.2)
  · intro hlast address hstart hend
    exact (storeAll_eq_iff_lastCell memory before address).mpr
      (hlast address ⟨hstart, hend⟩)

/-- Replaying the first-touch log restores the memory in every order exactly
when the write sequence is undoable. -/
theorem forall_perm_replay_iff (memory : Memory Cell)
    (writes : List (Patch Cell)) :
    (∀ order, order.Perm (run memory writes).2 →
        storeAll (run memory writes).1 order = memory) ↔
      Undoable memory writes := by
  rw [forall_perm_storeAll_eq_iff, run_fst]
  constructor
  · rintro ⟨hagrees, houtside⟩
    constructor
    · intro before write after hsplit hfirst
      apply (agrees_capture_iff memory before write).mp
      apply hagrees
      exact (mem_log_iff memory writes _).mpr
        ⟨before, write, after, hsplit, hfirst, rfl⟩
    · intro address cell hcell hne
      by_contra hnone
      apply hne
      refine (storeAll_eq_iff_lastCell memory writes address).mp ?_ cell hcell
      apply houtside
      intro entry hentry hcovers
      obtain ⟨before, write, after, hsplit, hfirst, rfl⟩ :=
        (mem_log_iff memory writes entry).mp hentry
      exact hnone ⟨before, write, after, hsplit, hfirst,
        (covers_capture_iff _ write address).mp hcovers⟩
  · intro hundoable
    constructor
    · intro entry hentry
      obtain ⟨before, write, after, hsplit, hfirst, rfl⟩ :=
        (mem_log_iff memory writes entry).mp hentry
      exact (agrees_capture_iff memory before write).mpr
        (hundoable.capture before write after hsplit hfirst)
    · intro address houtside
      apply (storeAll_eq_iff_lastCell memory writes address).mpr
      intro cell hcell
      by_contra hne
      obtain ⟨before, write, after, hsplit, hfirst, hcovers⟩ :=
        hundoable.reach address cell hcell hne
      apply houtside _ ((mem_log_iff memory writes _).mpr
        ⟨before, write, after, hsplit, hfirst, rfl⟩)
      exact (covers_capture_iff _ write address).mpr hcovers

/-- Writes that reuse a start address only with at most the first width, and
overlap no write with another start address. -/
def Separate (writes : List (Patch Cell)) : Prop :=
  writes.Pairwise fun earlier later =>
    (earlier.start = later.start →
      later.cells.length ≤ earlier.cells.length) ∧
    (earlier.start ≠ later.start →
      ∀ address, later.Covers address → ¬ earlier.Covers address)

theorem exists_isFirst {writes : List (Patch Cell)} {write : Patch Cell}
    (hwrite : write ∈ writes) :
    ∃ before first after, writes = before ++ first :: after ∧
      IsFirst before first ∧ first.start = write.start := by
  induction writes with
  | nil => simp at hwrite
  | cons head tail ih =>
      by_cases hstart : head.start = write.start
      · exact ⟨[], head, tail, rfl, by simp [IsFirst], hstart⟩
      · have htail : write ∈ tail := by
          rcases List.mem_cons.mp hwrite with rfl | hmem
          · exact absurd rfl hstart
          · exact hmem
        obtain ⟨before, first, after, rfl, hfirst, hsame⟩ := ih htail
        refine ⟨head :: before, first, after, rfl, ?_, hsame⟩
        intro earlier hearlier
        rcases List.mem_cons.mp hearlier with rfl | hmem
        · rw [hsame]
          exact hstart
        · exact hfirst earlier hmem

/-- Separate writes are undoable whatever they write and wherever. -/
theorem Separate.undoable {writes : List (Patch Cell)}
    (hseparate : Separate writes) (memory : Memory Cell) :
    Undoable memory writes := by
  constructor
  · intro before write after hsplit hfirst address hcovers cell hcell
    obtain ⟨earlier, hearlier, hearlierCovers⟩ := exists_covers_of_lastCell hcell
    subst hsplit
    have hpair := (List.pairwise_append.mp hseparate).2.2 earlier hearlier
      write List.mem_cons_self
    exact absurd hearlierCovers
      (hpair.2 (hfirst earlier hearlier) address hcovers)
  · intro address cell hcell _
    obtain ⟨write, hwrite, hcovers⟩ := exists_covers_of_lastCell hcell
    obtain ⟨before, first, after, rfl, hfirst, hsame⟩ := exists_isFirst hwrite
    refine ⟨before, first, after, rfl, hfirst, ?_⟩
    rcases List.mem_append.mp hwrite with hbefore | hafter
    · exact absurd hsame.symm (hfirst write hbefore)
    rcases List.mem_cons.mp hafter with rfl | hlater
    · exact hcovers
    · have hpair := (List.pairwise_cons.mp
        (List.pairwise_append.mp hseparate).2.1).1 write hlater
      have hwidth := hpair.1 hsame
      exact ⟨hsame ▸ hcovers.1, by have := hcovers.2; omega⟩

end FrogAgent.UndoLog
