import FrogAgent.Lib.ByteMemory
import Mathlib.Data.List.Nodup

/-!
# The write journal

`spine/journal.rs`: a per-runtime map from start address to the bytes found
there on the first touch of that start address.  The map is a list of patches
whose start addresses are distinct, which is the shape the revert step iterates.
-/

namespace FrogAgent.Journal

open FrogAgent.ByteMemory

/-- The entries of the journal, one per start address.  The read backend of the
source struct is passed to `touch`, because what it returns depends on the
memory at the time of the call. -/
structure WriteJournal where
  entries : List (Patch UInt8)
  nodup : (entries.map Patch.start).Nodup

def WriteJournal.new : WriteJournal := ⟨[], List.nodup_nil⟩

def WriteJournal.containsKey (journal : WriteJournal) (addr : ℕ) : Bool :=
  decide (addr ∈ journal.entries.map Patch.start)

/-- `HashMap::insert` of a key that is not present. -/
def WriteJournal.insert (journal : WriteJournal) (addr : ℕ) (bytes : List UInt8)
    (habsent : journal.containsKey addr = false) : WriteJournal where
  entries := journal.entries ++ [⟨addr, bytes⟩]
  nodup := by
    rw [List.map_append, List.map_singleton, List.nodup_append]
    refine ⟨journal.nodup, List.nodup_singleton addr, ?_⟩
    intro key hkey other hother
    rw [List.mem_singleton] at hother
    subst other
    rintro rfl
    simp only [WriteJournal.containsKey, decide_eq_false_iff_not] at habsent
    exact habsent hkey

/-- Record a first touch; later touches of the same start address, and touches
of unreadable memory, leave the journal alone. -/
def WriteJournal.touch (readBackend : ℕ → ℕ → Option (List UInt8))
    (journal : WriteJournal) (addr width : ℕ) : WriteJournal × Bool :=
  if habsent : journal.containsKey addr = false then
    match readBackend addr width with
    | some bytes => (journal.insert addr bytes habsent, true)
    | none => (journal, false)
  else (journal, false)

/-- Extract the entries for the revert step, leaving the journal empty. -/
def WriteJournal.takeEntries (journal : WriteJournal) :
    List (Patch UInt8) × WriteJournal :=
  (journal.entries, WriteJournal.new)

theorem WriteJournal.entries_touch
    (readBackend : ℕ → ℕ → Option (List UInt8)) (journal : WriteJournal)
    (addr width : ℕ) {bytes : List UInt8}
    (hread : readBackend addr width = some bytes) :
    (journal.touch readBackend addr width).1.entries =
      if addr ∈ journal.entries.map Patch.start then journal.entries
      else journal.entries ++ [⟨addr, bytes⟩] := by
  by_cases hpresent : addr ∈ journal.entries.map Patch.start
  · simp [WriteJournal.touch, WriteJournal.containsKey, hpresent]
  · simp [WriteJournal.touch, WriteJournal.containsKey, hpresent, hread,
      WriteJournal.insert]

theorem WriteJournal.entries_subset_touch
    (readBackend : ℕ → ℕ → Option (List UInt8)) (journal : WriteJournal)
    (addr width : ℕ) :
    journal.entries ⊆ (journal.touch readBackend addr width).1.entries := by
  unfold WriteJournal.touch
  split
  · split
    · exact List.subset_append_left _ _
    · exact List.Subset.refl _
  · exact List.Subset.refl _

end FrogAgent.Journal
