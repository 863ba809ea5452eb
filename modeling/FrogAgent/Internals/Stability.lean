import FrogAgent.Internals.Calibration
import FrogAgent.Lib.Plateau
import Mathlib.Data.Nat.Find

/-!
# Waiting for the class table

`await_class_table_stable` of `calibration/stability.rs`: the table is polled until the
anchors of the calibration are in it, and from then on until the number of its populated
slots has stayed the same for a number of polls.  The process goes on between and during the
polls, so each look at it is an image of its own.
-/

namespace FrogAgent.Stability

open FrogAgent.Calibration
open FrogAgent.LittleEndian
open FrogAgent.ByteMemory
open FrogAgent.Plateau
open FrogAgent.Signature

/-! ## The looks at the process -/

/-- The classes and methods that the probes need. -/
def anchorsReady (image : Image) : Bool :=
  let int32 := localFindClass image "System::Int32"
  let string := localFindClass image "System::String"
  let object := localFindClass image "System::Object"
  if int32 = 0 ∨ string = 0 ∨ object = 0 then false
  else
    let math := localFindClass image "System::Math"
    if math = 0 then false
    else if localFindMethod image fallbackConstants math "Pow" 2 = 0 then false
    else if localFindMethod image fallbackConstants string "PadLeft" 2 = 0 then false
    else true

/-- The slots of the table that are not null, read without validation. -/
def countPopulated (image : Image) : ℕ :=
  ((List.range image.tableCount).filter fun slot =>
    leValue (load image.memory
      (wrap (image.tableBase + slot * fallbackConstants.classTableStep)) 8) ≠ 0).length

def pollIntervalMs : ℕ := 200

/-- What a round of the loop finds: the time when it begins, the process when the anchors
are looked for, when the slots are counted for the first time and when they are counted to
be compared, and the time when it returns. -/
structure Poll where
  elapsedMs : ℕ
  atAnchors : Image
  atResolve : Image
  atCount : Image
  returnedMs : ℕ

/-- The rounds to come; between two of them the thread sleeps. -/
structure Polls where
  poll : ℕ → Poll
  paced : ∀ n, (poll n).elapsedMs + pollIntervalMs ≤ (poll (n + 1)).elapsedMs

structure Wait where
  anchorsMet : Bool
  prevCount : ℕ
  stableRun : ℕ

def Wait.initial : Wait := ⟨false, 0, 0⟩

/-- The anchors are looked for until they were found once; `none` sleeps and tries again. -/
def Wait.resolve (wait : Wait) (poll : Poll) : Option Wait :=
  if wait.anchorsMet then some wait
  else if anchorsReady poll.atAnchors then some ⟨true, countPopulated poll.atResolve, 0⟩
  else none

/-- The count is compared with the one before. -/
def Wait.compare (wait : Wait) (count : ℕ) : Wait :=
  if count = wait.prevCount then { wait with stableRun := wait.stableRun + 1 }
  else { wait with stableRun := 0, prevCount := count }

section Quiet

variable (polls : Polls)

/-- The first round that finds the anchors. -/
def FirstReady (n : ℕ) : Prop :=
  anchorsReady (polls.poll n).atAnchors = true ∧
    ∀ earlier < n, anchorsReady (polls.poll earlier).atAnchors = false

/-- The counts from round `ready` on: the one on finding the anchors, then one each round. -/
def readings (ready : ℕ) : ℕ → ℕ
  | 0 => countPopulated (polls.poll ready).atResolve
  | n + 1 => countPopulated (polls.poll (ready + n)).atCount

/-- In round `n` the anchors have been found, and the last `minStablePolls + 1` counts since
then are the same. -/
def Quiet (minStablePolls n : ℕ) : Prop :=
  ∃ ready ≤ n, FirstReady polls ready ∧
    IsPlateau (readings polls ready) minStablePolls (n + 1 - ready)

end Quiet

variable {polls : Polls}

/-- The variables of the loop before round `n`, which has not returned yet: nothing was found,
or the counts since the anchors were found are tracked. -/
inductive Follows (polls : Polls) (minStablePolls n : ℕ) : Wait → Prop where
  | searching (hnone : ∀ earlier < n, anchorsReady (polls.poll earlier).atAnchors = false) :
      Follows polls minStablePolls n .initial
  | counting (ready : ℕ) (hready : ready < n) (hfirst : FirstReady polls ready)
      (hbusy : ∀ earlier < n, ¬ Quiet polls minStablePolls earlier) :
      Follows polls minStablePolls n
        ⟨true, (track (readings polls ready) (n - ready)).last,
          (track (readings polls ready) (n - ready)).repeats⟩

variable {minStablePolls : ℕ}

theorem Follows.busy {n : ℕ} {wait : Wait} (hfollows : Follows polls minStablePolls n wait) :
    ∀ earlier < n, ¬ Quiet polls minStablePolls earlier := by
  cases hfollows with
  | searching hnone =>
      rintro earlier hearlier ⟨ready, hle, hfirst, -⟩
      have hfalse := hnone ready (by omega)
      rw [hfirst.1] at hfalse
      contradiction
  | counting ready hready hfirst hbusy => exact hbusy

end FrogAgent.Stability
