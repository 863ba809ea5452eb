import FrogAgent.Lib.LongestSuffix
import FrogAgent.Lib.Run
import Mathlib.Algebra.Order.BigOperators.Group.List
import Mathlib.Algebra.Order.Group.Nat
import Mathlib.Algebra.Order.Ring.Nat

/-!
# The frame ring

`FrameRing` of `protocol.rs`: a queue of captured frames bounded by a frame count
and a byte count, with a cached byte total.  Machine arithmetic that would wrap
and an eviction loop that would not end are faults of the model; no sequence of
pushes and drains meets one, and after each operation the ring holds the longest
admissible suffix of the frames pushed since the last drain.
-/

namespace FrogAgent.Protocol

open FrogAgent.LongestSuffix
open FrogAgent.Run

inductive Direction where
  | c2s
  | s2c
  deriving DecidableEq, Repr

/-- One captured packet: raw bytes only. -/
structure RawFrame where
  timestampMs : UInt64
  direction : Direction
  socketId : UInt64
  bytes : List UInt8
  deriving DecidableEq, Repr

structure FrameRing where
  frames : List RawFrame
  totalBytes : ℕ
  maxFrames : ℕ
  maxBytes : ℕ
  deriving DecidableEq, Repr

inductive Fault where
  | overflow
  | underflow
  | diverges
  deriving DecidableEq, Repr

def FrameRing.new (maxFrames maxBytes : ℕ) : FrameRing :=
  ⟨[], 0, maxFrames, maxBytes⟩

/-- The condition of the eviction loop. -/
def FrameRing.overCap (ring : FrameRing) : Bool :=
  ring.maxFrames < ring.frames.length ||
    (ring.maxBytes < ring.totalBytes && 1 < ring.frames.length)

/-- The eviction loop, with a bound on its rounds. -/
def FrameRing.evict : ℕ → FrameRing → Except Fault FrameRing
  | 0, ring => if ring.overCap then .error .diverges else .ok ring
  | rounds + 1, ring =>
      if ring.overCap then
        match ring.frames with
        | [] => FrameRing.evict rounds ring
        | dropped :: frames =>
            if ring.totalBytes < dropped.bytes.length then .error .underflow
            else FrameRing.evict rounds
              { ring with
                frames := frames
                totalBytes := ring.totalBytes - dropped.bytes.length }
      else .ok ring

/-- A round that drops a frame brings the loop closer to its end, so it gets as
many rounds as there are frames. -/
def FrameRing.push (ring : FrameRing) (frame : RawFrame) : Except Fault FrameRing :=
  let totalBytes := ring.totalBytes + frame.bytes.length
  if 2 ^ 64 ≤ totalBytes then .error .overflow
  else
    let frames := ring.frames ++ [frame]
    FrameRing.evict frames.length
      { ring with frames := frames, totalBytes := totalBytes }

def FrameRing.drain (ring : FrameRing) : List RawFrame × FrameRing :=
  (ring.frames, { ring with frames := [], totalBytes := 0 })

inductive RingOp where
  | push (frame : RawFrame)
  | drain

/-- One operation; `none` stands for a fault. -/
def ringStep (ring : FrameRing) : RingOp → Option FrameRing
  | .push frame => (ring.push frame).toOption
  | .drain => some ring.drain.2

def byteSize (frames : List RawFrame) : ℕ :=
  (frames.map fun frame => frame.bytes.length).sum

/-- The ring with more frames and nothing evicted. -/
def FrameRing.grown (ring : FrameRing) (frames : List RawFrame) : FrameRing :=
  { ring with
    frames := ring.frames ++ frames
    totalBytes := ring.totalBytes + byteSize frames }

/-- With these frames as well the ring is over neither cap, and its total is a `usize`. -/
def FrameRing.HasRoom (ring : FrameRing) (frames : List RawFrame) : Prop :=
  (ring.grown frames).overCap = false ∧ (ring.grown frames).totalBytes < 2 ^ 64

/-- What the two caps allow: a single frame may be of any size. -/
def Admissible (maxFrames maxBytes : ℕ) (frames : List RawFrame) : Prop :=
  frames.length ≤ maxFrames ∧ (byteSize frames ≤ maxBytes ∨ frames.length ≤ 1)

/-- The frames pushed since the last drain, oldest first. -/
def sinceDrain (ops : List RingOp) : List RawFrame :=
  ops.foldl
    (fun frames op =>
      match op with
      | .push frame => frames ++ [frame]
      | .drain => [])
    []

def RingOp.size : RingOp → ℕ
  | .push frame => frame.bytes.length
  | .drain => 0

/-- The bytes pushed by all operations together. -/
def pushedBytes (ops : List RingOp) : ℕ := (ops.map RingOp.size).sum

/-- The ring holds the longest admissible suffix of `pushed`, with its exact
size in the cached total. -/
structure Keeps (maxFrames maxBytes : ℕ) (pushed : List RawFrame)
    (ring : FrameRing) : Prop where
  maxFrames_eq : ring.maxFrames = maxFrames
  maxBytes_eq : ring.maxBytes = maxBytes
  totalBytes_eq : ring.totalBytes = byteSize ring.frames
  longest : IsLongest (Admissible maxFrames maxBytes) pushed ring.frames

@[simp]
theorem sinceDrain_push (ops : List RingOp) (frame : RawFrame) :
    sinceDrain (ops ++ [.push frame]) = sinceDrain ops ++ [frame] := by
  simp [sinceDrain]

@[simp]
theorem sinceDrain_drain (ops : List RingOp) :
    sinceDrain (ops ++ [.drain]) = [] := by
  simp [sinceDrain]

@[simp]
theorem byteSize_cons (frame : RawFrame) (frames : List RawFrame) :
    byteSize (frame :: frames) = frame.bytes.length + byteSize frames := by
  simp [byteSize]

@[simp]
theorem byteSize_concat (frames : List RawFrame) (frame : RawFrame) :
    byteSize (frames ++ [frame]) = byteSize frames + frame.bytes.length := by
  simp [byteSize]

@[simp]
theorem pushedBytes_concat (ops : List RingOp) (op : RingOp) :
    pushedBytes (ops ++ [op]) = pushedBytes ops + op.size := by
  simp [pushedBytes]

theorem byteSize_mono {part frames : List RawFrame} (hpart : part.Sublist frames) :
    byteSize part ≤ byteSize frames :=
  (hpart.map _).sum_le_sum fun _ _ => Nat.zero_le _

theorem byteSize_sinceDrain_le (ops : List RingOp) :
    byteSize (sinceDrain ops) ≤ pushedBytes ops := by
  induction ops using List.reverseRecOn with
  | nil => exact Nat.le_refl _
  | append_singleton ops op ih =>
      cases op with
      | push frame =>
          rw [sinceDrain_push, byteSize_concat, pushedBytes_concat]
          exact Nat.add_le_add_right ih _
      | drain =>
          rw [sinceDrain_drain]
          exact Nat.zero_le _

theorem Admissible.sublist {maxFrames maxBytes : ℕ} (part frames : List RawFrame)
    (hpart : part.Sublist frames) (hframes : Admissible maxFrames maxBytes frames) :
    Admissible maxFrames maxBytes part := by
  have hlength := hpart.length_le
  have hsize := byteSize_mono hpart
  apply And.intro (Nat.le_trans hlength hframes.1)
  cases hframes.2 with
  | inl hbytes => exact .inl (Nat.le_trans hsize hbytes)
  | inr hsingle => exact .inr (Nat.le_trans hlength hsingle)

theorem overCap_eq_false (ring : FrameRing) :
    ring.overCap = false ↔
      ring.frames.length ≤ ring.maxFrames ∧
        (ring.totalBytes ≤ ring.maxBytes ∨ ring.frames.length ≤ 1) := by
  simp only [FrameRing.overCap, Bool.or_eq_false_iff, Bool.and_eq_false_iff,
    decide_eq_false_iff_not, Nat.not_lt]

theorem overCap_eq_false_iff {ring : FrameRing}
    (htotal : ring.totalBytes = byteSize ring.frames) :
    ring.overCap = false ↔ Admissible ring.maxFrames ring.maxBytes ring.frames := by
  rw [overCap_eq_false, htotal, Admissible]

theorem admissible_nil (maxFrames maxBytes : ℕ) : Admissible maxFrames maxBytes [] :=
  ⟨Nat.zero_le _, .inr (Nat.zero_le _)⟩

theorem evict_admissible {rounds : ℕ} {ring : FrameRing}
    (htotal : ring.totalBytes = byteSize ring.frames)
    (hadmissible : Admissible ring.maxFrames ring.maxBytes ring.frames) :
    ring.evict rounds = .ok { ring with
      frames := ring.frames
      totalBytes := byteSize ring.frames } := by
  have hover := (overCap_eq_false_iff htotal).mpr hadmissible
  rw [← htotal]
  cases rounds <;> simp [FrameRing.evict, hover]

/-- The eviction loop ends within its rounds, without underflow, at the longest
admissible suffix. -/
theorem evict_spec {rounds : ℕ} {ring : FrameRing}
    (htotal : ring.totalBytes = byteSize ring.frames)
    (hrounds : ring.frames.length ≤ rounds) :
    ∃ kept, ring.evict rounds =
        .ok { ring with frames := kept, totalBytes := byteSize kept } ∧
      IsLongest (Admissible ring.maxFrames ring.maxBytes) ring.frames kept := by
  induction rounds generalizing ring with
  | zero =>
      have hnil := List.length_eq_zero_iff.mp (Nat.le_zero.mp hrounds)
      have hadmissible : Admissible ring.maxFrames ring.maxBytes ring.frames := by
        rw [hnil]
        exact admissible_nil _ _
      exact ⟨ring.frames, evict_admissible htotal hadmissible,
        isLongest_self hadmissible⟩
  | succ rounds ih =>
      by_cases hadmissible : Admissible ring.maxFrames ring.maxBytes ring.frames
      · exact ⟨ring.frames, evict_admissible htotal hadmissible,
          isLongest_self hadmissible⟩
      · cases hframes : ring.frames with
        | nil =>
            rw [hframes] at hadmissible
            exact absurd (admissible_nil _ _) hadmissible
        | cons dropped frames =>
            rw [hframes, byteSize_cons] at htotal
            rw [hframes, List.length_cons] at hrounds
            let shorter : FrameRing :=
              { ring with
                frames := frames
                totalBytes := ring.totalBytes - dropped.bytes.length }
            have hshorter : shorter.totalBytes = byteSize shorter.frames := by
              simp only [shorter, htotal, Nat.add_sub_cancel_left]
            obtain ⟨kept, hevict, hkept⟩ := ih hshorter (Nat.le_of_succ_le_succ hrounds)
            rw [hframes] at hadmissible
            refine ⟨kept, ?_, hkept.cons hadmissible⟩
            have hover : ring.overCap = true := by
              rw [← Bool.not_eq_false, overCap_eq_false_iff, hframes]
              · exact hadmissible
              · rw [hframes, byteSize_cons, htotal]
            have hdrop : ¬ ring.totalBytes < dropped.bytes.length := by omega
            rw [FrameRing.evict, if_pos hover, hframes]
            exact (if_neg hdrop).trans hevict

/-! ## Pushing into a ring with room -/

@[simp]
theorem grown_nil (ring : FrameRing) : ring.grown [] = ring := by
  simp [FrameRing.grown, byteSize]

theorem grown_cons (ring : FrameRing) (frame : RawFrame) (frames : List RawFrame) :
    ring.grown (frame :: frames) = (ring.grown [frame]).grown frames := by
  simp [FrameRing.grown, byteSize, Nat.add_assoc]

/-- A ring that is under its caps was so with fewer frames. -/
theorem hasRoom_nil_of_hasRoom {ring : FrameRing} {frames : List RawFrame}
    (hroom : ring.HasRoom frames) : ring.HasRoom [] := by
  obtain ⟨hcaps, htotal⟩ := hroom
  rw [overCap_eq_false] at hcaps
  rw [FrameRing.HasRoom, grown_nil, overCap_eq_false]
  simp only [FrameRing.grown, List.length_append] at hcaps htotal
  omega

theorem HasRoom.tail {ring : FrameRing} {frame : RawFrame} {frames : List RawFrame}
    (hroom : ring.HasRoom (frame :: frames)) : (ring.grown [frame]).HasRoom frames := by
  rw [FrameRing.HasRoom, ← grown_cons]
  exact hroom

/-- A frame there is room for is appended. -/
theorem HasRoom.push {ring : FrameRing} {frame : RawFrame} {frames : List RawFrame}
    (hroom : ring.HasRoom (frame :: frames)) :
    ring.push frame = .ok (ring.grown [frame]) := by
  have hnow := hasRoom_nil_of_hasRoom (HasRoom.tail hroom)
  rw [FrameRing.HasRoom, grown_nil] at hnow
  have hsize : ring.totalBytes + frame.bytes.length < 2 ^ 64 := by
    simpa [FrameRing.grown, byteSize] using hnow.2
  have hgrown : ring.grown [frame] =
      { ring with
        frames := ring.frames ++ [frame]
        totalBytes := ring.totalBytes + frame.bytes.length } := by
    simp [FrameRing.grown, byteSize]
  rw [FrameRing.push, if_neg (Nat.not_le.mpr hsize)]
  simp only [← hgrown]
  cases (ring.frames ++ [frame]).length <;> simp [FrameRing.evict, hnow.1]

theorem Keeps.push {maxFrames maxBytes : ℕ} {pushed : List RawFrame}
    {ring : FrameRing} (hkeeps : Keeps maxFrames maxBytes pushed ring)
    (frame : RawFrame) (hsize : byteSize pushed + frame.bytes.length < 2 ^ 64) :
    ∃ next, ring.push frame = .ok next ∧
      Keeps maxFrames maxBytes (pushed ++ [frame]) next := by
  have hkept := byteSize_mono hkeeps.longest.suffix.sublist
  have htotal := hkeeps.totalBytes_eq
  have hfits : ¬ 2 ^ 64 ≤ ring.totalBytes + frame.bytes.length := by omega
  let grown : FrameRing :=
    { ring with
      frames := ring.frames ++ [frame]
      totalBytes := ring.totalBytes + frame.bytes.length }
  have hgrown : grown.totalBytes = byteSize grown.frames := by
    simp only [grown, byteSize_concat, htotal]
  obtain ⟨kept, hevict, hlongest⟩ := evict_spec hgrown (Nat.le_refl _)
  rw [hkeeps.maxFrames_eq, hkeeps.maxBytes_eq] at hlongest
  have hpush : ring.push frame = grown.evict grown.frames.length := by
    rw [FrameRing.push, if_neg hfits]
  exact ⟨_, hpush.trans hevict, hkeeps.maxFrames_eq, hkeeps.maxBytes_eq, rfl,
    hkeeps.longest.concat Admissible.sublist hlongest⟩

theorem keeps_run (maxFrames maxBytes : ℕ) (ops : List RingOp)
    (hsize : pushedBytes ops < 2 ^ 64) :
    ∃ ring, run ringStep (FrameRing.new maxFrames maxBytes) ops = some ring ∧
      Keeps maxFrames maxBytes (sinceDrain ops) ring := by
  induction ops using List.reverseRecOn with
  | nil =>
      exact ⟨_, rfl, rfl, rfl, rfl, isLongest_self (admissible_nil _ _)⟩
  | append_singleton ops op ih =>
      rw [pushedBytes_concat] at hsize
      obtain ⟨ring, hrun, hkeeps⟩ := ih (by omega)
      rw [run_append, hrun, Option.bind_some, run_cons]
      cases op with
      | push frame =>
          have hpushed := byteSize_sinceDrain_le ops
          rw [RingOp.size] at hsize
          obtain ⟨next, hnext, hkeeps⟩ := hkeeps.push frame (by omega)
          rw [sinceDrain_push]
          refine ⟨next, ?_, hkeeps⟩
          rw [ringStep, hnext]
          rfl
      | drain =>
          rw [sinceDrain_drain]
          exact ⟨ring.drain.2, rfl, hkeeps.maxFrames_eq, hkeeps.maxBytes_eq, rfl,
            isLongest_self (admissible_nil _ _)⟩

/-- After every sequence of pushes and drains the ring holds exactly the longest
admissible suffix of the frames pushed since the last drain and their exact
size; no operation meets a fault, and a drain hands that suffix over in push
order and leaves an empty ring. -/
theorem ring_keeps_longest_suffix (maxFrames maxBytes : ℕ) (ops : List RingOp)
    (hsize : pushedBytes ops < 2 ^ 64) :
    ∃ ring, run ringStep (FrameRing.new maxFrames maxBytes) ops = some ring ∧
      IsLongest (Admissible maxFrames maxBytes) (sinceDrain ops) ring.frames ∧
      ring.totalBytes = byteSize ring.frames ∧
      ring.drain = (ring.frames, FrameRing.new maxFrames maxBytes) := by
  obtain ⟨ring, hrun, hkeeps⟩ := keeps_run maxFrames maxBytes ops hsize
  refine ⟨ring, hrun, hkeeps.longest, hkeeps.totalBytes_eq, ?_⟩
  rw [FrameRing.drain, FrameRing.new, hkeeps.maxFrames_eq, hkeeps.maxBytes_eq]

/-- An oversized frame pushed behind a small one stays, and the small one goes. -/
theorem ring_keeps_oversized_frame :
    ∃ ring, run ringStep (FrameRing.new 2 1)
        [.push ⟨0, .c2s, 1, [7]⟩, .push ⟨1, .s2c, 1, [8, 9]⟩] = some ring ∧
      IsLongest (Admissible 2 1)
        (sinceDrain [.push ⟨0, .c2s, 1, [7]⟩, .push ⟨1, .s2c, 1, [8, 9]⟩])
        ring.frames ∧
      ring.totalBytes = byteSize ring.frames ∧
      ring.drain = (ring.frames, FrameRing.new 2 1) :=
  ring_keeps_longest_suffix 2 1
    [.push ⟨0, .c2s, 1, [7]⟩, .push ⟨1, .s2c, 1, [8, 9]⟩] (by decide)

end FrogAgent.Protocol
