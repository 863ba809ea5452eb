import FrogAgent.Lib.PrefixPieces
import FrogAgent.Protocol.CaptureDetours

/-!
# Scattered buffers

`capture_wsabufs` of `protocol/capture.rs` with the memory it reads and the subtraction from
its counter in view.  A transfer of `max_bytes` bytes over an array of buffers has used a
prefix of their concatenation; the frames that are captured are that prefix in pieces.
-/

namespace FrogAgent.Protocol

open FrogAgent.ByteMemory
open FrogAgent.PrefixPieces

/-! ## The loop, with its reads -/

/-- The two fields of a `WSABUF`. -/
structure Wsabuf where
  len : ℕ
  buf : ℕ
  deriving DecidableEq

/-- Element `i` of the array, sixteen bytes with the length at 0 and the pointer at 8. -/
def CaptureState.wsabuf (shared : CaptureState) (lpBuffers i : ℕ) : Wsabuf :=
  ⟨shared.read 4 (lpBuffers + i * 16), shared.read 8 (lpBuffers + i * 16 + 8)⟩

/-- A range of addresses that is read. -/
structure MemoryRead where
  start : ℕ
  width : ℕ
  deriving DecidableEq

structure ScatterRun where
  shared : CaptureState
  reads : List MemoryRead

/-- `capture`, which copies the bytes before it tries the lock. -/
def ScatterRun.capture (run : ScatterRun) (direction : Direction) (socketId : UInt64)
    (ptr len : ℕ) : ScatterRun :=
  if ptr = 0 ∨ len = 0 ∨ captureMaxBytes < len then run
  else
    { shared := run.shared.pushFrame
        ⟨run.shared.nowMs, direction, socketId, load run.shared.memory ptr len⟩
      reads := run.reads ++ [⟨ptr, len⟩] }

/-- The loop of `capture_wsabufs`; a counter that would go below zero is a fault. -/
def scatterFrom (direction : Direction) (socketId : UInt64) (lpBuffers : ℕ) :
    ℕ → ℕ → ℕ → ScatterRun → Except Fault ScatterRun
  | 0, _, _, run => .ok run
  | rounds + 1, i, remaining, run =>
      if remaining = 0 then .ok run
      else
        let buf := run.shared.wsabuf lpBuffers i
        let fetched := { run with reads := run.reads ++ [⟨lpBuffers + i * 16, 16⟩] }
        if buf.buf = 0 ∨ buf.len = 0 then
          scatterFrom direction socketId lpBuffers rounds (i + 1) remaining fetched
        else
          let taken := min remaining buf.len
          let captured := fetched.capture direction socketId buf.buf taken
          if remaining < taken then .error .underflow
          else
            scatterFrom direction socketId lpBuffers rounds (i + 1) (remaining - taken) captured

def scatter (direction : Direction) (socketId : UInt64) (lpBuffers count maxBytes : ℕ)
    (shared : CaptureState) : Except Fault ScatterRun :=
  if lpBuffers = 0 ∨ count = 0 ∨ maxBytes = 0 then .ok ⟨shared, []⟩
  else scatterFrom direction socketId lpBuffers count 0 maxBytes ⟨shared, []⟩

/-! ## What a transfer is -/

/-- The bytes an element points to. -/
def Wsabuf.bytes (memory : Memory UInt8) (buf : Wsabuf) : List UInt8 :=
  if buf.buf = 0 then [] else load memory buf.buf buf.len

/-- What the elements from `i` on point to. -/
def CaptureState.buffersFrom (shared : CaptureState) (lpBuffers i rounds : ℕ) :
    List (List UInt8) :=
  (List.range' i rounds).map fun k => (shared.wsabuf lpBuffers k).bytes shared.memory

/-- The buffers of an array in order; a null pointer is an empty array. -/
def CaptureState.buffers (shared : CaptureState) (lpBuffers count : ℕ) : List (List UInt8) :=
  if lpBuffers = 0 then [] else shared.buffersFrom lpBuffers 0 count

/-- The bytes that a transfer over the array has used. -/
def CaptureState.transferred (shared : CaptureState) (lpBuffers count maxBytes : ℕ) :
    List UInt8 :=
  let all := (shared.buffers lpBuffers count).flatten
  all.take (min maxBytes all.length)

/-- What `capture` makes a frame of. -/
def frameable (bytes : List UInt8) : Bool :=
  bytes ≠ [] ∧ bytes.length ≤ captureMaxBytes

/-- The frames for a list of pieces. -/
def CaptureState.framesOf (shared : CaptureState) (direction : Direction) (socketId : UInt64)
    (parts : List (List UInt8)) : List RawFrame :=
  (parts.filter frameable).map fun bytes => ⟨shared.nowMs, direction, socketId, bytes⟩

/-- What may be read for element `i`: the element, or what it says is its own. -/
def CaptureState.MayReadAt (shared : CaptureState) (lpBuffers i : ℕ) (range : MemoryRead) :
    Prop :=
  let buf := shared.wsabuf lpBuffers i
  range = ⟨lpBuffers + i * 16, 16⟩ ∨
    buf.buf ≠ 0 ∧ buf.buf ≤ range.start ∧ range.start + range.width ≤ buf.buf + buf.len

def CaptureState.MayRead (shared : CaptureState) (lpBuffers count : ℕ)
    (range : MemoryRead) : Prop :=
  ∃ i < count, shared.MayReadAt lpBuffers i range

/-! ## What an element points to -/

section Bytes

variable (memory : Memory UInt8) {buf : Wsabuf}

/-- A skipped element has no bytes. -/
theorem Wsabuf.bytes_of_skipped (hskip : buf.buf = 0 ∨ buf.len = 0) :
    buf.bytes memory = [] := by
  rw [Wsabuf.bytes]
  rcases hskip with hnull | hempty
  · rw [if_pos hnull]
  · rw [hempty]
    split <;> rfl

theorem Wsabuf.length_bytes (hbuf : buf.buf ≠ 0) : (buf.bytes memory).length = buf.len := by
  rw [Wsabuf.bytes, if_neg hbuf, length_load]

/-- The first bytes of an element, as far as it goes. -/
theorem Wsabuf.take_bytes (hbuf : buf.buf ≠ 0) (limit : ℕ) :
    (buf.bytes memory).take limit = load memory buf.buf (min limit buf.len) := by
  rw [List.take_eq_take_min, Wsabuf.length_bytes memory hbuf, Wsabuf.bytes, if_neg hbuf,
    take_load _ (Nat.min_le_right _ _)]

end Bytes

/-! ## Pushing changes the ring only -/

def CaptureState.withRing (shared : CaptureState) (ring : FrameRing) : CaptureState :=
  { shared with ring := ring }

section WithRing

variable (shared : CaptureState) (ring : FrameRing)

@[simp]
theorem ring_withRing : (shared.withRing ring).ring = ring := rfl

@[simp]
theorem buffersFrom_withRing :
    (shared.withRing ring).buffersFrom = shared.buffersFrom := rfl

@[simp]
theorem framesOf_withRing : (shared.withRing ring).framesOf = shared.framesOf := rfl

@[simp]
theorem withRing_withRing (later : FrameRing) :
    (shared.withRing ring).withRing later = shared.withRing later := rfl

end WithRing

theorem pushFrame_eq (shared : CaptureState) (frame : RawFrame) :
    ∃ ring, shared.pushFrame frame = shared.withRing ring := by
  rw [CaptureState.pushFrame]
  split
  · exact ⟨shared.ring, rfl⟩
  · split
    · exact ⟨_, rfl⟩
    · exact ⟨shared.ring, rfl⟩

theorem foldl_pushFrame_eq (shared : CaptureState) (frames : List RawFrame) :
    ∃ ring, frames.foldl CaptureState.pushFrame shared = shared.withRing ring := by
  induction frames generalizing shared with
  | nil => exact ⟨shared.ring, rfl⟩
  | cons frame frames ih =>
      obtain ⟨ring, hpush⟩ := pushFrame_eq shared frame
      obtain ⟨later, hlater⟩ := ih (shared.withRing ring)
      exact ⟨later, by rw [List.foldl_cons, hpush, hlater, withRing_withRing]⟩

/-- With the lock free and room in the ring, the frames are appended. -/
theorem foldl_pushFrame_of_hasRoom {shared : CaptureState} {frames : List RawFrame}
    (hunlocked : shared.ringLocked = false) (hroom : shared.ring.HasRoom frames) :
    frames.foldl CaptureState.pushFrame shared =
      shared.withRing (shared.ring.grown frames) := by
  induction frames generalizing shared with
  | nil =>
      rw [List.foldl_nil, grown_nil]
      rfl
  | cons frame frames ih =>
      have hpush : shared.pushFrame frame = shared.withRing (shared.ring.grown [frame]) := by
        rw [CaptureState.pushFrame, if_neg (Bool.not_eq_true _ ▸ hunlocked),
          HasRoom.push hroom]
        rfl
      have hrest := @ih (shared.withRing (shared.ring.grown [frame])) hunlocked
        (HasRoom.tail hroom)
      rw [List.foldl_cons, hpush, hrest, withRing_withRing, ring_withRing, ← grown_cons]

/-! ## The run -/

section Run

variable (direction : Direction) (socketId : UInt64)

theorem framesOf_cons (shared : CaptureState) (part : List UInt8)
    (parts : List (List UInt8)) :
    shared.framesOf direction socketId (part :: parts) =
      shared.framesOf direction socketId [part] ++
        shared.framesOf direction socketId parts := by
  rw [CaptureState.framesOf, CaptureState.framesOf, CaptureState.framesOf,
    ← List.map_append, ← List.filter_append, List.singleton_append]

@[simp]
theorem framesOf_nil_cons (shared : CaptureState) (parts : List (List UInt8)) :
    shared.framesOf direction socketId ([] :: parts) =
      shared.framesOf direction socketId parts := by
  simp [CaptureState.framesOf, frameable]

/-- Empty pieces give no frames. -/
theorem framesOf_eq_nil {shared : CaptureState} {parts : List (List UInt8)}
    (hempty : ∀ part ∈ parts, part = []) :
    shared.framesOf direction socketId parts = [] := by
  have hnone : parts.filter frameable = [] := by
    apply List.filter_eq_nil_iff.mpr
    intro part hpart
    simp [hempty part hpart, frameable]
  rw [CaptureState.framesOf, hnone, List.map_nil]

theorem buffersFrom_succ (shared : CaptureState) (lpBuffers i rounds : ℕ) :
    shared.buffersFrom lpBuffers i (rounds + 1) =
      (shared.wsabuf lpBuffers i).bytes shared.memory ::
        shared.buffersFrom lpBuffers (i + 1) rounds := by
  rw [CaptureState.buffersFrom, List.range'_succ, List.map_cons]
  rfl

/-- `capture` reads the bytes it is told of and no others. -/
theorem ScatterRun.capture_eq (run : ScatterRun) {ptr : ℕ} (hptr : ptr ≠ 0) (len : ℕ) :
    ∃ reads, run.capture direction socketId ptr len =
        ⟨(run.shared.framesOf direction socketId
          [load run.shared.memory ptr len]).foldl CaptureState.pushFrame run.shared,
          run.reads ++ reads⟩ ∧
      ∀ range ∈ reads, range = ⟨ptr, len⟩ := by
  by_cases hskip : len = 0 ∨ captureMaxBytes < len
  · have hframe : frameable (load run.shared.memory ptr len) = false := by
      simp only [frameable, length_load, decide_eq_false_iff_not, not_and, Nat.not_le,
        ← List.length_pos_iff]
      omega
    refine ⟨[], ?_, by simp⟩
    rw [ScatterRun.capture, if_pos (Or.inr hskip), List.append_nil, CaptureState.framesOf,
      List.filter_cons_of_neg (by simp [hframe])]
    rfl
  · have hframe : frameable (load run.shared.memory ptr len) = true := by
      simp only [frameable, length_load, decide_eq_true_eq, ← List.length_pos_iff]
      omega
    refine ⟨[⟨ptr, len⟩], ?_, by simp⟩
    rw [ScatterRun.capture, if_neg (by tauto), CaptureState.framesOf,
      List.filter_cons_of_pos hframe]
    rfl

/-- A round captures what its buffer adds to the prefix, and takes as much off the counter,
which is never less. -/
theorem scatterFrom_succ (lpBuffers rounds i : ℕ) {remaining : ℕ} (run : ScatterRun)
    (hremaining : remaining ≠ 0) :
    let bytes := (run.shared.wsabuf lpBuffers i).bytes run.shared.memory
    ∃ reads, scatterFrom direction socketId lpBuffers (rounds + 1) i remaining run =
        scatterFrom direction socketId lpBuffers rounds (i + 1) (remaining - bytes.length)
          ⟨(run.shared.framesOf direction socketId [bytes.take remaining]).foldl
            CaptureState.pushFrame run.shared, run.reads ++ reads⟩ ∧
      ∀ range ∈ reads, run.shared.MayReadAt lpBuffers i range := by
  intro bytes
  rw [scatterFrom, if_neg hremaining]
  simp only
  by_cases hskip : (run.shared.wsabuf lpBuffers i).buf = 0 ∨
      (run.shared.wsabuf lpBuffers i).len = 0
  · have hnil : bytes = [] := Wsabuf.bytes_of_skipped _ hskip
    refine ⟨[⟨lpBuffers + i * 16, 16⟩], ?_, ?_⟩
    · rw [if_pos hskip, hnil, List.take_nil, framesOf_nil_cons]
      rfl
    · intro range hrange
      exact Or.inl (List.mem_singleton.mp hrange)
  · have hbuf : (run.shared.wsabuf lpBuffers i).buf ≠ 0 := fun hnull => hskip (Or.inl hnull)
    have hlength : bytes.length = (run.shared.wsabuf lpBuffers i).len :=
      Wsabuf.length_bytes _ hbuf
    have htaken : bytes.take remaining =
        load run.shared.memory (run.shared.wsabuf lpBuffers i).buf
          (min remaining (run.shared.wsabuf lpBuffers i).len) :=
      Wsabuf.take_bytes _ hbuf remaining
    have hleft : remaining - min remaining (run.shared.wsabuf lpBuffers i).len =
        remaining - bytes.length := by omega
    obtain ⟨reads, hcapture, hreads⟩ := ScatterRun.capture_eq direction socketId
      { run with reads := run.reads ++ [⟨lpBuffers + i * 16, 16⟩] } hbuf
      (min remaining (run.shared.wsabuf lpBuffers i).len)
    refine ⟨⟨lpBuffers + i * 16, 16⟩ :: reads, ?_, ?_⟩
    · rw [if_neg hskip, if_neg (Nat.not_lt.mpr (Nat.min_le_left _ _)), hcapture, hleft, htaken,
        List.append_assoc, List.singleton_append]
    · intro range hrange
      rcases List.mem_cons.mp hrange with rfl | hmem
      · exact Or.inl rfl
      · rw [hreads range hmem]
        have hwithin := Nat.min_le_right remaining (run.shared.wsabuf lpBuffers i).len
        exact Or.inr ⟨hbuf, Nat.le_refl _, Nat.add_le_add_left hwithin _⟩

/-- Every round takes the next piece: the run ends without a fault, has pushed a frame for
each piece, and has read the array and what its elements hold. -/
theorem scatterFrom_eq (lpBuffers rounds i remaining : ℕ) (run : ScatterRun) :
    ∃ reads, scatterFrom direction socketId lpBuffers rounds i remaining run =
        .ok ⟨(run.shared.framesOf direction socketId
          (pieces remaining (run.shared.buffersFrom lpBuffers i rounds))).foldl
            CaptureState.pushFrame run.shared, run.reads ++ reads⟩ ∧
      ∀ range ∈ reads, run.shared.MayRead lpBuffers (i + rounds) range := by
  induction rounds generalizing i remaining run with
  | zero =>
      refine ⟨[], ?_, by simp⟩
      rw [List.append_nil]
      rfl
  | succ rounds ih =>
      by_cases hremaining : remaining = 0
      · refine ⟨[], ?_, by simp⟩
        rw [scatterFrom, if_pos hremaining, hremaining, List.append_nil,
          framesOf_eq_nil direction socketId fun part hpart => eq_nil_of_mem_pieces_zero hpart]
        rfl
      · obtain ⟨first, hround, hfirst⟩ := scatterFrom_succ direction socketId lpBuffers rounds i
          run hremaining
        let bytes := (run.shared.wsabuf lpBuffers i).bytes run.shared.memory
        obtain ⟨ring, hring⟩ := foldl_pushFrame_eq run.shared
          (run.shared.framesOf direction socketId [bytes.take remaining])
        obtain ⟨later, hrest, hlater⟩ := ih (i + 1) (remaining - bytes.length)
          ⟨run.shared.withRing ring, run.reads ++ first⟩
        refine ⟨first ++ later, ?_, ?_⟩
        · rw [hround, hring, hrest, buffersFrom_succ, pieces, framesOf_cons, List.foldl_append,
            hring, List.append_assoc, buffersFrom_withRing, framesOf_withRing]
        · intro range hrange
          rcases List.mem_append.mp hrange with hnow | hafter
          · exact ⟨i, by omega, hfirst range hnow⟩
          · obtain ⟨k, hk, hread⟩ := hlater range hafter
            exact ⟨k, by omega, hread⟩

/-! ## The detours run this loop -/

theorem capture_shared (inHook : Bool) (run : ScatterRun) (ptr len : ℕ) :
    (capture direction socketId ptr len ⟨inHook, run.shared⟩).2.1 =
      ⟨inHook, (run.capture direction socketId ptr len).shared⟩ := by
  rw [ScatterRun.capture, capture, bind_apply]
  split <;> rfl

omit direction socketId in
theorem getShared_bind {α : Type} (rest : CaptureState → Hooked α) (thread : CaptureThread) :
    ((getShared >>= rest) thread).2.1 = (rest thread.shared thread).2.1 := rfl

/-- A round of the loop on a thread, by whether the element is skipped. -/
theorem captureWsabufsFrom_succ (lpBuffers rounds i : ℕ) {remaining : ℕ}
    (hremaining : remaining ≠ 0) (thread : CaptureThread) :
    let buf := thread.shared.wsabuf lpBuffers i
    let round := captureWsabufsFrom direction socketId lpBuffers (rounds + 1) i remaining
    (buf.buf = 0 ∨ buf.len = 0 → (round thread).2.1 =
      (captureWsabufsFrom direction socketId lpBuffers rounds (i + 1) remaining
        thread).2.1) ∧
    (¬ (buf.buf = 0 ∨ buf.len = 0) → (round thread).2.1 =
      (captureWsabufsFrom direction socketId lpBuffers rounds (i + 1)
        (remaining - min remaining buf.len)
        (capture direction socketId buf.buf (min remaining buf.len) thread).2.1).2.1) := by
  simp only [CaptureState.wsabuf]
  rw [captureWsabufsFrom, if_neg hremaining, getShared_bind]
  constructor
  · intro hskip
    rw [if_pos hskip]
  · intro hskip
    rw [if_neg hskip, bind_apply]

/-- On a thread the loop leaves behind what the run ends in. -/
theorem captureWsabufsFrom_shared (lpBuffers rounds i remaining : ℕ) (inHook : Bool)
    {before run : ScatterRun}
    (hrun : scatterFrom direction socketId lpBuffers rounds i remaining before = .ok run) :
    (captureWsabufsFrom direction socketId lpBuffers rounds i remaining
      ⟨inHook, before.shared⟩).2.1 = ⟨inHook, run.shared⟩ := by
  induction rounds generalizing i remaining before with
  | zero =>
      cases hrun
      rfl
  | succ rounds ih =>
      rw [scatterFrom] at hrun
      by_cases hremaining : remaining = 0
      · rw [if_pos hremaining] at hrun
        cases hrun
        rw [captureWsabufsFrom, if_pos hremaining]
        rfl
      · rw [if_neg hremaining] at hrun
        obtain ⟨hskipped, htaken⟩ := captureWsabufsFrom_succ direction socketId lpBuffers
          rounds i hremaining ⟨inHook, before.shared⟩
        simp only at hrun
        by_cases hskip : (before.shared.wsabuf lpBuffers i).buf = 0 ∨
            (before.shared.wsabuf lpBuffers i).len = 0
        · rw [if_pos hskip] at hrun
          rw [hskipped hskip]
          have hrest := ih (i + 1) remaining hrun
          exact hrest
        · rw [if_neg hskip, if_neg (Nat.not_lt.mpr (Nat.min_le_left _ _))] at hrun
          rw [htaken hskip]
          have hcapture := capture_shared direction socketId inHook
            { before with reads := before.reads ++ [⟨lpBuffers + i * 16, 16⟩] }
          rw [hcapture]
          exact ih (i + 1) _ hrun

/-- With the array read and the counter in view nothing else changes. -/
theorem captureWsabufs_shared (lpBuffers count maxBytes : ℕ) (inHook : Bool)
    {shared : CaptureState} {run : ScatterRun}
    (hrun : scatter direction socketId lpBuffers count maxBytes shared = .ok run) :
    (captureWsabufs direction socketId lpBuffers count maxBytes ⟨inHook, shared⟩).2.1 =
      ⟨inHook, run.shared⟩ := by
  rw [scatter] at hrun
  rw [captureWsabufs]
  by_cases hnothing : lpBuffers = 0 ∨ count = 0 ∨ maxBytes = 0
  · rw [if_pos hnothing] at hrun ⊢
    cases hrun
    rfl
  · rw [if_neg hnothing] at hrun ⊢
    exact captureWsabufsFrom_shared direction socketId lpBuffers count 0 maxBytes inHook hrun

/-! ## The transferred prefix -/

omit direction socketId in
/-- Where the code returns at once there is nothing to capture. -/
theorem eq_nil_of_nothing {shared : CaptureState} {lpBuffers count maxBytes : ℕ}
    (hnothing : lpBuffers = 0 ∨ count = 0 ∨ maxBytes = 0) :
    ∀ piece ∈ pieces maxBytes (shared.buffers lpBuffers count), piece = [] := by
  intro piece hpiece
  rcases hnothing with hnull | hcount | hmax
  · rw [CaptureState.buffers, if_pos hnull] at hpiece
    cases hpiece
  · have hbuffers : shared.buffers lpBuffers count = [] := by
      rw [CaptureState.buffers, hcount, ite_eq_left_iff]
      exact fun _ => rfl
    rw [hbuffers] at hpiece
    cases hpiece
  · rw [hmax] at hpiece
    exact eq_nil_of_mem_pieces_zero hpiece

/-- The frames are the pieces of the transfer, whatever the ring does with them. -/
theorem scatter_eq (lpBuffers count maxBytes : ℕ) (shared : CaptureState) :
    ∃ reads, scatter direction socketId lpBuffers count maxBytes shared =
        .ok ⟨(shared.framesOf direction socketId
          (pieces maxBytes (shared.buffers lpBuffers count))).foldl
            CaptureState.pushFrame shared, reads⟩ ∧
      ∀ range ∈ reads, shared.MayRead lpBuffers count range := by
  by_cases hnothing : lpBuffers = 0 ∨ count = 0 ∨ maxBytes = 0
  · refine ⟨[], ?_, by simp⟩
    rw [scatter, if_pos hnothing,
      framesOf_eq_nil direction socketId (eq_nil_of_nothing hnothing), List.foldl_nil]
  · obtain ⟨reads, hrun, hreads⟩ := scatterFrom_eq direction socketId lpBuffers count 0 maxBytes
      ⟨shared, []⟩
    rw [Nat.zero_add] at hreads
    refine ⟨reads, ?_, hreads⟩
    rw [scatter, if_neg hnothing, hrun, CaptureState.buffers,
      if_neg fun hnull => hnothing (Or.inl hnull), List.nil_append]

omit direction socketId in
/-- The pieces are the bytes the transfer has used. -/
theorem flatten_pieces_buffers (shared : CaptureState) (lpBuffers count maxBytes : ℕ) :
    (pieces maxBytes (shared.buffers lpBuffers count)).flatten =
      shared.transferred lpBuffers count maxBytes := by
  rw [flatten_pieces, List.take_eq_take_min]
  rfl

/-- If no piece is too long for a frame, the frames hold all pieces. -/
theorem flatten_framesOf (shared : CaptureState) {parts : List (List UInt8)}
    (hparts : ∀ part ∈ parts, part.length ≤ captureMaxBytes) :
    ((shared.framesOf direction socketId parts).map RawFrame.bytes).flatten =
      parts.flatten := by
  have hbytes : (shared.framesOf direction socketId parts).map RawFrame.bytes =
      parts.filter frameable := by
    rw [CaptureState.framesOf, List.map_map]
    exact List.map_id _
  rw [hbytes]
  apply flatten_filter_of_forall_ne_nil
  intro part hpart hne
  simp [frameable, hne, hparts part hpart]

end Run

/-- Capturing the buffers of a transfer takes the transferred prefix: the counter does not go
below zero, nothing is read but the array and what its elements hold, and with the lock free,
room in the ring and no piece too long for a frame, the frames that are appended hold the
first `maxBytes` bytes of the buffers in order. -/
theorem captureWsabufs_takes_prefix (direction : Direction) (socketId : UInt64)
    (lpBuffers count maxBytes : ℕ) (inHook : Bool) (shared : CaptureState) :
    ∃ run, scatter direction socketId lpBuffers count maxBytes shared = .ok run ∧
      (captureWsabufs direction socketId lpBuffers count maxBytes ⟨inHook, shared⟩).2.1 =
        ⟨inHook, run.shared⟩ ∧
      (∀ range ∈ run.reads, shared.MayRead lpBuffers count range) ∧
      (shared.ringLocked = false →
        (∀ piece ∈ pieces maxBytes (shared.buffers lpBuffers count),
          piece.length ≤ captureMaxBytes) →
        shared.ring.HasRoom (shared.framesOf direction socketId
          (pieces maxBytes (shared.buffers lpBuffers count))) →
        ∃ pushed, run.shared.ring.frames = shared.ring.frames ++ pushed ∧
          (∀ frame ∈ pushed, frame.direction = direction ∧ frame.socketId = socketId) ∧
          (pushed.map RawFrame.bytes).flatten =
            shared.transferred lpBuffers count maxBytes) := by
  obtain ⟨reads, hrun, hreads⟩ := scatter_eq direction socketId lpBuffers count maxBytes shared
  refine ⟨_, hrun, captureWsabufs_shared direction socketId lpBuffers count maxBytes inHook hrun,
    hreads, ?_⟩
  intro hunlocked hpieces hroom
  have hall := (flatten_framesOf direction socketId shared hpieces).trans
    (flatten_pieces_buffers shared lpBuffers count maxBytes)
  refine ⟨_, ?_, ?_, hall⟩
  · rw [foldl_pushFrame_of_hasRoom hunlocked hroom]
    rfl
  · intro frame hframe
    obtain ⟨bytes, -, rfl⟩ := List.mem_map.mp hframe
    exact ⟨rfl, rfl⟩

/-- An array at 16 with a null element, three bytes at 100 and two at 200. -/
def threeElements : CaptureState where
  memory :=
    let array := store (fun _ => 0) ⟨32, [3, 0, 0, 0, 0, 0, 0, 0, 100, 0, 0, 0, 0, 0, 0, 0,
      2, 0, 0, 0, 0, 0, 0, 0, 200]⟩
    store (store array ⟨100, [7, 8, 9]⟩) ⟨200, [5, 6]⟩
  trampoline := fun _ => 0
  ring := .new 65536 captureMaxBytes
  ringLocked := false
  pending := []
  pendingLocked := false
  apcGap := 0
  capHitCount := 0
  wsaLastError := 0
  nowMs := 1000

/-- Of a transfer of four bytes the second frame has one. -/
theorem captureWsabufs_takes_four_bytes :
    ∃ run, scatter .s2c 7 16 3 4 threeElements = .ok run ∧
      ∃ pushed, run.shared.ring.frames = pushed ∧
        (pushed.map RawFrame.bytes).flatten = [7, 8, 9, 5] := by
  have hbytes : threeElements.transferred 16 3 4 = [7, 8, 9, 5] := by decide
  have hpieces : pieces 4 (threeElements.buffers 16 3) = [[], [7, 8, 9], [5]] := by decide
  obtain ⟨run, hrun, -, -, htransfer⟩ :=
    captureWsabufs_takes_prefix .s2c 7 16 3 4 true threeElements
  have hroom : threeElements.ring.HasRoom (threeElements.framesOf .s2c 7
      (pieces 4 (threeElements.buffers 16 3))) := by
    rw [hpieces]
    exact ⟨by decide, by decide⟩
  obtain ⟨pushed, hframes, -, hpushed⟩ := htransfer rfl (by rw [hpieces]; decide) hroom
  exact ⟨run, hrun, pushed, hframes, hpushed.trans hbytes⟩

end FrogAgent.Protocol
