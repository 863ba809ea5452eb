import FrogAgent.Lib.Run
import Mathlib.Data.List.Flatten

/-!
# Overlapped receives

The asynchronous side of `protocol/capture.rs`.  A receive detour calls the
original, which starts the operation, and only then records it in `PENDING` under
its `OVERLAPPED` address; the completion detours take that entry out again and
capture the received bytes under its socket and buffers.  Every critical section is
guarded by `try_lock` and is one step here, with the outcome of the attempt in the
label; between an original call and the critical section behind it any other step
may happen.  The kernel starts operations, completes them and hands out completion
packets in any order.
-/

namespace FrogAgent.Protocol

open FrogAgent.Run

/-- An entry of `PENDING`: the socket, `lpBuffers` and `dwBufferCount`. -/
structure Receive where
  socketId : UInt64
  lpBuffers : ℕ
  dwBufferCount : ℕ
  deriving DecidableEq, Repr

/-- An operation in the kernel, with the receive it is; sends, receives that are done
at once and receives with a completion routine are nothing to `PENDING`. -/
structure Operation where
  overlapped : ℕ
  receive : Option Receive
  deriving DecidableEq, Repr

/-- A completion packet. -/
structure Packet where
  operation : Operation
  success : Bool
  bytesTransferred : ℕ
  deriving DecidableEq, Repr

/-- Where a thread stands: outside the detours, or between an original call and the
critical section that follows it. -/
inductive Detour where
  | idle
  | recording (overlapped : ℕ) (receive : Receive)
  | completing (packets : List Packet)
  deriving DecidableEq, Repr

/-- A call of `capture_wsabufs` by a completion detour, with the operation whose
packet was dequeued. -/
structure S2CFrame where
  operation : Operation
  receive : Receive
  bytesTransferred : ℕ
  deriving DecidableEq, Repr

abbrev Pending := List (ℕ × Receive)

structure State where
  inFlight : List Operation
  queue : List Packet
  threads : List Detour
  pending : Pending
  frames : List S2CFrame
  deriving DecidableEq, Repr

def initial (threads : ℕ) : State := ⟨[], [], List.replicate threads .idle, [], []⟩

def maxPending : ℕ := 4096

def lookup (pending : Pending) (overlapped : ℕ) : Option Receive :=
  (pending.find? fun entry => entry.1 = overlapped).map Prod.snd

def remove (pending : Pending) (overlapped : ℕ) : Pending :=
  pending.filter fun entry => entry.1 ≠ overlapped

/-- The critical section of a receive detour: a full map takes no entry. -/
def recordReceive (pending : Pending) (overlapped : ℕ) (receive : Receive) : Pending :=
  if pending.length < maxPending then (overlapped, receive) :: remove pending overlapped
  else pending

/-- One packet in the critical section of a completion detour: the entry is always
removed, and captured when data arrived. -/
def capturePacket (captured : Pending × List S2CFrame) (packet : Packet) :
    Pending × List S2CFrame :=
  let overlapped := packet.operation.overlapped
  if overlapped = 0 then captured
  else
    match lookup captured.1 overlapped with
    | none => captured
    | some receive =>
        (remove captured.1 overlapped,
          if 0 < packet.bytesTransferred then
            captured.2 ++ [⟨packet.operation, receive, packet.bytesTransferred⟩]
          else captured.2)

/-- The eviction of `closesocket_detour`. -/
def evictSocket (pending : Pending) (socketId : UInt64) : Pending :=
  pending.filter fun entry => entry.2.socketId ≠ socketId

/-- The packets at the given positions, each taken from what the ones before left. -/
def takePackets : List Packet → List ℕ → Option (List Packet × List Packet)
  | queue, [] => some ([], queue)
  | queue, position :: positions => do
      let packet ← queue[position]?
      let (packets, rest) ← takePackets (queue.eraseIdx position) positions
      return (packet :: packets, rest)

inductive Label where
  /-- The original `WSARecv` or `WSARecvFrom` returns `WSA_IO_PENDING`. -/
  | wsarecv (thread overlapped : ℕ) (receive : Receive)
  /-- Any other overlapped operation is started. -/
  | start (overlapped : ℕ)
  | complete (overlapped : ℕ) (success : Bool) (bytesTransferred : ℕ)
  | record (thread : ℕ) (locked : Bool)
  /-- The original `GetQueuedCompletionStatus` returns a packet. -/
  | gqcs (thread position : ℕ)
  | gqcsex (thread : ℕ) (positions : List ℕ)
  | capture (thread : ℕ) (locked : Bool)
  | closesocket (socketId : UInt64) (locked : Bool)
  deriving DecidableEq, Repr

/-- An address can be used again once its operation has completed. -/
def State.Free (state : State) (overlapped : ℕ) : Prop :=
  ∀ operation ∈ state.inFlight, operation.overlapped ≠ overlapped

instance (state : State) (overlapped : ℕ) : Decidable (state.Free overlapped) :=
  inferInstanceAs (Decidable (∀ operation ∈ state.inFlight, _))

def step (state : State) : Label → Option State
  | .wsarecv thread overlapped receive =>
      if state.threads[thread]? = some .idle ∧ state.Free overlapped ∧ overlapped ≠ 0 ∧
          receive.lpBuffers ≠ 0 ∧ receive.dwBufferCount ≠ 0 then
        some { state with
          inFlight := ⟨overlapped, some receive⟩ :: state.inFlight
          threads := state.threads.set thread (.recording overlapped receive) }
      else none
  | .start overlapped =>
      if state.Free overlapped then
        some { state with inFlight := ⟨overlapped, none⟩ :: state.inFlight }
      else none
  | .complete overlapped success bytesTransferred =>
      match state.inFlight.find? fun operation => operation.overlapped = overlapped with
      | none => none
      | some operation =>
          some { state with
            inFlight := state.inFlight.filter fun other => other.overlapped ≠ overlapped
            queue := state.queue ++ [⟨operation, success, bytesTransferred⟩] }
  | .record thread locked =>
      match state.threads[thread]? with
      | some (.recording overlapped receive) =>
          some { state with
            pending := bif locked then recordReceive state.pending overlapped receive
              else state.pending
            threads := state.threads.set thread .idle }
      | _ => none
  | .gqcs thread position =>
      match state.threads[thread]?, state.queue[position]? with
      | some .idle, some packet =>
          some { state with
            queue := state.queue.eraseIdx position
            -- A failed completion is handed on without looking at `PENDING`.
            threads := state.threads.set thread
              (bif packet.success then .completing [packet] else .idle) }
      | _, _ => none
  | .gqcsex thread positions =>
      match state.threads[thread]?, takePackets state.queue positions with
      | some .idle, some (packets, rest) =>
          some { state with
            queue := rest
            threads := state.threads.set thread (.completing packets) }
      | _, _ => none
  | .capture thread locked =>
      match state.threads[thread]? with
      | some (.completing packets) =>
          let captured := bif locked then
              packets.foldl capturePacket (state.pending, state.frames)
            else (state.pending, state.frames)
          some { state with
            pending := captured.1
            frames := captured.2
            threads := state.threads.set thread .idle }
      | _ => none
  | .closesocket socketId locked =>
      some { state with
        pending := bif locked then evictSocket state.pending socketId
          else state.pending }

/-- The frame carries the socket and the buffers of the operation whose completion
was dequeued. -/
def S2CFrame.Attributed (frame : S2CFrame) : Prop :=
  frame.operation.receive = some frame.receive

instance (frame : S2CFrame) : Decidable frame.Attributed :=
  inferInstanceAs (Decidable (_ = _))

/-! ## Traces of an address -/

def Detour.traces : Detour → List Operation
  | .idle => []
  | .recording overlapped receive => [⟨overlapped, some receive⟩]
  | .completing packets => packets.map Packet.operation

def entryTrace (entry : ℕ × Receive) : Operation := ⟨entry.1, some entry.2⟩

/-- The operations something in the state still speaks of: the kernel, a queued packet,
a detour that has not finished, or an entry of `PENDING`. -/
def State.traces (state : State) : List Operation :=
  state.inFlight ++ state.queue.map Packet.operation ++
    state.threads.flatMap Detour.traces ++ state.pending.map entryTrace

/-- Nothing is left of the operations an address was used for. -/
def State.Clean (state : State) (overlapped : ℕ) : Prop :=
  ∀ operation ∈ state.traces, operation.overlapped ≠ overlapped

instance (state : State) (overlapped : ℕ) : Decidable (state.Clean overlapped) :=
  inferInstanceAs (Decidable (∀ operation ∈ state.traces, _))

def Label.started : Label → Option Operation
  | .wsarecv _ overlapped receive => some ⟨overlapped, some receive⟩
  | .start overlapped => some ⟨overlapped, none⟩
  | _ => none

/-- An operation is started on a clean address only. -/
def CleanStart (state : State) (label : Label) : Prop :=
  ∀ operation ∈ label.started, state.Clean operation.overlapped

instance (state : State) (label : Label) : Decidable (CleanStart state label) :=
  inferInstanceAs (Decidable (∀ operation ∈ label.started, _))

theorem mem_traces {state : State} {operation : Operation} :
    operation ∈ state.traces ↔
      operation ∈ state.inFlight ∨ (∃ packet ∈ state.queue, packet.operation = operation) ∨
        (∃ detour ∈ state.threads, operation ∈ detour.traces) ∨
          ∃ entry ∈ state.pending, entryTrace entry = operation := by
  simp only [State.traces, List.mem_append, List.mem_map, List.mem_flatMap, or_assoc]

theorem mem_of_lookup {pending : Pending} {overlapped : ℕ} {receive : Receive}
    (hlookup : lookup pending overlapped = some receive) :
    (overlapped, receive) ∈ pending := by
  obtain ⟨entry, hfind, rfl⟩ := Option.map_eq_some_iff.mp hlookup
  have hkey : entry.1 = overlapped := by simpa using List.find?_some hfind
  rw [← hkey]
  exact List.mem_of_find?_eq_some hfind

theorem mem_of_takePackets {queue rest packets : List Packet} {positions : List ℕ}
    (htake : takePackets queue positions = some (packets, rest)) :
    (∀ packet ∈ packets, packet ∈ queue) ∧ ∀ packet ∈ rest, packet ∈ queue := by
  induction positions generalizing queue packets rest with
  | nil =>
      cases htake
      exact ⟨fun packet hpacket => (List.not_mem_nil hpacket).elim, fun _ => id⟩
  | cons position positions ih =>
      simp only [takePackets, Option.bind_eq_bind, Option.bind_eq_some_iff] at htake
      obtain ⟨packet, hpacket, ⟨more, left⟩, hmore, hresult⟩ := htake
      cases hresult
      obtain ⟨htaken, hleft⟩ := ih hmore
      constructor
      · rw [List.forall_mem_cons]
        exact ⟨List.mem_of_getElem? hpacket,
          fun other hother => List.mem_of_mem_eraseIdx (htaken other hother)⟩
      · exact fun other hother => List.mem_of_mem_eraseIdx (hleft other hother)

/-- What the loop over the packets leaves and adds: entries only go away, and each
new frame joins a packet with an entry of its address. -/
theorem capturePackets_spec (packets : List Packet) (pending : Pending)
    (frames : List S2CFrame) :
    (∀ entry ∈ (packets.foldl capturePacket (pending, frames)).1, entry ∈ pending) ∧
      ∀ frame ∈ (packets.foldl capturePacket (pending, frames)).2,
        frame ∈ frames ∨ (∃ packet ∈ packets, packet.operation = frame.operation) ∧
          (frame.operation.overlapped, frame.receive) ∈ pending := by
  induction packets generalizing pending frames with
  | nil => exact ⟨fun _ => id, fun _ => Or.inl⟩
  | cons packet packets ih =>
      rw [List.foldl_cons]
      have hone : (∀ entry ∈ (capturePacket (pending, frames) packet).1, entry ∈ pending) ∧
          ∀ frame ∈ (capturePacket (pending, frames) packet).2, frame ∈ frames ∨
            packet.operation = frame.operation ∧
              (frame.operation.overlapped, frame.receive) ∈ pending := by
        unfold capturePacket
        dsimp only
        split
        · exact ⟨fun _ => id, fun _ => Or.inl⟩
        · cases hlookup : lookup pending packet.operation.overlapped with
          | none => exact ⟨fun _ => id, fun _ => Or.inl⟩
          | some receive =>
              refine ⟨fun entry hentry => List.mem_of_mem_filter hentry, ?_⟩
              intro frame hframe
              dsimp only at hframe
              split at hframe
              · rcases List.mem_append.mp hframe with hold | hnew
                · exact Or.inl hold
                · rw [List.mem_singleton] at hnew
                  rw [hnew]
                  exact Or.inr ⟨rfl, mem_of_lookup hlookup⟩
              · exact Or.inl hframe
      obtain ⟨hpending, hframes⟩ := ih (capturePacket (pending, frames) packet).1
        (capturePacket (pending, frames) packet).2
      constructor
      · exact fun entry hentry => hone.1 entry (hpending entry hentry)
      · intro frame hframe
        rcases hframes frame hframe with hold | ⟨⟨other, hother, hsame⟩, hentry⟩
        · rcases hone.2 frame hold with hframe | ⟨hsame, hentry⟩
          · exact Or.inl hframe
          · exact Or.inr ⟨⟨packet, List.mem_cons_self, hsame⟩, hentry⟩
        · exact Or.inr ⟨⟨other, List.mem_cons_of_mem _ hother, hsame⟩,
            hone.1 _ hentry⟩

section Parts

variable {state : State}

theorem trace_inFlight {operation : Operation} (hmem : operation ∈ state.inFlight) :
    operation ∈ state.traces :=
  mem_traces.mpr (Or.inl hmem)

theorem trace_queue {packet : Packet} (hmem : packet ∈ state.queue) :
    packet.operation ∈ state.traces :=
  mem_traces.mpr (Or.inr (Or.inl ⟨packet, hmem, rfl⟩))

theorem trace_thread {detour : Detour} (hmem : detour ∈ state.threads)
    {operation : Operation} (htrace : operation ∈ detour.traces) :
    operation ∈ state.traces :=
  mem_traces.mpr (Or.inr (Or.inr (Or.inl ⟨detour, hmem, htrace⟩)))

theorem trace_pending {entry : ℕ × Receive} (hmem : entry ∈ state.pending) :
    entryTrace entry ∈ state.traces :=
  mem_traces.mpr (Or.inr (Or.inr (Or.inr ⟨entry, hmem, rfl⟩)))

/-- A thread that moves keeps the traces of the others. -/
theorem traces_set {thread : ℕ} {detour : Detour} {allowed : Operation → Prop}
    (hold : ∀ operation ∈ state.traces, allowed operation)
    (hnew : ∀ operation ∈ detour.traces, allowed operation) :
    ∀ other ∈ state.threads.set thread detour, ∀ operation ∈ other.traces,
      allowed operation := by
  intro other hother operation htrace
  rcases List.mem_or_eq_of_mem_set hother with hkept | rfl
  · exact hold operation (trace_thread hkept htrace)
  · exact hnew operation htrace

/-- The traces of a state are allowed when those of its parts are. -/
theorem traces_of_parts {allowed : Operation → Prop}
    (hflight : ∀ operation ∈ state.inFlight, allowed operation)
    (hqueue : ∀ packet ∈ state.queue, allowed packet.operation)
    (hthreads : ∀ detour ∈ state.threads, ∀ operation ∈ detour.traces, allowed operation)
    (hpending : ∀ entry ∈ state.pending, allowed (entryTrace entry)) :
    ∀ operation ∈ state.traces, allowed operation := by
  intro operation hmem
  rcases mem_traces.mp hmem with hpart | ⟨packet, hpart, rfl⟩ | ⟨detour, hpart, htrace⟩ |
    ⟨entry, hpart, rfl⟩
  · exact hflight operation hpart
  · exact hqueue packet hpart
  · exact hthreads detour hpart operation htrace
  · exact hpending entry hpart

end Parts

/-- A step leaves no trace of an operation that had none, but for the one it
starts. -/
theorem step_traces {state next : State} {label : Label}
    (hstep : step state label = some next) :
    ∀ operation ∈ next.traces, operation ∈ state.traces ∨ operation ∈ label.started := by
  have hkept : ∀ operation ∈ state.traces,
      operation ∈ state.traces ∨ operation ∈ label.started := fun _ => Or.inl
  have hflight := fun operation hmem => hkept operation (trace_inFlight hmem)
  have hqueue := fun packet hmem => hkept (Packet.operation packet) (trace_queue hmem)
  have hthreads := fun (detour : Detour) hmem operation (htrace : operation ∈ detour.traces) =>
    hkept operation (trace_thread hmem htrace)
  have hpending := fun entry hmem => hkept (entryTrace entry) (trace_pending hmem)
  cases label with
  | wsarecv thread overlapped receive =>
      simp only [step, Option.ite_none_right_eq_some, Option.some.injEq] at hstep
      obtain ⟨-, rfl⟩ := hstep
      have hstarted : (⟨overlapped, some receive⟩ : Operation) ∈ state.traces ∨
          (⟨overlapped, some receive⟩ : Operation) ∈
            (Label.wsarecv thread overlapped receive).started := Or.inr rfl
      refine traces_of_parts ?_ hqueue ?_ hpending
      · exact List.forall_mem_cons.mpr ⟨hstarted, hflight⟩
      · exact traces_set hkept (List.forall_mem_singleton.mpr hstarted)
  | start overlapped =>
      simp only [step, Option.ite_none_right_eq_some, Option.some.injEq] at hstep
      obtain ⟨-, rfl⟩ := hstep
      refine traces_of_parts ?_ hqueue hthreads hpending
      exact List.forall_mem_cons.mpr ⟨Or.inr rfl, hflight⟩
  | complete overlapped success bytes =>
      simp only [step] at hstep
      split at hstep
      · cases hstep
      · rename_i found hfound
        cases hstep
        refine traces_of_parts ?_ ?_ hthreads hpending
        · exact fun operation hmem => hflight operation (List.mem_of_mem_filter hmem)
        · rw [List.forall_mem_append, List.forall_mem_singleton]
          exact ⟨hqueue, hflight found (List.mem_of_find?_eq_some hfound)⟩
  | record thread locked =>
      simp only [step] at hstep
      split at hstep
      · rename_i overlapped receive hthread
        cases hstep
        refine traces_of_parts hflight hqueue ?_ ?_
        · exact traces_set hkept fun operation hmem => (List.not_mem_nil hmem).elim
        · have hrecording := hthreads _ (List.mem_of_getElem? hthread)
            (entryTrace (overlapped, receive)) (List.mem_singleton_self _)
          cases locked with
          | false => exact hpending
          | true =>
              dsimp only [cond_true, recordReceive]
              split
              · rw [List.forall_mem_cons]
                exact ⟨hrecording, fun entry hentry =>
                  hpending entry (List.mem_of_mem_filter hentry)⟩
              · exact hpending
      · cases hstep
  | gqcs thread position =>
      simp only [step] at hstep
      split at hstep
      · rename_i packet hthread hpacket
        cases hstep
        have hdequeued := hqueue packet (List.mem_of_getElem? hpacket)
        refine traces_of_parts hflight ?_ ?_ hpending
        · exact fun other hmem => hqueue other (List.mem_of_mem_eraseIdx hmem)
        · apply traces_set hkept
          cases packet.success with
          | false => exact fun operation hmem => (List.not_mem_nil hmem).elim
          | true => exact List.forall_mem_singleton.mpr hdequeued
      · cases hstep
  | gqcsex thread positions =>
      simp only [step] at hstep
      split at hstep
      · rename_i packets rest hthread htake
        cases hstep
        obtain ⟨htaken, hrest⟩ := mem_of_takePackets htake
        refine traces_of_parts hflight ?_ ?_ hpending
        · exact fun other hmem => hqueue other (hrest other hmem)
        · apply traces_set hkept
          intro operation hmem
          obtain ⟨packet, hpacket, rfl⟩ := List.mem_map.mp hmem
          exact hqueue packet (htaken packet hpacket)
      · cases hstep
  | capture thread locked =>
      simp only [step] at hstep
      split at hstep
      · rename_i packets hthread
        cases hstep
        refine traces_of_parts hflight hqueue ?_ ?_
        · exact traces_set hkept fun operation hmem => (List.not_mem_nil hmem).elim
        · cases locked with
          | false => exact hpending
          | true =>
              exact fun entry hmem =>
                hpending entry ((capturePackets_spec packets _ state.frames).1 entry hmem)
      · cases hstep
  | closesocket socketId locked =>
      cases hstep
      refine traces_of_parts hflight hqueue hthreads ?_
      cases locked with
      | false => exact hpending
      | true => exact fun entry hmem => hpending entry (List.mem_of_mem_filter hmem)

/-- A new frame joins an operation and an entry that both left a trace. -/
theorem step_frames {state next : State} {label : Label}
    (hstep : step state label = some next) :
    ∀ frame ∈ next.frames, frame ∈ state.frames ∨ frame.operation ∈ state.traces ∧
      entryTrace (frame.operation.overlapped, frame.receive) ∈ state.traces := by
  cases label with
  | capture thread locked =>
      simp only [step] at hstep
      split at hstep
      · rename_i packets hthread
        cases hstep
        cases locked with
        | false => exact fun frame => Or.inl
        | true =>
            intro frame hframe
            rcases (capturePackets_spec packets state.pending state.frames).2 frame hframe
              with hold | ⟨⟨packet, hpacket, hsame⟩, hentry⟩
            · exact Or.inl hold
            · refine Or.inr ⟨?_, trace_pending hentry⟩
              rw [← hsame]
              exact trace_thread (List.mem_of_getElem? hthread)
                (List.mem_map_of_mem hpacket)
      · cases hstep
  | closesocket socketId locked =>
      cases hstep
      exact fun frame => Or.inl
  | wsarecv thread overlapped receive | start overlapped =>
      simp only [step, Option.ite_none_right_eq_some, Option.some.injEq] at hstep
      obtain ⟨-, rfl⟩ := hstep
      exact fun frame => Or.inl
  | complete overlapped success bytes
  | record thread locked
  | gqcs thread position
  | gqcsex thread positions =>
      simp only [step] at hstep
      split at hstep <;> cases hstep
      exact fun frame => Or.inl

/-! ## Attribution -/

/-- All traces of an address are of one operation, and every frame so far is
attributed. -/
structure Sound (state : State) : Prop where
  one : ∀ first ∈ state.traces, ∀ second ∈ state.traces,
    first.overlapped = second.overlapped → first = second
  attributed : ∀ frame ∈ state.frames, frame.Attributed

theorem sound_initial (threads : ℕ) : Sound (initial threads) := by
  have hnone : ∀ operation ∈ (initial threads).traces, False := by
    refine traces_of_parts (by simp [initial]) (by simp [initial]) ?_ (by simp [initial])
    intro detour hdetour operation htrace
    rw [List.eq_of_mem_replicate hdetour] at htrace
    exact List.not_mem_nil htrace
  exact ⟨fun first hfirst => (hnone first hfirst).elim,
    fun frame hframe => (List.not_mem_nil hframe).elim⟩

theorem step_sound {state next : State} {label : Label} (hsound : Sound state)
    (hclean : CleanStart state label) (hstep : step state label = some next) :
    Sound next := by
  constructor
  · intro first hfirst second hsecond hsame
    rcases step_traces hstep first hfirst with hfirst | hfirst <;>
      rcases step_traces hstep second hsecond with hsecond | hsecond
    · exact hsound.one first hfirst second hsecond hsame
    · exact absurd hsame (hclean second hsecond first hfirst)
    · exact absurd hsame.symm (hclean first hfirst second hsecond)
    · exact Option.mem_unique hfirst hsecond
  · intro frame hframe
    rcases step_frames hstep frame hframe with hold | ⟨hoperation, hentry⟩
    · exact hsound.attributed frame hold
    · exact congrArg Operation.receive (hsound.one _ hoperation _ hentry rfl)

/-- In every run that starts operations on clean addresses only, every captured frame
belongs to the operation whose completion was dequeued. -/
theorem frames_attributed {threads : ℕ} {labels : List Label}
    (hmeets : Meets step CleanStart (initial threads) labels) {state : State}
    (hvisits : Visits step (initial threads) labels state) :
    ∀ frame ∈ state.frames, frame.Attributed :=
  (hmeets.invariant (sound_initial threads)
    (fun _ _ _ hsound hclean hstep => step_sound hsound hclean hstep) hvisits).attributed

/-- A receive of sixteen bytes on socket 1. -/
def sampleReceive : Receive := ⟨1, 0xA00, 1⟩

theorem frames_attributed_receive :
    (⟨⟨0x100, some sampleReceive⟩, sampleReceive, 16⟩ : S2CFrame).Attributed := by
  have hmeets : Meets step CleanStart (initial 2)
      [.wsarecv 0 0x100 sampleReceive, .record 0 true, .complete 0x100 true 16,
        .gqcs 1 0, .capture 1 true, .start 0x100] := by decide +kernel
  exact frames_attributed hmeets (visits_end rfl) _ List.mem_cons_self

/-- An entry that is left over under a free address is taken for the next operation
on that address. -/
theorem leftover_misattributes {state : State} {thread overlapped : ℕ} {receive : Receive}
    (hidle : state.threads[thread]? = some .idle) (hfree : state.Free overlapped)
    (haddress : overlapped ≠ 0) (hleft : lookup state.pending overlapped = some receive) :
    ∃ next, run step state [.start overlapped, .complete overlapped true 1,
        .gqcs thread state.queue.length, .capture thread true] = some next ∧
      ∃ frame ∈ next.frames, ¬ frame.Attributed := by
  have hthread : thread < state.threads.length := (List.getElem?_eq_some_iff.mp hidle).1
  let packet : Packet := ⟨⟨overlapped, none⟩, true, 1⟩
  let started : State :=
    { state with inFlight := packet.operation :: state.inFlight }
  let completed : State :=
    { started with
      inFlight := started.inFlight.filter fun other => other.overlapped ≠ overlapped
      queue := state.queue ++ [packet] }
  let dequeued : State :=
    { completed with
      queue := completed.queue.eraseIdx state.queue.length
      threads := state.threads.set thread (.completing [packet]) }
  let captured : State :=
    { dequeued with
      pending := remove state.pending overlapped
      frames := state.frames ++ [⟨packet.operation, receive, 1⟩]
      threads := dequeued.threads.set thread .idle }
  have hstart : step state (.start overlapped) = some started := if_pos hfree
  have hcomplete : step started (.complete overlapped true 1) = some completed := by
    simp [step, started, completed, packet]
  have hdequeue : step completed (.gqcs thread state.queue.length) = some dequeued := by
    simp [step, started, completed, dequeued, packet, hidle]
  have hcapture : step dequeued (.capture thread true) = some captured := by
    simp [step, started, completed, dequeued, captured, packet, hthread, capturePacket,
      haddress, hleft]
  refine ⟨captured, ?_, ⟨packet.operation, receive, 1⟩, ?_, ?_⟩
  · simp only [run_cons, hstart, hcomplete, hdequeue, hcapture, Option.bind_some, run_nil]
  · exact List.mem_append_right _ List.mem_cons_self
  · simp [S2CFrame.Attributed, packet]

/-- A failed completion leaves its entry behind, and the next operation on the address
is captured as that receive. -/
theorem not_frames_attributed_reuse :
    ¬ ∀ threads labels state, Visits step (initial threads) labels state →
      ∀ frame ∈ state.frames, frame.Attributed := by
  intro hall
  have hframe := hall 1 [.wsarecv 0 0x100 sampleReceive, .record 0 true,
      .complete 0x100 false 0, .gqcs 0 0, .start 0x100, .complete 0x100 true 16,
      .gqcs 0 0, .capture 0 true] _ (visits_end rfl)
    ⟨⟨0x100, none⟩, sampleReceive, 16⟩ List.mem_cons_self
  exact absurd hframe (by decide)

end FrogAgent.Protocol
