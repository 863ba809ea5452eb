import FrogAgent.Protocol.PacketStream
import FrogAgent.Protocol.ScatterCapture

/-!
# The packet server

`start_tcp_server` of `protocol/capture.rs` next to the detours that fill its ring.  Captures
on any thread, the rounds of the server loop, clients that connect and writes that fail come
in any order.  What the listeners print, over all connections, is a part of what has been
captured, in order and without repetition, and all of it where nothing is dropped.
-/

namespace FrogAgent.PacketServer

open FrogAgent.ByteMemory
open FrogAgent.LongestSuffix
open FrogAgent.PacketStream
open FrogAgent.Protocol
open FrogAgent.Run

/-! ## The server -/

def maxFrames : ℕ := 65536

/-- The server thread, with the ring it shares with the detours.  Of each client the bytes
that were written to it are kept. -/
structure Server where
  ring : FrameRing
  client : Option (List UInt8)
  closed : List (List UInt8)

/-- The listener is bound and the ring is fresh. -/
def Server.started : Server := ⟨FrameRing.new maxFrames captureMaxBytes, none, []⟩

/-- How `write_all` ends: an error may come after any number of bytes. -/
inductive Written where
  | all
  | failed (count : ℕ)
  deriving DecidableEq

/-- What may happen next.  A capture runs in the state of its thread, which says whether the
ring is locked there; a round of the loop finds it locked or not. -/
inductive Label where
  | capture (shared : CaptureState) (direction : Direction) (socketId : UInt64)
      (ptr len : ℕ)
  | accept
  | acceptFailed
  | round (contended : Bool) (written : Written)

/-- One round of the loop that serves a client. -/
def Server.serve (server : Server) (sent : List UInt8) (written : Written) : Server :=
  let (frames, ring) := server.ring.drain
  let buf := stream frames
  if buf = [] then { server with ring := ring }
  else
    match written with
    | .all => { server with ring := ring, client := some (sent ++ buf) }
    | .failed count =>
        ⟨ring, none, server.closed ++ [sent ++ buf.take count]⟩

/-- The ring that a capture leaves behind, run on a thread in this state. -/
def captureInto (ring : FrameRing) (shared : CaptureState) (direction : Direction)
    (socketId : UInt64) (ptr len : ℕ) : FrameRing :=
  (capture direction socketId ptr len ⟨true, shared.withRing ring⟩).2.1.shared.ring

def step (server : Server) : Label → Option Server
  | .capture shared direction socketId ptr len =>
      some { server with ring := captureInto server.ring shared direction socketId ptr len }
  | .accept =>
      match server.client with
      | none => some { server with client := some [] }
      | some _ => none
  | .acceptFailed => if server.client = none then some server else none
  | .round contended written =>
      match server.client with
      | none => none
      | some sent => some (if contended then server else server.serve sent written)

/-- The connections so far, oldest first. -/
def Server.sessions (server : Server) : List (List UInt8) :=
  server.closed ++ server.client.toList

/-! ## What is captured -/

/-- The frame that a capture hands to the ring, if it takes the lock. -/
def Label.frames : Label → List RawFrame
  | .capture shared direction socketId ptr len =>
      if shared.ringLocked = true ∨ ptr = 0 ∨ len = 0 ∨ captureMaxBytes < len then []
      else [⟨shared.nowMs, direction, socketId, load shared.memory ptr len⟩]
  | _ => []

/-- The round takes the frames out of the ring. -/
def Label.drains : Label → Bool
  | .round contended _ => !contended
  | _ => false

/-- The server with its history: every captured frame, and those since the last drain. -/
structure History where
  server : Server
  captured : List RawFrame
  backlog : List RawFrame

def History.started : History := ⟨.started, [], []⟩

def observe (history : History) (label : Label) : Option History :=
  (step history.server label).map fun server =>
    ⟨server, history.captured ++ label.frames,
      if label.drains then [] else history.backlog ++ label.frames⟩

/-! ## What is printed -/

/-- The pieces in which a listener receives what its connection was sent, or a part of it. -/
def Receives (chunks : List (List UInt8)) (sent : List UInt8) : Prop :=
  (∀ chunk ∈ chunks, chunk ≠ []) ∧ chunks.flatten <+: sent

def prints (chunks : List (List UInt8)) : List PacketStream.Packet :=
  (Listener.connected.listen chunks).emitted

/-- The listener prints the frames of which it has received the whole record. -/
def PrintsWhole (chunks : List (List UInt8)) (frames : List RawFrame) : Prop :=
  prints chunks = (wholeFrames frames chunks.flatten.length).map packetOf

def Small (frame : RawFrame) : Prop := frame.bytes.length ≤ captureMaxBytes

theorem wholeFrames_isPrefix (frames : List RawFrame) (count : ℕ) :
    wholeFrames frames count <+: frames := by
  induction frames generalizing count with
  | nil => exact List.prefix_rfl
  | cons frame frames ih =>
      rw [wholeFrames]
      split
      · exact (List.prefix_cons_inj frame).mpr (ih _)
      · exact List.nil_prefix

theorem Receives.printsWhole {chunks : List (List UInt8)} {sent : List UInt8}
    {frames : List RawFrame} (hreceives : Receives chunks sent)
    (hsent : sent <+: stream frames) (hsmall : ∀ frame ∈ frames, Small frame) :
    PrintsWhole chunks frames := by
  obtain ⟨hchunks, hpart⟩ := hreceives
  rw [PrintsWhole, prints, listen_connected hchunks,
    drain_received hsmall (hpart.trans hsent)]

/-- Whatever part of its records each listener has received, the packets it prints stand
among its frames in order. -/
theorem flatMap_prints_sublist {received : List (List (List UInt8))}
    {handed : List (List RawFrame)} (hprints : List.Forall₂ PrintsWhole received handed) :
    (received.flatMap prints).Sublist (handed.flatten.map packetOf) := by
  induction hprints with
  | nil => exact List.Sublist.refl _
  | @cons chunks frames received handed hfirst _ ih =>
      rw [List.flatMap_cons, List.flatten_cons, List.map_append, hfirst]
      exact ((wholeFrames_isPrefix frames _).sublist.map packetOf).append ih

/-! ## One capture -/

theorem shared_capture (direction : Direction) (socketId : UInt64) (ptr len : ℕ)
    (thread : CaptureThread) :
    (capture direction socketId ptr len thread).2.1.shared =
      if ptr = 0 ∨ len = 0 ∨ captureMaxBytes < len then thread.shared
      else thread.shared.pushFrame
        ⟨thread.shared.nowMs, direction, socketId, load thread.shared.memory ptr len⟩ := by
  by_cases hskip : ptr = 0 ∨ len = 0 ∨ captureMaxBytes < len
  · rw [if_pos hskip]
    simp only [capture, if_pos hskip]
    rfl
  · rw [if_neg hskip]
    simp only [capture, if_neg hskip]
    rfl

theorem Label.small_frames (label : Label) : ∀ frame ∈ label.frames, Small frame := by
  intro frame hframe
  cases label with
  | capture shared direction socketId ptr len =>
      simp only [Label.frames] at hframe
      split at hframe
      · contradiction
      · rename_i htaken
        obtain rfl := List.mem_singleton.mp hframe
        simp only [not_or, not_lt] at htaken
        simpa [Small] using htaken.2.2.2
  | accept => contradiction
  | acceptFailed => contradiction
  | round contended written => contradiction

theorem byteSize_le_of_keeps {backlog : List RawFrame} {ring : FrameRing}
    (hkeeps : Keeps maxFrames captureMaxBytes backlog ring)
    (hsmall : ∀ frame ∈ backlog, Small frame) : byteSize ring.frames ≤ captureMaxBytes := by
  have hwithin := hkeeps.longest.within
  rcases hwithin.2 with hbytes | hsingle
  · exact hbytes
  · cases hframes : ring.frames with
    | nil => exact Nat.zero_le _
    | cons frame frames =>
        have hrest : frames = [] := by
          rw [hframes, List.length_cons] at hsingle
          exact List.length_eq_zero_iff.mp (by omega)
        have hmem : frame ∈ backlog := by
          apply hkeeps.longest.suffix.subset
          rw [hframes]
          exact List.mem_cons_self
        rw [hrest, byteSize_cons]
        exact hsmall frame hmem

/-- A frame of a size that is captured never overflows the total of the ring, however many
were pushed before. -/
theorem keeps_push {backlog : List RawFrame} {ring : FrameRing} {frame : RawFrame}
    (hkeeps : Keeps maxFrames captureMaxBytes backlog ring)
    (hbacklog : ∀ frame ∈ backlog, Small frame) (hframe : Small frame) :
    ∃ next, ring.push frame = .ok next ∧
      Keeps maxFrames captureMaxBytes (backlog ++ [frame]) next := by
  have hbytes := byteSize_le_of_keeps hkeeps hbacklog
  have hself : Keeps maxFrames captureMaxBytes ring.frames ring :=
    ⟨hkeeps.maxFrames_eq, hkeeps.maxBytes_eq, hkeeps.totalBytes_eq,
      isLongest_self hkeeps.longest.within⟩
  have hfits : byteSize ring.frames + frame.bytes.length < 2 ^ 64 := by
    simp only [Small, captureMaxBytes] at hbytes hframe
    omega
  obtain ⟨next, hpush, hnext⟩ := hself.push frame hfits
  exact ⟨next, hpush, hnext.maxFrames_eq, hnext.maxBytes_eq, hnext.totalBytes_eq,
    hkeeps.longest.concat Admissible.sublist hnext.longest⟩

theorem captureInto_of_no_frame {ring : FrameRing} {shared : CaptureState}
    {direction : Direction} {socketId : UInt64} {ptr len : ℕ}
    (hskip : shared.ringLocked = true ∨ ptr = 0 ∨ len = 0 ∨ captureMaxBytes < len) :
    captureInto ring shared direction socketId ptr len = ring := by
  rw [captureInto, shared_capture]
  split
  · rfl
  · rename_i hrange
    have hlocked : shared.ringLocked = true := hskip.resolve_right hrange
    have hheld : (shared.withRing ring).ringLocked = true := hlocked
    rw [CaptureState.pushFrame, if_pos hheld]
    rfl

theorem captureInto_of_push {ring next : FrameRing} {shared : CaptureState}
    {direction : Direction} {socketId : UInt64} {ptr len : ℕ}
    (htaken : ¬ (shared.ringLocked = true ∨ ptr = 0 ∨ len = 0 ∨ captureMaxBytes < len))
    (hpush : ring.push ⟨shared.nowMs, direction, socketId, load shared.memory ptr len⟩ =
      .ok next) :
    captureInto ring shared direction socketId ptr len = next := by
  rw [not_or] at htaken
  have hfree : ¬ (shared.withRing ring).ringLocked = true := htaken.1
  have hsame : (shared.withRing ring).ring.push ⟨(shared.withRing ring).nowMs, direction,
      socketId, load (shared.withRing ring).memory ptr len⟩ = .ok next := hpush
  rw [captureInto, shared_capture, if_neg htaken.2, CaptureState.pushFrame, if_neg hfree,
    hsame]

theorem keeps_captureInto {backlog : List RawFrame} {ring : FrameRing}
    (hkeeps : Keeps maxFrames captureMaxBytes backlog ring)
    (hbacklog : ∀ frame ∈ backlog, Small frame) (shared : CaptureState)
    (direction : Direction) (socketId : UInt64) (ptr len : ℕ) :
    Keeps maxFrames captureMaxBytes
      (backlog ++ (Label.capture shared direction socketId ptr len).frames)
      (captureInto ring shared direction socketId ptr len) := by
  have hsmall := (Label.capture shared direction socketId ptr len).small_frames
  simp only [Label.frames] at hsmall ⊢
  split at hsmall
  · rename_i hskip
    rw [if_pos hskip, List.append_nil, captureInto_of_no_frame hskip]
    exact hkeeps
  · rename_i htaken
    obtain ⟨next, hpush, hnext⟩ :=
      keeps_push hkeeps hbacklog (hsmall _ (List.mem_singleton_self _))
    rw [if_neg htaken, captureInto_of_push htaken hpush]
    exact hnext

/-- With room for its frame a capture drops nothing. -/
theorem captureInto_of_hasRoom {ring : FrameRing} {shared : CaptureState}
    {direction : Direction} {socketId : UInt64} {ptr len : ℕ}
    (hroom : ring.HasRoom (Label.capture shared direction socketId ptr len).frames) :
    captureInto ring shared direction socketId ptr len =
      ring.grown (Label.capture shared direction socketId ptr len).frames := by
  simp only [Label.frames] at hroom ⊢
  split at hroom
  · rename_i hskip
    rw [if_pos hskip, captureInto_of_no_frame hskip, grown_nil]
  · rename_i htaken
    rw [if_neg htaken, captureInto_of_push htaken (HasRoom.push hroom)]

/-! ## One round -/

/-- What a round does with the frames it has drained. -/
theorem serve_cases (server : Server) (sent : List UInt8) (written : Written)
    (hclient : server.client = some sent) :
    (server.serve sent written).ring = server.ring.drain.2 ∧
      ((server.serve sent written).client = some (sent ++ stream server.ring.frames) ∧
          (server.serve sent written).closed = server.closed ∨
        (server.serve sent written).client = none ∧ ∃ count,
          (server.serve sent written).closed =
            server.closed ++ [sent ++ (stream server.ring.frames).take count] ∧
          written = .failed count) := by
  by_cases hempty : stream server.ring.frames = []
  · simp only [Server.serve, FrameRing.drain, hempty, if_true, hclient, List.append_nil,
      true_or, and_self]
  · cases written with
    | all =>
        simp only [Server.serve, FrameRing.drain, hempty, if_false, true_or, and_self]
    | failed count =>
        simp only [Server.serve, FrameRing.drain, hempty, if_false, true_and]
        exact .inr ⟨count, rfl, rfl⟩

/-! ## Whole runs -/

/-- The frames that were handed to the connections: to those that are closed and to the
one that is open. -/
structure Handed where
  closed : List (List RawFrame)
  current : List RawFrame

def Handed.all (handed : Handed) : List RawFrame := handed.closed.flatten ++ handed.current

/-- Each connection was sent the records of the frames handed to it, the last batch of a
closed one perhaps in part; the ring holds what the caps leave of the frames since. -/
structure Delivers (history : History) (handed : Handed) : Prop where
  keeps : Keeps maxFrames captureMaxBytes history.backlog history.server.ring
  small : ∀ frame ∈ history.captured, Small frame
  ordered : (handed.all ++ history.backlog).Sublist history.captured
  closed_sent : List.Forall₂ (fun sent frames => sent <+: stream frames)
    history.server.closed handed.closed
  current_sent : ∀ sent, history.server.client = some sent → sent = stream handed.current
  no_current : history.server.client = none → handed.current = []

section Delivers

variable {history : History} {handed : Handed}

theorem Delivers.backlog_small (hdelivers : Delivers history handed) :
    ∀ frame ∈ history.backlog, Small frame := by
  intro frame hframe
  apply hdelivers.small frame
  exact hdelivers.ordered.subset (List.mem_append_right _ hframe)

theorem delivers_started : Delivers History.started ⟨[], []⟩ where
  keeps := ⟨rfl, rfl, rfl, isLongest_self (admissible_nil _ _)⟩
  small := fun _ hframe => absurd hframe List.not_mem_nil
  ordered := List.Sublist.refl _
  closed_sent := .nil
  current_sent := fun _ hclient => absurd hclient (by rintro ⟨⟩)
  no_current := fun _ => rfl

theorem keeps_drained {backlog : List RawFrame} {ring : FrameRing}
    (hkeeps : Keeps maxFrames captureMaxBytes backlog ring) :
    Keeps maxFrames captureMaxBytes [] ring.drain.2 :=
  ⟨hkeeps.maxFrames_eq, hkeeps.maxBytes_eq, rfl, isLongest_self (admissible_nil _ _)⟩

theorem Delivers.capture (hdelivers : Delivers history handed) (shared : CaptureState)
    (direction : Direction) (socketId : UInt64) (ptr len : ℕ) :
    Delivers
      ⟨{ history.server with
          ring := captureInto history.server.ring shared direction socketId ptr len },
        history.captured ++ (Label.capture shared direction socketId ptr len).frames,
        history.backlog ++ (Label.capture shared direction socketId ptr len).frames⟩
      handed where
  keeps := keeps_captureInto hdelivers.keeps hdelivers.backlog_small shared direction
    socketId ptr len
  small := by
    intro frame hframe
    rcases List.mem_append.mp hframe with hold | hnew
    · exact hdelivers.small frame hold
    · exact (Label.capture shared direction socketId ptr len).small_frames frame hnew
  ordered := by
    rw [← List.append_assoc]
    exact hdelivers.ordered.append (List.Sublist.refl _)
  closed_sent := hdelivers.closed_sent
  current_sent := hdelivers.current_sent
  no_current := hdelivers.no_current

/-- A round hands the ring over to the client; where the write fails the connection is
closed with what got through. -/
theorem Delivers.serve (hdelivers : Delivers history handed) {sent : List UInt8}
    (hclient : history.server.client = some sent) (written : Written) :
    ∃ next : Handed,
      next.all = handed.all ++ history.server.ring.frames ∧
      Delivers ⟨history.server.serve sent written, history.captured, []⟩ next := by
  obtain ⟨hring, hend⟩ := serve_cases history.server sent written hclient
  have hsent := hdelivers.current_sent sent hclient
  have hkeeps : Keeps maxFrames captureMaxBytes [] (history.server.serve sent written).ring := by
    rw [hring]
    exact keeps_drained hdelivers.keeps
  have hordered : (handed.all ++ history.server.ring.frames).Sublist history.captured :=
    ((List.Sublist.refl _).append hdelivers.keeps.longest.suffix.sublist).trans
      hdelivers.ordered
  have hstream : stream (handed.current ++ history.server.ring.frames) =
      sent ++ stream history.server.ring.frames := by
    rw [hsent, stream, stream, stream, List.flatMap_append]
  rcases hend with ⟨hopen, hclosed⟩ | ⟨hshut, count, hclosed, -⟩
  · refine ⟨⟨handed.closed, handed.current ++ history.server.ring.frames⟩, ?_,
      hkeeps, hdelivers.small, ?_, ?_, ?_, ?_⟩
    · rw [Handed.all, Handed.all, List.append_assoc]
    · rw [Handed.all, List.append_nil, ← List.append_assoc]
      exact hordered
    · rw [hclosed]
      exact hdelivers.closed_sent
    · intro later hlater
      rw [hopen, Option.some.injEq] at hlater
      rw [← hlater, hstream]
    · intro hnone
      rw [hopen] at hnone
      contradiction
  · refine ⟨⟨handed.closed ++ [handed.current ++ history.server.ring.frames], []⟩, ?_,
      hkeeps, hdelivers.small, ?_, ?_, ?_, ?_⟩
    · rw [Handed.all, Handed.all, List.flatten_concat, List.append_nil, List.append_assoc]
    · rw [Handed.all, List.append_nil, List.append_nil, List.flatten_concat,
        ← List.append_assoc]
      exact hordered
    · rw [hclosed]
      apply List.rel_append hdelivers.closed_sent
      apply List.Forall₂.cons _ .nil
      rw [hstream]
      exact (List.prefix_append_right_inj sent).mpr (List.take_prefix _ _)
    · intro later hlater
      rw [hshut] at hlater
      contradiction
    · exact fun _ => rfl

/-- A client that connects has been sent nothing. -/
theorem Delivers.accept (hdelivers : Delivers history handed)
    (hclient : history.server.client = none) :
    Delivers { history with server := { history.server with client := some [] } } handed where
  keeps := hdelivers.keeps
  small := hdelivers.small
  ordered := hdelivers.ordered
  closed_sent := hdelivers.closed_sent
  current_sent := by
    intro sent hsent
    rw [← Option.some.inj hsent, hdelivers.no_current hclient]
    rfl
  no_current := by
    intro hnone
    contradiction

theorem history_of_idle {label : Label} (server : Server) (hframes : label.frames = [])
    (hdrains : label.drains = false) :
    (⟨server, history.captured ++ label.frames,
      if label.drains then [] else history.backlog ++ label.frames⟩ : History) =
        { history with server := server } := by
  rw [hframes, if_neg (Bool.eq_false_iff.mp hdrains), List.append_nil, List.append_nil]

/-- One step, whatever happens next: the frames of an uncontended round move from the ring
to the connection, and nothing else is handed over. -/
theorem Delivers.step {label : Label} {next : History}
    (hdelivers : Delivers history handed) (hstep : observe history label = some next) :
    ∃ later : Handed,
      later.all = handed.all ++
        (if label.drains then history.server.ring.frames else []) ∧
      Delivers next later := by
  obtain ⟨server, hserver, rfl⟩ := Option.map_eq_some_iff.mp hstep
  cases label with
  | capture shared direction socketId ptr len =>
      cases hserver
      exact ⟨handed, (List.append_nil _).symm,
        hdelivers.capture shared direction socketId ptr len⟩
  | accept =>
      simp only [PacketServer.step] at hserver
      split at hserver
      · rename_i hclient
        cases hserver
        refine ⟨handed, (List.append_nil _).symm, ?_⟩
        rw [history_of_idle _ rfl rfl]
        exact hdelivers.accept hclient
      · contradiction
  | acceptFailed =>
      simp only [PacketServer.step] at hserver
      split at hserver
      · cases hserver
        refine ⟨handed, (List.append_nil _).symm, ?_⟩
        rw [history_of_idle _ rfl rfl]
        exact hdelivers
      · contradiction
  | round contended written =>
      simp only [PacketServer.step] at hserver
      split at hserver
      · contradiction
      · rename_i sent hclient
        cases contended with
        | true =>
            rw [if_pos rfl] at hserver
            cases hserver
            refine ⟨handed, (List.append_nil _).symm, ?_⟩
            rw [history_of_idle _ rfl rfl]
            exact hdelivers
        | false =>
            cases hserver
            obtain ⟨later, hall, hlater⟩ := hdelivers.serve hclient written
            refine ⟨later, hall, ?_⟩
            simp only [Label.frames, Label.drains, List.append_nil]
            exact hlater

end Delivers

theorem delivers_run {labels : List Label} {history : History}
    (hrun : run observe .started labels = some history) :
    ∃ handed, Delivers history handed :=
  @Visits.invariant _ _ _ _ (fun history => ∃ handed, Delivers history handed) _ _
    (visits_end hrun) ⟨_, delivers_started⟩
    fun _ _ _ hinv hstep => by
      obtain ⟨handed, hdelivers⟩ := hinv
      obtain ⟨later, -, hlater⟩ := hdelivers.step hstep
      exact ⟨later, hlater⟩

/-! ## What the listeners print -/

theorem printsWhole_of_receives {received : List (List (List UInt8))}
    {sessions : List (List UInt8)} (hreceived : List.Forall₂ Receives received sessions)
    {frames : List (List RawFrame)}
    (hsent : List.Forall₂ (fun sent frames => sent <+: stream frames) sessions frames)
    (hsmall : ∀ frame ∈ frames.flatten, Small frame) :
    List.Forall₂ PrintsWhole received frames := by
  induction hreceived generalizing frames with
  | nil =>
      cases hsent
      exact .nil
  | @cons chunks sent received sessions hfirst _ ih =>
      cases hsent with
      | @cons _ batch _ rest hbatch hrest =>
          rw [List.flatten_cons] at hsmall
          apply List.Forall₂.cons
          · exact hfirst.printsWhole hbatch fun frame hframe =>
              hsmall frame (List.mem_append_left _ hframe)
          · exact ih hrest fun frame hframe =>
              hsmall frame (List.mem_append_right _ hframe)

/-- The frames handed over, connection by connection. -/
theorem Delivers.sessions_sent {history : History} {handed : Handed}
    (hdelivers : Delivers history handed) :
    ∃ frames : List (List RawFrame), frames.flatten = handed.all ∧
      List.Forall₂ (fun sent frames => sent <+: stream frames) history.server.sessions
        frames ∧
      ∀ sent, history.server.client = some sent →
        ∃ last ∈ frames.getLast?, sent = stream last := by
  cases hclient : history.server.client with
  | none =>
      refine ⟨handed.closed, ?_, ?_, fun _ hsome => absurd hsome (by rintro ⟨⟩)⟩
      · rw [Handed.all, hdelivers.no_current hclient, List.append_nil]
      · rw [Server.sessions, hclient, Option.toList_none, List.append_nil]
        exact hdelivers.closed_sent
  | some sent =>
      have hsent := hdelivers.current_sent sent hclient
      refine ⟨handed.closed ++ [handed.current], List.flatten_concat, ?_, ?_⟩
      · rw [Server.sessions, hclient, Option.toList_some]
        apply List.rel_append hdelivers.closed_sent
        apply List.Forall₂.cons _ .nil
        rw [hsent]
      · intro other hother
        rw [← Option.some.inj hother]
        exact ⟨handed.current, List.getLast?_concat, hsent⟩

theorem Delivers.printsWhole {history : History} {handed : Handed}
    (hdelivers : Delivers history handed) {received : List (List (List UInt8))}
    (hreceived : List.Forall₂ Receives received history.server.sessions) :
    ∃ frames : List (List RawFrame), frames.flatten = handed.all ∧
      List.Forall₂ PrintsWhole received frames := by
  obtain ⟨frames, hframes, hsent, -⟩ := hdelivers.sessions_sent
  refine ⟨frames, hframes, printsWhole_of_receives hreceived hsent ?_⟩
  intro frame hframe
  rw [hframes] at hframe
  exact hdelivers.small frame (hdelivers.ordered.subset (List.mem_append_left _ hframe))

/-- For every interleaving of captures, rounds of the server, connections and failing writes,
and however the listeners receive what their connections were sent, or a part of it: the
packets they print, one connection after the other, stand in this order among the captured
frames.  None is printed twice, out of order, across two frames or without being captured. -/
theorem listeners_print_captured {labels : List Label} {history : History}
    (hrun : run observe .started labels = some history)
    {received : List (List (List UInt8))}
    (hreceived : List.Forall₂ Receives received history.server.sessions) :
    (received.flatMap prints).Sublist (history.captured.map packetOf) := by
  obtain ⟨handed, hdelivers⟩ := delivers_run hrun
  obtain ⟨frames, hframes, hprints⟩ := hdelivers.printsWhole hreceived
  have hprinted := flatMap_prints_sublist hprints
  rw [hframes] at hprinted
  have hall : handed.all.Sublist history.captured :=
    (List.sublist_append_left _ _).trans hdelivers.ordered
  exact hprinted.trans (hall.map packetOf)

/-- A capture while nobody is connected, one while the ring is locked and one behind the
first; the first client leaves in the middle of the second record. -/
def sampleLabels : List Label :=
  [.capture sampleThread.shared .c2s 3 0x1000 2, .accept, .round false .all,
    .capture { sampleThread.shared with ringLocked := true } .c2s 3 0x1000 9,
    .capture sampleThread.shared .s2c 4 0x2000 1, .round true .all,
    .round false (.failed 7), .accept]

def sampleFrames : List RawFrame := [⟨0, .c2s, 3, [0, 0]⟩, ⟨0, .s2c, 4, [0]⟩]

theorem listeners_print_captured_sample :
    ∃ history, run observe .started sampleLabels = some history ∧
      history.captured = sampleFrames ∧
      ([[stream (sampleFrames.take 1)], []].flatMap prints).Sublist
        (history.captured.map packetOf) := by
  refine ⟨_, rfl, by decide, @listeners_print_captured sampleLabels _ rfl _ ?_⟩
  have hfirst : Receives [stream (sampleFrames.take 1)]
      (stream (sampleFrames.take 1) ++ (stream (sampleFrames.drop 1)).take 7) := by
    refine ⟨by decide, ?_⟩
    rw [List.flatten_singleton]
    exact List.prefix_append _ _
  exact .cons hfirst (.cons ⟨by decide, List.prefix_rfl⟩ .nil)

/-! ## Where nothing is dropped -/

/-- The ring has room for the frame of the capture. -/
def HasRoomFor (history : History) (label : Label) : Prop :=
  history.server.ring.HasRoom label.frames

instance (history : History) (label : Label) : Decidable (HasRoomFor history label) :=
  inferInstanceAs (Decidable (_ ∧ _))

/-- Every captured frame was handed over or is in the ring. -/
structure Accounts (history : History) (handed : Handed) : Prop extends
    Delivers history handed where
  all_frames : handed.all ++ history.server.ring.frames = history.captured
  fresh : history.server.ring.frames = history.backlog

theorem Accounts.step {history next : History} {handed : Handed} {label : Label}
    (haccounts : Accounts history handed) (hroom : HasRoomFor history label)
    (hstep : observe history label = some next) : ∃ later, Accounts next later := by
  obtain ⟨later, hall, hlater⟩ := haccounts.toDelivers.step hstep
  have hframes : next.server.ring.frames =
      (if label.drains then [] else history.server.ring.frames ++ label.frames) := by
    obtain ⟨server, hserver, rfl⟩ := Option.map_eq_some_iff.mp hstep
    cases label with
    | capture shared direction socketId ptr len =>
        cases hserver
        simp only [captureInto_of_hasRoom hroom]
        rfl
    | accept =>
        simp only [PacketServer.step] at hserver
        split at hserver
        · cases hserver
          exact (List.append_nil _).symm
        · contradiction
    | acceptFailed =>
        simp only [PacketServer.step] at hserver
        split at hserver
        · cases hserver
          exact (List.append_nil _).symm
        · contradiction
    | round contended written =>
        simp only [PacketServer.step] at hserver
        split at hserver
        · contradiction
        · rename_i sent hclient
          cases contended with
          | true =>
              rw [if_pos rfl] at hserver
              cases hserver
              exact (List.append_nil _).symm
          | false =>
              cases hserver
              exact congrArg FrameRing.frames (serve_cases _ _ written hclient).1
  obtain ⟨server, hserver, rfl⟩ := Option.map_eq_some_iff.mp hstep
  refine ⟨later, hlater, ?_, ?_⟩
  · rw [hall, hframes]
    cases hdrains : label.drains with
    | true =>
        have hnone : label.frames = [] := by
          cases label <;> first | rfl | contradiction
        simp only [if_true, List.append_nil, hnone]
        exact haccounts.all_frames
    | false =>
        simp only [Bool.false_eq_true, if_false, List.append_nil]
        rw [← List.append_assoc, haccounts.all_frames]
  · rw [hframes, haccounts.fresh]

/-- As long as the ring has room for each frame when it is captured, every captured frame
has been handed to exactly one connection, in order, or is still in the ring; a listener
prints those of its frames whose records reach it whole, and one that receives all it was
sent on the open connection prints all of them. -/
theorem captured_frames_accounted {labels : List Label} {history : History}
    (hrun : run observe .started labels = some history)
    (hroom : Meets observe HasRoomFor .started labels)
    {received : List (List (List UInt8))}
    (hreceived : List.Forall₂ Receives received history.server.sessions) :
    ∃ frames : List (List RawFrame),
      frames.flatten ++ history.server.ring.frames = history.captured ∧
      List.Forall₂ PrintsWhole received frames ∧
      (∀ sent, history.server.client = some sent →
        ∃ handed ∈ frames.getLast?, sent = stream handed) := by
  have haccounts : ∃ handed, Accounts history handed :=
    @Meets.invariant _ _ _ _ _ (fun history => ∃ handed, Accounts history handed) _ hroom
      ⟨_, delivers_started, rfl, rfl⟩
      (fun _ _ _ hinv hguard hstep => by
        obtain ⟨handed, haccounts⟩ := hinv
        exact haccounts.step hguard hstep)
      _ (visits_end hrun)
  obtain ⟨handed, haccounts⟩ := haccounts
  obtain ⟨frames, hframes, hsent, hlast⟩ := haccounts.sessions_sent
  refine ⟨frames, ?_, ?_, hlast⟩
  · rw [hframes]
    exact haccounts.all_frames
  · apply printsWhole_of_receives hreceived hsent
    intro frame hframe
    rw [hframes] at hframe
    apply haccounts.small frame
    exact haccounts.ordered.subset (List.mem_append_left _ hframe)

theorem captured_frames_accounted_sample :
    ∃ history, run observe .started sampleLabels = some history ∧
    ∃ frames : List (List RawFrame),
      frames.flatten ++ history.server.ring.frames = history.captured ∧
      List.Forall₂ PrintsWhole [[stream (sampleFrames.take 1)], []] frames ∧
      (∀ sent, history.server.client = some sent →
        ∃ handed ∈ frames.getLast?, sent = stream handed) := by
  refine ⟨_, rfl, @captured_frames_accounted sampleLabels _ rfl (by decide +kernel) _ ?_⟩
  have hfirst : Receives [stream (sampleFrames.take 1)]
      (stream (sampleFrames.take 1) ++ (stream (sampleFrames.drop 1)).take 7) := by
    refine ⟨by decide, ?_⟩
    rw [List.flatten_singleton]
    exact List.prefix_append _ _
  exact .cons hfirst (.cons ⟨by decide, List.prefix_rfl⟩ .nil)

/-! ## What a client is sent first -/

/-- At any time, whatever was captured and dropped before, the next uncontended round sends
the connected client the records of the longest suffix of the frames captured since the last
drain that the two caps of the ring allow, and leaves an empty ring. -/
theorem round_sends_longest_backlog {labels : List Label} {history : History}
    (hrun : run observe .started labels = some history) {sent : List UInt8}
    (hclient : history.server.client = some sent) :
    ∃ frames next,
      IsLongest (Admissible maxFrames captureMaxBytes) history.backlog frames ∧
      observe history (.round false .all) = some next ∧
      next.server.client = some (sent ++ stream frames) ∧
      next.server.ring = FrameRing.new maxFrames captureMaxBytes := by
  obtain ⟨handed, hdelivers⟩ := delivers_run hrun
  have hkeeps := hdelivers.keeps
  have hround : step history.server (.round false .all) =
      some (history.server.serve sent .all) := by
    simp only [PacketServer.step, hclient]
    rfl
  obtain ⟨hring, ⟨hopen, -⟩ | ⟨-, count, -, hfailed⟩⟩ :=
    serve_cases history.server sent .all hclient
  · refine ⟨history.server.ring.frames, ⟨_, _, _⟩, hkeeps.longest,
      congrArg (Option.map _) hround, hopen, ?_⟩
    · rw [hring, FrameRing.drain, FrameRing.new, hkeeps.maxFrames_eq, hkeeps.maxBytes_eq]
  · contradiction

theorem round_sends_longest_backlog_sample :
    ∃ history, run observe .started (sampleLabels.take 2) = some history ∧
    ∃ frames next,
      IsLongest (Admissible maxFrames captureMaxBytes) history.backlog frames ∧
      observe history (.round false .all) = some next ∧
      next.server.client = some ([] ++ stream frames) ∧
      next.server.ring = FrameRing.new maxFrames captureMaxBytes :=
  ⟨_, rfl, @round_sends_longest_backlog (sampleLabels.take 2) _ rfl _ rfl⟩

end FrogAgent.PacketServer
