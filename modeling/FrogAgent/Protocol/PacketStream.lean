import FrogAgent.Lib.Incremental
import FrogAgent.Lib.LittleEndian
import FrogAgent.Protocol.FrameRing

/-!
# The raw packet stream

The TCP server of `protocol/capture.rs` writes each captured frame as a record
`[u8 direction][u64 socket][u32 length][payload]`; `scratch/listen_packets.py`
collects what it receives in a buffer and takes complete records off its front.
-/

namespace FrogAgent.PacketStream

open FrogAgent.Incremental
open FrogAgent.LittleEndian
open FrogAgent.Protocol

/-- The largest payload `capture` accepts. -/
def maxBytes : ℕ := 64 * 1024 * 1024

/-! ## The server -/

def directionByte : Direction → UInt8
  | .c2s => 0
  | .s2c => 1

/-- One record; the length is cast to `u32`. -/
def record (frame : RawFrame) : List UInt8 :=
  directionByte frame.direction :: (leBytes 8 frame.socketId.toNat ++
    leBytes 4 frame.bytes.length ++ frame.bytes)

/-- The bytes the server writes for the frames it has drained. -/
def stream (frames : List RawFrame) : List UInt8 := frames.flatMap record

/-! ## The listener -/

/-- What the listener prints of a record. -/
structure Packet where
  direction : Direction
  socketId : ℕ
  payload : List UInt8
  deriving DecidableEq

/-- `HEADER.size`, the size of `<BQI`. -/
def headerSize : ℕ := 13

/-- One round of the parse loop: `none` when the loop stops and waits for data. -/
def takeRecord (buf : List UInt8) : Option (Packet × List UInt8) :=
  match buf with
  | [] => none
  | direction :: fields =>
      if buf.length < headerSize then none
      else
        let socketId := leValue (fields.take 8)
        let length := leValue ((fields.drop 8).take 4)
        if buf.length < headerSize + length then none
        else some
          (⟨if direction = 0 then .c2s else .s2c, socketId,
              (buf.drop headerSize).take length⟩,
            buf.drop (headerSize + length))

structure Listener where
  buf : List UInt8
  emitted : List Packet

def Listener.connected : Listener := ⟨[], []⟩

/-! ## One record -/

/-- The packet a frame is sent as. -/
def packetOf (frame : RawFrame) : Packet :=
  ⟨frame.direction, frame.socketId.toNat, frame.bytes⟩

/-- A buffer that begins with the four parts of a record. -/
theorem takeRecord_parts (direction : UInt8) {socket length payload : List UInt8}
    (rest : List UInt8) (hsocket : socket.length = 8) (hlength : length.length = 4)
    (hpayload : payload.length = leValue length) :
    takeRecord (direction :: (socket ++ (length ++ (payload ++ rest)))) =
      some (⟨if direction = 0 then .c2s else .s2c, leValue socket, payload⟩,
        rest) := by
  have htake : (socket ++ (length ++ (payload ++ rest))).take 8 = socket :=
    List.take_left' hsocket
  have hdrop : (socket ++ (length ++ (payload ++ rest))).drop 8 =
      length ++ (payload ++ rest) := List.drop_left' hsocket
  have hfield : (length ++ (payload ++ rest)).take 4 = length :=
    List.take_left' hlength
  have hbody : (direction :: (socket ++ (length ++ (payload ++ rest)))).drop
      headerSize = payload ++ rest := by
    have hfields : (socket ++ length).length = 12 := by
      rw [List.length_append, hsocket, hlength]
    rw [headerSize, List.drop_succ_cons, ← List.append_assoc,
      List.drop_left' hfields]
  have hend : (direction :: (socket ++ (length ++ (payload ++ rest)))).drop
      (headerSize + leValue length) = rest := by
    rw [← List.drop_drop, hbody, List.drop_left' hpayload]
  have hsize : (direction :: (socket ++ (length ++ (payload ++ rest)))).length =
      headerSize + leValue length + rest.length := by
    simp only [List.length_cons, List.length_append, hsocket, hlength, hpayload,
      headerSize]
    omega
  simp only [takeRecord, hsize, htake, hdrop, hfield, hbody, hend,
    List.take_left' hpayload]
  rw [if_neg (by omega), if_neg (by omega)]

/-- The converse: what is taken off the buffer are the four parts of a record. -/
theorem parts_of_takeRecord {buf rest : List UInt8} {packet : Packet}
    (hnext : takeRecord buf = some (packet, rest)) :
    ∃ direction socket length, socket.length = 8 ∧ length.length = 4 ∧
      packet.payload.length = leValue length ∧
      packet = ⟨if direction = 0 then .c2s else .s2c, leValue socket,
        packet.payload⟩ ∧
      buf = direction :: (socket ++ (length ++ (packet.payload ++ rest))) := by
  cases buf with
  | nil => contradiction
  | cons direction fields =>
      simp only [takeRecord, Option.ite_none_left_eq_some, Option.some.injEq,
        Prod.mk.injEq, not_lt] at hnext
      obtain ⟨hheader, hlong, rfl, rfl⟩ := hnext
      simp only [headerSize, List.length_cons] at hheader hlong
      refine ⟨direction, fields.take 8, (fields.drop 8).take 4, ?_, ?_, ?_, rfl, ?_⟩
      · rw [List.length_take]
        omega
      · rw [List.length_take, List.length_drop]
        omega
      · rw [List.length_take, List.length_drop, List.length_cons, headerSize]
        omega
      · have hbody : (direction :: fields).drop headerSize =
            (fields.drop 8).drop 4 := by
          rw [headerSize, List.drop_succ_cons, List.drop_drop]
        rw [← List.drop_drop, hbody, List.take_append_drop, List.take_append_drop,
          List.take_append_drop]

theorem takeRecord_shorter {buf rest : List UInt8} {packet : Packet}
    (hnext : takeRecord buf = some (packet, rest)) : rest.length < buf.length := by
  obtain ⟨direction, socket, length, -, -, -, -, rfl⟩ := parts_of_takeRecord hnext
  simp only [List.length_cons, List.length_append]
  omega

theorem takeRecord_append {buf rest : List UInt8} {packet : Packet}
    (more : List UInt8) (hnext : takeRecord buf = some (packet, rest)) :
    takeRecord (buf ++ more) = some (packet, rest ++ more) := by
  obtain ⟨direction, socket, length, hsocket, hlength, hpayload, hpacket, rfl⟩ :=
    parts_of_takeRecord hnext
  rw [List.cons_append, List.append_assoc, List.append_assoc, List.append_assoc,
    takeRecord_parts direction _ hsocket hlength hpayload, ← hpacket]

theorem leValue_payloadLength {frame : RawFrame}
    (hsize : frame.bytes.length ≤ maxBytes) :
    leValue (leBytes 4 frame.bytes.length) = frame.bytes.length := by
  apply leValue_leBytes
  simp only [maxBytes] at hsize
  omega

/-- The listener reads back the record the server has written. -/
theorem takeRecord_record {frame : RawFrame}
    (hsize : frame.bytes.length ≤ maxBytes) (rest : List UInt8) :
    takeRecord (record frame ++ rest) = some (packetOf frame, rest) := by
  have hsocket : leValue (leBytes 8 frame.socketId.toNat) =
      frame.socketId.toNat := leValue_leBytes frame.socketId.toNat_lt
  have hdirection : (if directionByte frame.direction = 0 then Direction.c2s
      else .s2c) = frame.direction := by
    cases frame.direction <;> rfl
  rw [record, List.cons_append, List.append_assoc, List.append_assoc,
    takeRecord_parts _ rest (length_leBytes 8 _) (length_leBytes 4 _)
      (leValue_payloadLength hsize).symm, hsocket, hdirection]
  rfl

/-- A record that has not arrived in full stays in the buffer. -/
theorem takeRecord_of_short {frame : RawFrame} {buf rest : List UInt8}
    (hsize : frame.bytes.length ≤ maxBytes)
    (hcut : buf <+: record frame ++ rest)
    (hshort : buf.length < (record frame).length) : takeRecord buf = none := by
  by_contra hsome
  obtain ⟨⟨packet, left⟩, hnext⟩ := Option.ne_none_iff_exists'.mp hsome
  obtain ⟨more, hmore⟩ := hcut
  have hlater := takeRecord_append more hnext
  rw [hmore, takeRecord_record hsize] at hlater
  have hrest : rest = left ++ more := congrArg Prod.snd (Option.some.inj hlater)
  have hlengths := congrArg List.length hmore
  rw [hrest] at hlengths
  simp only [List.length_append] at hlengths
  omega

def recordDecoder : Decoder UInt8 Packet where
  next := takeRecord
  shorter := takeRecord_shorter
  extends_right := takeRecord_append

theorem recordDecoder_next (buf : List UInt8) :
    recordDecoder.next buf = takeRecord buf := rfl

/-- `recv` has returned data: collect it and print the records now complete. -/
def Listener.receive (listener : Listener) (data : List UInt8) : Listener :=
  let (packets, buf) := recordDecoder.drain (listener.buf ++ data)
  ⟨buf, listener.emitted ++ packets⟩

/-- The receive loop; an empty result means that the connection is closed. -/
def Listener.listen (listener : Listener) : List (List UInt8) → Listener
  | [] => listener
  | data :: rest =>
      if data = [] then listener else (listener.receive data).listen rest

/-! ## Whole streams -/

/-- The frames whose records are complete within the first `received` bytes. -/
def wholeFrames : List RawFrame → ℕ → List RawFrame
  | [], _ => []
  | frame :: frames, received =>
      if (record frame).length ≤ received then
        frame :: wholeFrames frames (received - (record frame).length)
      else []

theorem stream_cons (frame : RawFrame) (frames : List RawFrame) :
    stream (frame :: frames) = record frame ++ stream frames :=
  List.flatMap_cons

theorem wholeFrames_all (frames : List RawFrame) :
    wholeFrames frames (stream frames).length = frames := by
  induction frames with
  | nil => rfl
  | cons frame frames ih =>
      have hrest : (record frame ++ stream frames).length - (record frame).length =
          (stream frames).length := by
        rw [List.length_append]
        omega
      have hfits : (record frame).length ≤ (record frame ++ stream frames).length := by
        rw [List.length_append]
        omega
      rw [stream_cons, wholeFrames, if_pos hfits, hrest, ih]

/-- Draining what has arrived of a stream yields the frames that are complete,
and a buffer with the bytes behind them. -/
theorem drain_received {frames : List RawFrame} {buf : List UInt8}
    (hsizes : ∀ frame ∈ frames, frame.bytes.length ≤ maxBytes)
    (hcut : buf <+: stream frames) :
    recordDecoder.drain buf =
      ((wholeFrames frames buf.length).map packetOf,
        buf.drop (stream (wholeFrames frames buf.length)).length) := by
  induction frames generalizing buf with
  | nil =>
      have hempty : buf = [] := List.prefix_nil.mp hcut
      rw [hempty]
      rfl
  | cons frame frames ih =>
      have hsize := hsizes frame List.mem_cons_self
      rw [stream_cons] at hcut
      rw [wholeFrames]
      split
      · rename_i hwhole
        obtain ⟨rest, rfl⟩ : record frame <+: buf :=
          List.prefix_of_prefix_length_le (List.prefix_append _ _) hcut hwhole
        have hrest : rest <+: stream frames :=
          (List.prefix_append_right_inj (record frame)).mp hcut
        have hlater := ih (fun other hother =>
          hsizes other (List.mem_cons_of_mem frame hother)) hrest
        have hlength : (record frame ++ rest).length - (record frame).length =
            rest.length := by
          rw [List.length_append]
          omega
        have hnext : recordDecoder.next (record frame ++ rest) =
            some (packetOf frame, rest) := by
          rw [recordDecoder_next, takeRecord_record hsize]
        rw [Decoder.drain_of_some hnext, hlater, hlength, stream_cons,
          List.length_append, List.map_cons, List.drop_length_add_append]
      · rename_i hpartial
        have hnext : recordDecoder.next buf = none := by
          rw [recordDecoder_next]
          exact takeRecord_of_short hsize hcut (Nat.lt_of_not_le hpartial)
        rw [Decoder.drain_of_none hnext]
        rfl

/-- The listener loop prints the records of what it has received, however the
data was cut into pieces. -/
theorem listen_eq_drain {chunks : List (List UInt8)}
    (hchunks : ∀ chunk ∈ chunks, chunk ≠ []) (listener : Listener)
    (hdrained : recordDecoder.drain listener.buf = ([], listener.buf)) :
    listener.listen chunks =
      ⟨(recordDecoder.drain (listener.buf ++ chunks.flatten)).2,
        listener.emitted ++
          (recordDecoder.drain (listener.buf ++ chunks.flatten)).1⟩ := by
  induction chunks generalizing listener with
  | nil =>
      rw [List.flatten_nil, List.append_nil, hdrained, List.append_nil]
      rfl
  | cons data rest ih =>
      have hdata : data ≠ [] := hchunks data List.mem_cons_self
      have hrest := ih (fun chunk hchunk =>
        hchunks chunk (List.mem_cons_of_mem data hchunk)) (listener.receive data)
          (Decoder.drain_drain _)
      rw [Listener.listen, if_neg hdata, hrest, List.flatten_cons,
        ← List.append_assoc, Decoder.drain_append _ (listener.buf ++ data)]
      simp only [Listener.receive, List.append_assoc]

theorem listen_connected {chunks : List (List UInt8)}
    (hchunks : ∀ chunk ∈ chunks, chunk ≠ []) :
    Listener.connected.listen chunks =
      ⟨(recordDecoder.drain chunks.flatten).2,
        (recordDecoder.drain chunks.flatten).1⟩ := by
  have hlisten := listen_eq_drain hchunks Listener.connected rfl
  rw [hlisten]
  rfl

/-- For every list of frames the server may send and every way the connection cuts
their records into pieces, the listener prints exactly these frames and ends with
an empty buffer; of a stream that is cut short it prints exactly the frames that
have arrived whole. -/
theorem listener_prints_frames (frames : List RawFrame)
    (hsizes : ∀ frame ∈ frames, frame.bytes.length ≤ maxBytes)
    (chunks : List (List UInt8)) (hchunks : ∀ chunk ∈ chunks, chunk ≠ []) :
    (chunks.flatten = stream frames →
      Listener.connected.listen chunks = ⟨[], frames.map packetOf⟩) ∧
    (chunks.flatten <+: stream frames →
      (Listener.connected.listen chunks).emitted =
        (wholeFrames frames chunks.flatten.length).map packetOf) := by
  rw [listen_connected hchunks]
  constructor
  · intro hall
    have hdrain := drain_received hsizes (List.prefix_rfl (l := stream frames))
    rw [hall, hdrain, wholeFrames_all, List.drop_length]
  · intro hcut
    rw [drain_received hsizes hcut]

def samplePackets : List RawFrame :=
  [⟨0, .c2s, 0x1F4, [1, 2, 3]⟩, ⟨5, .s2c, 0x1F5, []⟩]

/-- Two frames, received in pieces that cut a header and a payload. -/
theorem listener_prints_samplePackets :
    Listener.connected.listen
        [(stream samplePackets).take 5, ((stream samplePackets).drop 5).take 10,
          (stream samplePackets).drop 15] =
      ⟨[], samplePackets.map packetOf⟩ :=
  (listener_prints_frames samplePackets (by decide +kernel) _ (by decide +kernel)).1
    (by decide +kernel)

end FrogAgent.PacketStream
