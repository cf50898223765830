/-
# `Alex.Acknowledge` — every command is acknowledged once

The Pi sends frames and the Arduino reads bytes: a call of `loop()` may find half a
frame, or the end of one and the start of the next.  It still answers frame by frame,
in the call that completes the frame:

    frame                            the robot                  sent
    HELLO                            as it was                  nothing
    a command                        obeys it                   RESP_OK, after RESP_STATUS if it asks
    140 bytes that fail a test       as it was                  RESP_BAD_PACKET or RESP_BAD_CHECKSUM

`Acknowledges` is the history that says so; the other steps of it are quiet.  What is
sent is told by what `deserialize` makes of it: `IsCode`, `IsStatus`.
-/
import Alex.Command
import Alex.Delivery

namespace Alex

open Cells Blocks

/-! ## What comes in -/

/-- A frame's worth of bytes that fail the magic number or the checksum. -/
structure Garbled where
  bytes : List UInt8
  length_eq : bytes.length = packetSize
  dataSize_le : (dataSize (chunkBuffer bytes)).toNat ≤ maxDataSize
  fails : verdict bytes = .bad ∨ verdict bytes = .checksumBad

/-- A frame as the Arduino meets it: HELLO, what `handleCommand` on the Pi forwards of a
message in its `buffer`, or what has become of a frame. -/
inductive Incoming where
  | hello (helloPacket : TPacket) (comms : Nat → UInt8)
  | command (commandPacket : TPacket) (comms buffer : Nat → UInt8) (packet : TPacket)
      (forwarded : handleCommand commandPacket buffer = some packet)
  | garbled (frame : Garbled)

def Incoming.bytes : Incoming → List UInt8
  | .hello helloPacket comms => sendHello helloPacket comms
  | .command _ comms _ packet _ => uartSendPacket comms packet
  | .garbled frame => frame.bytes

def Input.bytes : Input → List UInt8
  | .int0 | .int1 => []
  | .loop input => input.bytes

theorem Incoming.length_bytes (f : Incoming) : f.bytes.length = packetSize := by
  cases f with
  | hello helloPacket comms => exact length_serialize ..
  | command _ comms _ packet _ => exact length_serialize ..
  | garbled frame => exact frame.length_eq

theorem Incoming.dataSize_le (f : Incoming) :
    (dataSize (chunkBuffer f.bytes)).toNat ≤ maxDataSize := by
  cases f with
  | hello helloPacket comms => exact dataSize_serialize comms (TPacket.length_bytes_le _)
  | command _ comms _ packet _ => exact dataSize_serialize comms packet.length_bytes_le
  | garbled frame => exact frame.dataSize_le

/-! ## What goes out -/

def Event.frame? : Event → Option (List UInt8)
  | .sent frame => some frame
  | .handled _ _ _ | .autoStop _ | .idle => none

def sentFrames (events : List Event) : List (List UInt8) := events.filterMap Event.frame?

theorem sentFrames_append (events events' : List Event) :
    sentFrames (events ++ events') = sentFrames events ++ sentFrames events' :=
  List.filterMap_append

theorem sentFrames_map (frames : List (List UInt8)) :
    sentFrames (frames.map Event.sent) = frames := by
  induction frames with
  | nil => rfl
  | cons f fs ih => exact congrArg (f :: ·) ih

theorem sentFrames_check (r : Robot) : sentFrames r.check.2 = [] := by
  rw [sentFrames, List.filterMap_eq_nil_iff]
  intro e he
  rcases Robot.mem_check he with ⟨_, rfl⟩ | rfl
  · rfl
  · rfl

/-- **Step.**  A call of `loop()` is quiet or answers the next frame; what it leaves
pending is in front of what is still to come. -/
theorem acknowledges_loop {s : Firmware} {input : LoopInput} (hb : s.uart.assembler.Between)
    (hlen : input.bytes.length ≤ packetSize) {rest : List UInt8} {frames : List Incoming}
    (hbytes : s.uart.assembler.pending ++ (input.bytes ++ rest) = frames.flatMap Incoming.bytes) :
    (s.loop input).1.uart.assembler.Between ∧
    (((s.loop input).1.uart.assembler.pending ++ rest = frames.flatMap Incoming.bytes ∧
        (s.loop input).1.robot = s.robot.check.1 ∧ (s.loop input).2 = s.robot.check.2) ∨
      ∃ f later, frames = f :: later ∧
        (s.loop input).1.uart.assembler.pending ++ rest = later.flatMap Incoming.bytes ∧
        f.bytes <+: s.uart.assembler.pending ++ input.bytes ∧
        (s.loop input).1.robot = (s.robot.reactTo input f.bytes).1.check.1 ∧
        (s.loop input).2 = (s.robot.reactTo input f.bytes).2 ++
          (s.robot.reactTo input f.bytes).1.check.2) := by
  obtain ⟨hb', hpush⟩ := loop_push hb hlen
  refine ⟨hb', ?_⟩
  rcases push_flatMap (by decide) Incoming.length_bytes hbytes with
    hp | ⟨f, later, r, rfl, hp, heq, hrest⟩
  · rw [hp] at hpush
    obtain ⟨hpending, hquiet⟩ := hpush
    refine .inl ⟨?_, hquiet⟩
    rw [hpending, List.append_assoc]
    exact hbytes
  · rw [hp] at hpush
    obtain ⟨hpending, hreact⟩ := hpush
    refine .inr ⟨f, later, rfl, ?_, ?_, hreact f.dataSize_le⟩
    · rw [hpending]
      exact hrest
    · rw [heq]
      exact List.prefix_append _ _

end Alex
