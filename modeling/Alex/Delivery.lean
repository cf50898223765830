/-
# `Alex.Delivery` — a frame that is complete is handled

Between the link and the loop: when the bytes a call of `loop()` finds, behind those
that are pending from earlier calls, make up the frame of a packet, that call hands
this packet to `handlePacket`, whatever the stack held before.  With nothing to read
it hands over nothing.
-/
import Alex.Firmware
import Alex.Receive

namespace Alex

open Cells Blocks

/-- **Step.**  A call of `deserialize` holds back what does not fill a block; a block
that is complete is answered with its verdict, when nothing is read past it. -/
theorem Uart.deserialize_push {s : Uart} {len : Nat} (hb : s.assembler.Between)
    (hlen : len ≤ packetSize) :
    (s.deserialize len).1.assembler.Between ∧
    match push packetSize s.assembler.pending (slice s.buffer.get 0 len) with
    | (held, none) =>
        (s.deserialize len).1.assembler.pending = held ∧
        (s.deserialize len).2 = .packetIncomplete ∧ (s.deserialize len).1.packet = s.packet
    | (held, some block) =>
        (s.deserialize len).1.assembler.pending = held ∧
        ((dataSize (chunkBuffer block)).toNat ≤ maxDataSize →
          (s.deserialize len).2 = (verdict block).result ∧
          (s.deserialize len).1.packet = (verdict block).deliver s.packet) := by
  obtain ⟨hb', hpush⟩ := @assemble_push s.assembler s.buffer.get len hb hlen
  rcases hc : push packetSize s.assembler.pending (slice s.buffer.get 0 len) with ⟨held, _ | block⟩
  · rw [hc] at hpush
    obtain ⟨hr, hp⟩ := hpush
    simp only [Uart.deserialize, deserialize_incomplete s.packet hr]
    exact ⟨hb', hp, trivial, trivial⟩
  · rw [hc] at hpush
    obtain ⟨hr, hp, hslice⟩ := hpush
    simp only [Uart.deserialize, deserialize_complete s.packet hr]
    exact ⟨hb', hp, fun hsize => decode_of_block hslice hsize s.packet⟩

/-! ## The loop -/

/-- What `loop()` does with a complete block, when nothing is read past it. -/
def Robot.reactTo (r : Robot) (input : LoopInput) (block : List UInt8) : Robot × List Event :=
  r.react input (verdict block).result
    (.ofMemory ((verdict block).deliver ⟨input.recvPacket, []⟩).get)

theorem Verdict.get_deliver (v : Verdict) {c c' : Cells UInt8} (h : c.get = c'.get) :
    (v.deliver c).get = (v.deliver c').get := by
  cases v with
  | bad => exact h
  | checksumBad => exact h
  | ok data =>
      funext j
      show (c.write 0 data).get j = (c'.write 0 data).get j
      rw [get_write, get_write, h]

theorem ofMemory_deliver_serialize (comms : Nat → UInt8) (p : TPacket) (out : Cells UInt8) :
    TPacket.ofMemory ((verdict (serialize comms p.bytes)).deliver out).get = p := by
  rw [verdict_serialize comms p.length_bytes_le]
  exact TPacket.ofMemory_bytes (p.length_bytes ▸ slice_write ..)

theorem Robot.reactTo_serialize (r : Robot) (input : LoopInput) (comms : Nat → UInt8)
    (p : TPacket) : r.reactTo input (serialize comms p.bytes) = r.handlePacket input p := by
  rw [reactTo, ofMemory_deliver_serialize, verdict_serialize comms p.length_bytes_le]
  rfl

/-- **Step.**  `loop()` reacts to a block that is complete, and checks the targets
whether there is one or not. -/
theorem loop_push {s : Firmware} {input : LoopInput} (hb : s.uart.assembler.Between)
    (hlen : input.bytes.length ≤ packetSize) :
    (s.loop input).1.uart.assembler.Between ∧
    match push packetSize s.uart.assembler.pending input.bytes with
    | (held, none) =>
        (s.loop input).1.uart.assembler.pending = held ∧
        (s.loop input).1.robot = s.robot.check.1 ∧ (s.loop input).2 = s.robot.check.2
    | (held, some block) =>
        (s.loop input).1.uart.assembler.pending = held ∧
        ((dataSize (chunkBuffer block)).toNat ≤ maxDataSize →
          (s.loop input).1.robot = (s.robot.reactTo input block).1.check.1 ∧
          (s.loop input).2 = (s.robot.reactTo input block).2 ++
            (s.robot.reactTo input block).1.check.2) := by
  by_cases hne : input.bytes.length = 0
  · have hnil : input.bytes = [] := List.eq_nil_of_length_eq_zero hne
    rw [hnil, push_nil hb.length_pending]
    simp only [Firmware.loop, readPacket, readSerial, hne, if_true]
    exact ⟨hb, trivial, rfl, rfl⟩
  -- `readSerial` leaves the bytes at the start of `buffer`
  let uart : Uart := ⟨s.uart.assembler, Cells.write ⟨input.buffer, s.uart.buffer.stored⟩ 0 input.bytes,
    ⟨input.recvPacket, s.uart.packet.stored⟩⟩
  have hread : slice uart.buffer.get 0 input.bytes.length = input.bytes := slice_write ..
  obtain ⟨hb', hpush⟩ := @Uart.deserialize_push uart input.bytes.length hb hlen
  have hpacket : readPacket { s.uart with packet := ⟨input.recvPacket, s.uart.packet.stored⟩ }
      input.buffer input.bytes = uart.deserialize input.bytes.length := if_neg hne
  rw [hread] at hpush
  simp only [Firmware.loop, hpacket]
  refine ⟨hb', ?_⟩
  rcases hc : push packetSize s.uart.assembler.pending input.bytes with ⟨held, _ | block⟩
  · rw [hc] at hpush
    obtain ⟨hp, hr, -⟩ := hpush
    rw [hr]
    exact ⟨hp, rfl, rfl⟩
  · rw [hc] at hpush
    obtain ⟨hp, hd⟩ := hpush
    refine ⟨hp, fun hsize => ?_⟩
    obtain ⟨hresult, houtput⟩ := hd hsize
    have hget : ((verdict block).deliver uart.packet).get =
        ((verdict block).deliver ⟨input.recvPacket, []⟩).get := Verdict.get_deliver _ rfl
    rw [hresult, houtput, hget]
    exact ⟨rfl, rfl⟩

/-- **Delivery.**  The call of `loop()` that completes the frame of a packet handles
the packet and checks the targets. -/
theorem loop_frame {s : Firmware} {input : LoopInput} {comms : Nat → UInt8} {p : TPacket}
    (hb : s.uart.assembler.Between)
    (hframe : s.uart.assembler.pending ++ input.bytes = serialize comms p.bytes) :
    (s.loop input).1.robot = (s.robot.handlePacket input p).1.check.1 ∧
      (s.loop input).2 =
        (s.robot.handlePacket input p).2 ++ (s.robot.handlePacket input p).1.check.2 := by
  have hl := length_serialize comms p.bytes
  have hlen := congrArg List.length hframe
  rw [hl, List.length_append] at hlen
  have hpush : push packetSize s.uart.assembler.pending input.bytes =
      ([], some (serialize comms p.bytes)) := by
    rw [push, hframe, if_pos hl.ge, ← hl, List.take_length, List.drop_length]
  have h := (@loop_push s input hb (by omega)).2
  rw [hpush] at h
  rw [← s.robot.reactTo_serialize input comms p]
  exact h.2 (dataSize_serialize comms p.length_bytes_le)

/-- The frames that acknowledge a command. -/
def Robot.acknowledge (r : Robot) (input : LoopInput) (command : TCommandType) :
    List (List UInt8) :=
  match command with
  | .getStats => [sendStatus input.first r, sendOK input.second]
  | .forward | .reverse | .turnLeft | .turnRight | .stop | .clearStats => [sendOK input.first]

/-- A COMMAND packet with a known command is obeyed, acknowledged and reported. -/
theorem Robot.handlePacket_command {p : TPacket} {c : TCommandType}
    (ht : p.packetType = TPacketType.command.code) (hc : p.command = c.code) (r : Robot)
    (input : LoopInput) :
    r.handlePacket input p = (r.obey input c (p.params 0) (p.params 1),
      (r.acknowledge input c).map Event.sent ++ [.handled c (p.params 0) (p.params 1)]) := by
  simp only [handlePacket, handleCommand, ht, hc, TPacketType.ofCode?_code,
    TCommandType.ofCode?_code]
  cases c <;> rfl

theorem handled_of_frame {s : Firmware} {input : LoopInput} {comms : Nat → UInt8} {p : TPacket}
    {c : TCommandType} (hb : s.uart.assembler.Between)
    (hframe : s.uart.assembler.pending ++ input.bytes = serialize comms p.bytes)
    (ht : p.packetType = TPacketType.command.code) (hc : p.command = c.code) :
    .handled c (p.params 0) (p.params 1) ∈ (s.loop input).2 := by
  rw [(loop_frame hb hframe).2, Robot.handlePacket_command ht hc]
  exact List.mem_append_left _ (List.mem_append_right _ List.mem_cons_self)

/-! ## A start and two calls -/

/-- The Arduino after `setup()`, on cleared memory, with the `float` nearest to
`PI * sqrt(292)`. -/
def Firmware.cleared : Firmware :=
  .initial (14072823 / 262144) (fun _ => 0) (fun _ => 0) (fun _ => 0) (fun _ => 0)

/-- A call of `loop()` with nothing to read. -/
def LoopInput.silent : LoopInput where
  bytes := []
  buffer _ := 0
  recvPacket _ := 0
  first := ⟨⟨0, 0, fun _ => 0, fun _ => 0, fun _ => 0⟩, fun _ => 0⟩
  second := ⟨⟨0, 0, fun _ => 0, fun _ => 0, fun _ => 0⟩, fun _ => 0⟩
  redLight := 0
  greenLight := 0

theorem loop_silent (s : Firmware) :
    (s.loop .silent).1.robot = s.robot.check.1 ∧ (s.loop .silent).2 = s.robot.check.2 :=
  ⟨rfl, rfl⟩

def TPacket.ofCommand (command : TCommandType) (p0 p1 : UInt32) : TPacket where
  packetType := TPacketType.command.code
  command := command.code
  dummy _ := 0
  data _ := 0
  params i := if i = 0 then p0 else if i = 1 then p1 else 0

/-- A call of `loop()` when a command arrives in one piece. -/
def LoopInput.command (command : TCommandType) (p0 p1 : UInt32) : LoopInput :=
  { LoopInput.silent with bytes := serialize (fun _ => 0) (TPacket.ofCommand command p0 p1).bytes }

/-- A receiver between two frames: it has read what was sent and holds nothing back. -/
structure Uart.AtRest (s : Uart) : Prop where
  between : s.assembler.Between
  pending_eq : s.assembler.pending = []

theorem Uart.atRest_initial (leftover privateMem buffer packet : Nat → UInt8) :
    (Uart.initial leftover privateMem buffer packet).AtRest where
  between := Assembler.between_initial leftover privateMem
  pending_eq := rfl

theorem loop_command {s : Firmware} (hs : s.uart.AtRest) (c : TCommandType) (p0 p1 : UInt32) :
    let input := LoopInput.command c p0 p1
    (s.loop input).1.robot = (s.robot.obey input c p0 p1).check.1 ∧
      (s.loop input).2 = (s.robot.acknowledge input c).map Event.sent ++ [.handled c p0 p1] ++
        (s.robot.obey input c p0 p1).check.2 ∧
      (s.loop input).1.uart.AtRest := by
  intro input
  have hframe : s.uart.assembler.pending ++ input.bytes =
      serialize (fun _ => 0) (TPacket.ofCommand c p0 p1).bytes := by
    rw [hs.pending_eq]
    rfl
  have hlen : input.bytes.length = packetSize := length_serialize ..
  have hpacket : s.robot.handlePacket input (.ofCommand c p0 p1) = _ :=
    Robot.handlePacket_command rfl rfl s.robot input
  obtain ⟨hrobot, hevents⟩ := loop_frame hs.between hframe
  obtain ⟨hb, hpush⟩ := loop_push hs.between hlen.le
  have hfull : push packetSize s.uart.assembler.pending input.bytes = ([], some input.bytes) := by
    rw [hs.pending_eq, push, List.nil_append, if_pos hlen.ge, ← hlen, List.take_length,
      List.drop_length]
  rw [hfull] at hpush
  rw [hpacket] at hrobot hevents
  exact ⟨hrobot, hevents, hb, hpush.1⟩

theorem handled_command (vincentCirc : ℚ) (l p b k : Nat → UInt8) (c : TCommandType)
    (p0 p1 : UInt32) :
    .handled c p0 p1 ∈ ((Firmware.initial vincentCirc l p b k).loop (.command c p0 p1)).2 :=
  handled_of_frame (p := .ofCommand c p0 p1) (Assembler.between_initial l p) rfl rfl rfl

end Alex
