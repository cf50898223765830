/-
# `Alex.Command` — a command on its way from the keyboard to the UART

`forward` follows one letter through `writerThread`, `sendData`, the `sslRead`
of `worker` and `handleCommand`.  The server's buffer then holds the bytes that
were sent and, behind them, what earlier messages left there:

    offset      0   1    2 … 5    6 … 9
    client      3   ch   p0       p1
    ILP32       3   ch   p0 p0 *  *      four bytes sent
    LP64        3   ch   p0       p1 *   eight bytes sent

`command_integrity_iff` says when what arrives is what was meant.
-/
import Alex.Client
import Alex.Receive
import Alex.Server

namespace Alex

/-! ## Letters -/

/-- The letters that both programs know. -/
inductive Letter where
  | f | b | l | r | z | x | s | c | g
  deriving DecidableEq, Repr

def Letter.key (upper : Bool) : Letter → UInt8
  | .f => if upper then 'F'.toUInt8 else 'f'.toUInt8
  | .b => if upper then 'B'.toUInt8 else 'b'.toUInt8
  | .l => if upper then 'L'.toUInt8 else 'l'.toUInt8
  | .r => if upper then 'R'.toUInt8 else 'r'.toUInt8
  | .z => if upper then 'Z'.toUInt8 else 'z'.toUInt8
  | .x => if upper then 'X'.toUInt8 else 'x'.toUInt8
  | .s => if upper then 'S'.toUInt8 else 's'.toUInt8
  | .c => if upper then 'C'.toUInt8 else 'c'.toUInt8
  | .g => if upper then 'G'.toUInt8 else 'g'.toUInt8

/-- The command a letter stands for: `z` and `x` are turns as `l` and `r` are. -/
def Letter.command : Letter → TCommandType
  | .f => .forward
  | .b => .reverse
  | .l | .z => .turnLeft
  | .r | .x => .turnRight
  | .s => .stop
  | .c => .clearStats
  | .g => .getStats

/-- The parameters `writerThread` stores with a letter. -/
def Letter.params (scanned : Params) : Letter → Params
  | .f | .b => scanned
  | .l | .r => ⟨20, 100⟩
  | .z => ⟨45, 33⟩
  | .x => ⟨90, 48⟩
  | .s | .c | .g => ⟨0, 0⟩

theorem writerThread_key (a : Letter) (upper : Bool) (scanned : Params) :
    writerThread (a.key upper) scanned = .send (a.key upper) (a.params scanned) := by
  cases a <;> cases upper <;> rfl

/-! ## The path -/

/-- One `sslRead` of what one `sslWrite` wrote. -/
def deliver (sent : List UInt8) : NetworkInput :=
  some ⟨sent.take bufLen, List.length_take_le ..⟩

/-- The bytes the Pi writes to the UART for a letter typed while the client's
network is active; `buffer` is the server's buffer, and `c`, `commandPacket` and
`comms` are the locals nobody has assigned. -/
def forwardCommand (abi : DataModel) (ch : UInt8) (scanned : Params) (c : Int)
    (buffer : Cells UInt8) (commandPacket : TPacket) (comms : Nat → UInt8) : List UInt8 :=
  match writerThread ch scanned with
  | .send ch params =>
      match (sendData abi ⟨true⟩ (commandBuffer ch params) c).2 with
      | some sent => (worker buffer (deliver sent) commandPacket comms).2
      | none => []
  | .quit | .badCommand => []

/-- The UART carries a COMMAND packet with this command and these parameters. -/
def Delivers (uart : List UInt8) (command : TCommandType) (params : Params) : Prop :=
  ∃ comms packet, uart = uartSendPacket comms packet ∧
    packet.packetType = TPacketType.command.code ∧ packet.command = command.code ∧
    packet.params 0 = params.p0 ∧ packet.params 1 = params.p1

theorem TPacket.bytes_injective {p q : TPacket} (h : p.bytes = q.bytes) : p = q :=
  p.ofMemory_byte.symm.trans (TPacket.ofMemory_bytes h)

theorem uartSendPacket_injective {comms comms' : Nat → UInt8} {p q : TPacket}
    (h : uartSendPacket comms p = uartSendPacket comms' q) : p = q := by
  have hv : Verdict.ok p.bytes = .ok q.bytes := by
    rw [← verdict_serialize comms p.length_bytes_le, ← verdict_serialize comms' q.length_bytes_le]
    exact congrArg verdict h
  injection hv with hb
  exact TPacket.bytes_injective hb

/-! ## What is in the server's buffer -/

section
variable (abi : DataModel) (ch : UInt8) (params : Params) (buffer : Cells UInt8)

def wire (ch : UInt8) (params : Params) (i : Nat) : UInt8 := (commandBuffer ch params).getD i 0

/-- The server's buffer after the read. -/
def received : Nat → UInt8 :=
  (buffer.write 0 ((commandBuffer ch params).take abi.sizeofPointer)).get

theorem sizeofPointer_le : 4 ≤ abi.sizeofPointer ∧ abi.sizeofPointer ≤ 8 := by
  cases abi <;> decide

theorem received_eq (i : Nat) : received abi ch params buffer i =
    if i < abi.sizeofPointer then wire ch params i else buffer.get i := by
  have hlen : ((commandBuffer ch params).take abi.sizeofPointer).length = abi.sizeofPointer := by
    rw [List.length_take, length_commandBuffer]
    have := sizeofPointer_le abi
    omega
  rw [received, Cells.get_write]
  split
  · rename_i h
    have hi : i < (commandBuffer ch params).length := by
      have := sizeofPointer_le abi
      rw [length_commandBuffer]
      omega
    rw [if_pos (by omega), wire, List.getD_eq_getElem?_getD, List.getElem?_eq_getElem hi]
    exact List.getElem_take
  · rename_i h
    rw [if_neg (by omega)]

theorem word_received_iff (off : Nat) :
    Bytes.word (received abi ch params buffer) off = Bytes.word (wire ch params) off ↔
      ∀ i, abi.sizeofPointer ≤ i → off ≤ i → i < off + 4 → buffer.get i = wire ch params i := by
  rw [Bytes.word_eq_word_iff]
  constructor
  · intro h i hn h₁ h₂
    have hi := h i h₁ h₂
    rw [received_eq, if_neg (by omega)] at hi
    exact hi
  · intro h i h₁ h₂
    rw [received_eq]
    split
    · rfl
    · exact h i (by omega) h₁ h₂

end

/-- The server's switch agrees with the client's letters. -/
theorem handleCommand_key (a : Letter) (upper : Bool) (commandPacket : TPacket)
    {buffer : Nat → UInt8} (h : buffer 1 = a.key upper) :
    ∃ p, handleCommand commandPacket buffer = some p ∧
      p.packetType = TPacketType.command.code ∧ p.command = a.command.code ∧
      p.params 0 = (if a = .c then 0 else Bytes.word buffer 2) ∧
      p.params 1 = Bytes.word buffer 6 := by
  rw [handleCommand, h]
  cases a <;> cases upper <;> exact ⟨_, rfl, rfl, rfl, rfl, rfl⟩

/-- A letter `handleCommand` has a case for. -/
def IsLetter (cmd : UInt8) : Prop := ∃ (a : Letter) (upper : Bool), cmd = a.key upper

theorem toUInt8_ofUInt8 {cmd : UInt8} {c : Char} (h : Char.ofUInt8 cmd = c) : cmd = c.toUInt8 := by
  subst h
  exact cmd.toUInt8_toUInt32.symm

theorem isLetter_of_handleCommand {commandPacket p : TPacket} {buffer : Nat → UInt8}
    (h : handleCommand commandPacket buffer = some p) : IsLetter (buffer 1) := by
  simp only [handleCommand] at h
  split at h
  · exact ⟨.f, false, toUInt8_ofUInt8 ‹_›⟩
  · exact ⟨.f, true, toUInt8_ofUInt8 ‹_›⟩
  · exact ⟨.b, false, toUInt8_ofUInt8 ‹_›⟩
  · exact ⟨.b, true, toUInt8_ofUInt8 ‹_›⟩
  · exact ⟨.l, false, toUInt8_ofUInt8 ‹_›⟩
  · exact ⟨.l, true, toUInt8_ofUInt8 ‹_›⟩
  · exact ⟨.z, false, toUInt8_ofUInt8 ‹_›⟩
  · exact ⟨.z, true, toUInt8_ofUInt8 ‹_›⟩
  · exact ⟨.r, false, toUInt8_ofUInt8 ‹_›⟩
  · exact ⟨.r, true, toUInt8_ofUInt8 ‹_›⟩
  · exact ⟨.x, true, toUInt8_ofUInt8 ‹_›⟩
  · exact ⟨.x, false, toUInt8_ofUInt8 ‹_›⟩
  · exact ⟨.s, false, toUInt8_ofUInt8 ‹_›⟩
  · exact ⟨.s, true, toUInt8_ofUInt8 ‹_›⟩
  · exact ⟨.c, false, toUInt8_ofUInt8 ‹_›⟩
  · exact ⟨.c, true, toUInt8_ofUInt8 ‹_›⟩
  · exact ⟨.g, false, toUInt8_ofUInt8 ‹_›⟩
  · exact ⟨.g, true, toUInt8_ofUInt8 ‹_›⟩
  · exact nomatch h

/-- What the Pi forwards is a COMMAND packet with a known command. -/
theorem handleCommand_some {commandPacket p : TPacket} {buffer : Nat → UInt8}
    (h : handleCommand commandPacket buffer = some p) :
    p.packetType = TPacketType.command.code ∧ ∃ c : TCommandType, p.command = c.code := by
  obtain ⟨a, upper, ha⟩ := isLetter_of_handleCommand h
  obtain ⟨q, hq, ht, hc, -, -⟩ := handleCommand_key a upper commandPacket ha
  obtain rfl : p = q := Option.some.inj (h.symm.trans hq)
  exact ⟨ht, _, hc⟩

theorem forwardCommand_eq (abi : DataModel) (a : Letter) (upper : Bool) (scanned : Params)
    (c : Int) (buffer : Cells UInt8) (commandPacket : TPacket) (comms : Nat → UInt8) :
    forwardCommand abi (a.key upper) scanned c buffer commandPacket comms =
      handleNetworkData commandPacket comms
        (received abi (a.key upper) (a.params scanned) buffer) := by
  have htake : ((commandBuffer (a.key upper) (a.params scanned)).take abi.sizeofPointer).take
      bufLen = (commandBuffer (a.key upper) (a.params scanned)).take abi.sizeofPointer := by
    apply List.take_of_length_le
    rw [List.length_take]
    have := sizeofPointer_le abi
    simp only [bufLen]
    omega
  have hpos : 0 < ((commandBuffer (a.key upper) (a.params scanned)).take
      abi.sizeofPointer).length := by
    rw [List.length_take, length_commandBuffer]
    have := sizeofPointer_le abi
    omega
  simp only [forwardCommand, writerThread_key, sendData, if_true, worker, deliver, sslRead, htake]
  rw [if_pos (by omega)]
  rfl

/-! ## When the command arrives -/

theorem delivers_uartSendPacket {comms : Nat → UInt8} {p : TPacket} {command : TCommandType}
    {params : Params} (ht : p.packetType = TPacketType.command.code)
    (hc : p.command = command.code) :
    Delivers (uartSendPacket comms p) command params ↔
      p.params 0 = params.p0 ∧ p.params 1 = params.p1 := by
  constructor
  · rintro ⟨comms', q, hq, -, -, h₀, h₁⟩
    obtain rfl := uartSendPacket_injective hq
    exact ⟨h₀, h₁⟩
  · rintro ⟨h₀, h₁⟩
    exact ⟨comms, p, rfl, ht, hc, h₀, h₁⟩

/-- **Command integrity.**  The Arduino is sent the command and the parameters of
the letter exactly when the bytes of the message that `sendData` does not send,
from offset `sizeof(buffer)` to 9, lie in the server's buffer already; for `c`,
whose first parameter the server clears itself, those from offset 6. -/
theorem command_integrity_iff (abi : DataModel) (a : Letter) (upper : Bool) (scanned : Params)
    (c : Int) (buffer : Cells UInt8) (commandPacket : TPacket) (comms : Nat → UInt8) :
    Delivers (forwardCommand abi (a.key upper) scanned c buffer commandPacket comms)
        a.command (a.params scanned) ↔
      ∀ i, abi.sizeofPointer ≤ i → i < 10 → (a = .c → 6 ≤ i) →
        buffer.get i = wire (a.key upper) (a.params scanned) i := by
  have hn := sizeofPointer_le abi
  have hkey : received abi (a.key upper) (a.params scanned) buffer 1 = a.key upper := by
    rw [received_eq, if_pos (by omega)]
    rfl
  have htype : received abi (a.key upper) (a.params scanned) buffer 0 =
      TNetConstants.commandPacket.code := by
    rw [received_eq, if_pos (by omega)]
    rfl
  obtain ⟨p, hp, ht, hc, h₀, h₁⟩ := handleCommand_key a upper commandPacket hkey
  have huart : forwardCommand abi (a.key upper) scanned c buffer commandPacket comms =
      uartSendPacket comms p := by
    rw [forwardCommand_eq, handleNetworkData, if_pos htype, hp]
    rfl
  have hw₀ : Bytes.word (wire (a.key upper) (a.params scanned)) 2 = (a.params scanned).p0 :=
    Bytes.word_of_slice rfl
  have hw₁ : Bytes.word (wire (a.key upper) (a.params scanned)) 6 = (a.params scanned).p1 :=
    Bytes.word_of_slice rfl
  have hi₀ := word_received_iff abi (a.key upper) (a.params scanned) buffer 2
  have hi₁ := word_received_iff abi (a.key upper) (a.params scanned) buffer 6
  rw [huart, delivers_uartSendPacket ht hc, h₀, h₁, ← hw₁, hi₁]
  by_cases hcl : a = .c
  · -- the first parameter does not come from the message
    have hzero : (a.params scanned).p0 = 0 := by rw [hcl]; rfl
    rw [if_pos hcl, hzero]
    constructor
    · exact fun h i hni hi h6 => h.2 i hni (h6 hcl) hi
    · exact fun h => ⟨rfl, fun i hni h6 hi => h i hni hi fun _ => h6⟩
  · rw [if_neg hcl, ← hw₀, hi₀]
    constructor
    · intro h i hni hi _
      by_cases h6 : i < 6
      · exact h.1 i hni (by omega) h6
      · exact h.2 i hni (by omega) hi
    · intro h
      exact ⟨fun i hni _ hi => h i hni (by omega) fun e => absurd e hcl,
        fun i hni _ hi => h i hni hi fun e => absurd e hcl⟩

/-- Full power forward on LP64, where the stack holds a one at offset 8 of the
server's buffer: the Pi orders power 65636. -/
theorem forward_power_altered :
    ¬ Delivers (forwardCommand .lp64 (Letter.f.key false) ⟨50, 100⟩ 1
      ⟨fun i => if i = 8 then 1 else 0, []⟩ ⟨0, 0, fun _ => 0, fun _ => 0, fun _ => 0⟩
      (fun _ => 0)) .forward ⟨50, 100⟩ := by
  rintro ⟨comms, p, hp, -, -, -, h₁⟩
  have hq : forwardCommand .lp64 (Letter.f.key false) ⟨50, 100⟩ 1
      ⟨fun i => if i = 8 then 1 else 0, []⟩ ⟨0, 0, fun _ => 0, fun _ => 0, fun _ => 0⟩
      (fun _ => 0) = uartSendPacket (fun _ => 0)
        ⟨0, 0, fun _ => 0, fun _ => 0, fun i => if i = 0 then 50 else if i = 1 then 65636 else 0⟩ := by
    decide +kernel
  rw [hq] at hp
  rw [← uartSendPacket_injective hp] at h₁
  exact absurd h₁ (by decide)

end Alex
