/-
# `Alex.Uart` — the two receive loops

`uartReceiveThread` on the Pi and `readPacket` on the Arduino read what the
serial port has into an array of `PACKET_SIZE` bytes and pass it to
`deserialize`.  How much a read stores is not bounded by that array: `serialRead`
asks for up to `MAX_BUFFER_LEN` bytes, and `readSerial` stores for as long as
bytes are available.

`Uart` is the memory the loops work on.  Its logs are never cleared, so that
they tell of every store since the start.
-/
import Alex.Lib.Mealy
import Alex.Serialize

namespace Alex

/-- `MAX_BUFFER_LEN` -/
def maxBufferLen : Nat := 1024

/-- The static variables of `serialize.cpp`, the array a read fills, and the
packet `deserialize` writes to. -/
structure Uart where
  assembler : Assembler
  buffer : Cells UInt8
  packet : Cells UInt8

def Uart.initial (leftover privateMem buffer packet : Nat → UInt8) : Uart where
  assembler := .initial leftover privateMem
  buffer := ⟨buffer, []⟩
  packet := ⟨packet, []⟩

/-- `deserialize(buffer, len, &packet)` -/
def Uart.deserialize (s : Uart) (len : Nat) : Uart × TResult :=
  let (a, d) := Alex.deserialize s.assembler s.buffer.get len s.packet
  ({ s with assembler := a, packet := d.output }, d.result)

/-! ## The Pi -/

/-- What `read(_fd, buffer, MAX_BUFFER_LEN)` comes back with: an error, or some
of the bytes that have arrived. -/
abbrev SerialInput := Option {bytes : List UInt8 // bytes.length ≤ maxBufferLen}

/-- `serialRead(buffer)`: the buffer after it, and the value returned. -/
def serialRead (buffer : Cells UInt8) : SerialInput → Cells UInt8 × Int
  | none => (buffer, -1)
  | some bytes => (buffer.write 0 bytes.val, bytes.val.length)

/-- `uartReceiveThread`, one pass of the loop; the answer is the result of
`deserialize` if it is called. -/
def uartReceiveThread : Mealy Uart SerialInput (Option TResult) where
  step s input :=
    let (buffer, len) := serialRead s.buffer input
    let s := { s with buffer := buffer }
    if len > 0 then
      let (s, result) := s.deserialize len.toNat
      (s, some result)
    else (s, none)

/-! ## The Arduino -/

/-- `readSerial(buffer)`: `while(Serial.available()) buffer[count++] = Serial.read();`
when `bytes` are available. -/
def readSerial (buffer : Cells UInt8) (bytes : List UInt8) : Cells UInt8 × Nat :=
  (buffer.write 0 bytes, bytes.length)

/-- `readPacket(packet)`.  The array `buffer` is a local: it holds what the stack
holds. -/
def readPacket (s : Uart) (stack : Nat → UInt8) (bytes : List UInt8) : Uart × TResult :=
  let (buffer, len) := readSerial ⟨stack, s.buffer.stored⟩ bytes
  let s := { s with buffer := buffer }
  if len = 0 then (s, .packetIncomplete)
  else s.deserialize len

/-- `readPacket` called over and over. -/
def readPackets : Mealy Uart ((Nat → UInt8) × List UInt8) TResult where
  step s input := readPacket s input.1 input.2

end Alex
