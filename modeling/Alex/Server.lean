/-
# `Alex.Server` — what the Pi does with messages and packets

`tls-alex-server.cpp`, one call at a time: `handleNetworkData` and
`handleCommand` turn a message of the client into a frame for the Arduino, and
`handleUARTPacket` turns a packet of the Arduino into data for the client.

The messages are read into a buffer of `worker` that lives as long as the
connection; `handleCommand` takes its command and parameters from fixed offsets
of it and is not told how many bytes have arrived.
-/
import Alex.Serialize

namespace Alex

def bufLen : Nat := 129

/-! ## From the client to the Arduino -/

/-- What `SSL_read` comes back with: an error, or bytes, none if the connection
is closed. -/
abbrev NetworkInput := Option {bytes : List UInt8 // bytes.length ≤ bufLen}

/-- `sslRead(conn, buffer, sizeof(buffer))`: the buffer after it, and the value
returned. -/
def sslRead (buffer : Cells UInt8) : NetworkInput → Cells UInt8 × Int
  | none => (buffer, -1)
  | some bytes => (buffer.write 0 bytes.val, bytes.val.length)

/-- `handleCommand(conn, buffer)`: the packet passed to `uartSendPacket`.
`commandPacket` is the uninitialised local. -/
def handleCommand (commandPacket : TPacket) (buffer : Nat → UInt8) : Option TPacket :=
  let cmd := buffer 1
  let commandPacket := { commandPacket with
    packetType := TPacketType.command.code
    params := Function.update (Function.update commandPacket.params 0 (Bytes.word buffer 2))
      1 (Bytes.word buffer 6) }
  match Char.ofUInt8 cmd with
  | 'f' | 'F' => some { commandPacket with command := TCommandType.forward.code }
  | 'b' | 'B' => some { commandPacket with command := TCommandType.reverse.code }
  | 'l' | 'L' | 'z' | 'Z' => some { commandPacket with command := TCommandType.turnLeft.code }
  | 'r' | 'R' | 'X' | 'x' => some { commandPacket with command := TCommandType.turnRight.code }
  | 's' | 'S' => some { commandPacket with command := TCommandType.stop.code }
  | 'c' | 'C' => some { commandPacket with
      command := TCommandType.clearStats.code
      params := Function.update commandPacket.params 0 0 }
  | 'g' | 'G' => some { commandPacket with command := TCommandType.getStats.code }
  | _ => none

/-- `uartSendPacket(packet)`: the bytes written to the UART. -/
def uartSendPacket (comms : Nat → UInt8) (packet : TPacket) : List UInt8 :=
  serialize comms packet.bytes

/-- `sendHello()`: the bytes written to the UART. -/
def sendHello (helloPacket : TPacket) (comms : Nat → UInt8) : List UInt8 :=
  uartSendPacket comms { helloPacket with packetType := TPacketType.hello.code }

/-- `handleNetworkData(conn, buffer, len)`, but for its assignment to `tls_conn`:
the bytes written to the UART.  It does not look at `len`. -/
def handleNetworkData (commandPacket : TPacket) (comms : Nat → UInt8) (buffer : Nat → UInt8) :
    List UInt8 :=
  if buffer 0 = TNetConstants.commandPacket.code then
    ((handleCommand commandPacket buffer).map (uartSendPacket comms)).getD []
  else []

/-- `worker(conn)`, one pass of the loop: the buffer after it, and the bytes written
to the UART. -/
def worker (buffer : Cells UInt8) (input : NetworkInput) (commandPacket : TPacket)
    (comms : Nat → UInt8) : Cells UInt8 × List UInt8 :=
  let (buffer, len) := sslRead buffer input
  if len > 0 then (buffer, handleNetworkData commandPacket comms buffer.get)
  else (buffer, [])

/-! ## From the Arduino to the client -/

/-- `handleErrorResponse(packet)`: the data passed to `sendNetworkData`. -/
def handleErrorResponse (packet : TPacket) : List UInt8 :=
  [TNetConstants.errorPacket.code, packet.command]

def handleMessage (packet : TPacket) : List UInt8 :=
  TNetConstants.messagePacket.code :: List.ofFn packet.data

def handleStatus (packet : TPacket) : List UInt8 :=
  TNetConstants.statusPacket.code :: (List.ofFn packet.params).flatMap Bytes.ofWord

/-- `handleResponse(packet)`: the response code is stored in `command`. -/
def handleResponse (packet : TPacket) : Option (List UInt8) :=
  if packet.command = TResponseType.ok.code then
    some [TNetConstants.errorPacket.code, TResponseType.ok.code]
  else if packet.command = TResponseType.status.code then some (handleStatus packet)
  else none

/-- `handleUARTPacket(packet)`: the data passed to `sendNetworkData`, if it is
called. -/
def handleUARTPacket (packet : TPacket) : Option (List UInt8) :=
  match TPacketType.ofCode? packet.packetType with
  | some .response => handleResponse packet
  | some .error => some (handleErrorResponse packet)
  | some .message => some (handleMessage packet)
  | some .command | some .hello | none => none

end Alex
