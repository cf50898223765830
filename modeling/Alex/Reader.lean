/-
# `Alex.Reader` — what the laptop makes of a message

The receiving half of `tls-alex-client.cpp`.  `readerThread` reads a message into an
array of 128 bytes and hands it to `handleNetwork`, which chooses the handler by the
first byte:

    NET_ERROR_PACKET      handleError      the code at offset 1
    NET_STATUS_PACKET     handleStatus     sixteen words from offset 1 on
    NET_MESSAGE_PACKET    handleMessage    the text from offset 1 on
    NET_COMMAND_PACKET    handleCommand    nothing
-/
import Alex.Client
import Alex.Lib.Mealy
import Mathlib.Data.List.ReduceOption

namespace Alex

/-- The case of `switch(buffer[1])` a byte selects. -/
def TResponseType.ofCode? (b : UInt8) : Option TResponseType :=
  [TResponseType.ok, .status, .badPacket, .badChecksum, .badCommand, .badResponse].find?
    fun t => t.code = b

/-- The case of `switch(type)` a byte selects. -/
def TNetConstants.ofCode? (b : UInt8) : Option TNetConstants :=
  [TNetConstants.errorPacket, .statusPacket, .messagePacket, .commandPacket].find?
    fun t => t.code = b

@[simp] theorem TNetConstants.ofCode?_code (t : TNetConstants) : ofCode? t.code = some t := by
  cases t <;> rfl

namespace Client

/-! ## The handlers -/

inductive Display where
  | error (code : UInt8) (text : String)
  | status (data : Fin 16 → UInt32)
  | message (text : Nat → UInt8)
  | nothing

/-- What `handleError` says of a code. -/
def errorText (code : UInt8) : String :=
  match TResponseType.ofCode? code with
  | some .ok => "Command / Status OK"
  | some .badPacket => "BAD MAGIC NUMBER FROM ARDUINO"
  | some .badChecksum => "BAD CHECKSUM FROM ARDUINO"
  | some .badCommand => "PI SENT BAD COMMAND TO ARDUINO"
  | some .badResponse => "PI GOT BAD RESPONSE FROM ARDUINO"
  | some .status | none => "PI IS CONFUSED!"

def handleError (buffer : Nat → UInt8) : Display := .error (buffer 1) (errorText (buffer 1))

def handleStatus (buffer : Nat → UInt8) : Display :=
  .status fun i => Bytes.word buffer (1 + 4 * i)

/-- `handleMessage(buffer)`, given the string from `&buffer[1]` on. -/
def handleMessage (buffer : Nat → UInt8) : Display := .message fun i => buffer (1 + i)

def handleCommand (_buffer : Nat → UInt8) : Display := .nothing

/-- `handleNetwork(buffer, len)`.  It does not look at `len`. -/
def handleNetwork (buffer : Nat → UInt8) : Display :=
  match TNetConstants.ofCode? (buffer 0) with
  | some .errorPacket => handleError buffer
  | some .statusPacket => handleStatus buffer
  | some .messagePacket => handleMessage buffer
  | some .commandPacket => handleCommand buffer
  | none => .nothing

/-! ## The loop -/

/-- `sizeof(buffer)` in `readerThread`. -/
def bufferLen : Nat := 128

/-- What `SSL_read` comes back with, an error or bytes. -/
abbrev ReaderInput := Option {bytes : List UInt8 // bytes.length ≤ bufferLen}

/-- `sslRead(conn, buffer, sizeof(buffer))`: the buffer after it, and the value
returned. -/
def sslRead (buffer : Cells UInt8) : ReaderInput → Cells UInt8 × Int
  | none => (buffer, -1)
  | some bytes => (buffer.write 0 bytes.val, bytes.val.length)

/-- The reader thread: the global variable and its `buffer`. -/
structure Reader where
  client : Client
  buffer : Cells UInt8

/-- `readerThread(conn)`, one pass of the loop; the answer is the buffer `handleNetwork`
is called with, if it is. -/
def readerThread : Mealy Reader ReaderInput (Option (Nat → UInt8)) where
  step s input :=
    if s.client.networkActive then
      let (buffer, len) := sslRead s.buffer input
      let client := { s.client with networkActive := len > 0 }
      (⟨client, buffer⟩, if client.networkActive then some buffer.get else none)
    else (s, none)

/-- One `sslRead` of what one `sslWrite` wrote. -/
def receive (sent : List UInt8) : ReaderInput :=
  some ⟨sent.take bufferLen, List.length_take_le ..⟩

theorem readerThread_receive {s : Reader} (hs : s.client.networkActive = true) {m : List UInt8}
    (hpos : 1 ≤ m.length) (hle : m.length ≤ bufferLen) :
    readerThread.step s (receive m) =
      (⟨⟨true⟩, s.buffer.write 0 m⟩, some (s.buffer.write 0 m).get) := by
  have htake : m.take bufferLen = m := List.take_of_length_le hle
  have hlen : ((m.length : Int) > 0) = True := eq_true (by omega)
  simp only [readerThread, hs, if_true, receive, sslRead, htake, hlen, decide_true]

/-- Messages that fit are handed on whole, in one call each. -/
theorem calls_readerThread {s : Reader} (hs : s.client.networkActive = true)
    {messages : List (List UInt8)}
    (hm : ∀ m ∈ messages, 1 ≤ m.length ∧ m.length ≤ bufferLen) :
    List.Forall₂ (fun m buffer => Cells.slice buffer 0 m.length = m) messages
      (readerThread.outputs s (messages.map receive)).reduceOption := by
  induction messages generalizing s with
  | nil => exact .nil
  | cons m ms ih =>
      obtain ⟨hpos, hle⟩ := hm m List.mem_cons_self
      have hstep := readerThread_receive hs hpos hle
      have ih := @ih ⟨⟨true⟩, s.buffer.write 0 m⟩ rfl fun n hn => hm n (List.mem_cons_of_mem m hn)
      rw [List.map_cons, readerThread.outputs_cons, hstep, List.reduceOption_cons_of_some]
      exact .cons (Cells.slice_write ..) ih

end Client

end Alex
