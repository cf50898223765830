/-
# `Alex.Client` — what the laptop sends

`tls-alex-client.cpp`.  `writerThread` reads a letter, for `f` and `b` also two
numbers, builds a message of ten bytes and passes it to `sendData`:

    offset   0                     1     2 … 5       6 … 9
             NET_COMMAND_PACKET    ch    params[0]   params[1]

`sendData` hands `sslWrite` the first `sizeof(buffer)` of them, and its `buffer`
is a pointer: how many bytes leave the laptop depends on the data model the
client is compiled for.
-/
import Alex.Lib.Bytes
import Alex.Packet

namespace Alex

/-- The data models of the compilers in question. -/
inductive DataModel where
  | ilp32 | lp64
  deriving DecidableEq, Repr

/-- `sizeof(const char *)` -/
def DataModel.sizeofPointer : DataModel → Nat
  | .ilp32 => 4
  | .lp64 => 8

/-! ## The keyboard loop -/

/-- `params`, as `int32_t` or as `uint32_t`. -/
structure Params where
  p0 : UInt32
  p1 : UInt32
  deriving DecidableEq, Repr

/-- `memcpy(…, params, sizeof(params))` -/
def Params.bytes (p : Params) : List UInt8 := Bytes.ofWord p.p0 ++ Bytes.ofWord p.p1

/-- `buffer`, filled in: each of its ten bytes is assigned. -/
def commandBuffer (ch : UInt8) (params : Params) : List UInt8 :=
  TNetConstants.commandPacket.code :: ch :: params.bytes

/-- What `writerThread` does with a letter. -/
inductive Keyed where
  | send (ch : UInt8) (params : Params)
  | quit
  | badCommand
  deriving DecidableEq, Repr

/-- `switch(ch)` in `writerThread`; `scanned` is what `getParams` leaves in
`params`.  The parameters given with `send` are those in the buffer. -/
def writerThread (ch : UInt8) (scanned : Params) : Keyed :=
  match Char.ofUInt8 ch with
  | 'f' | 'F' | 'b' | 'B' => .send ch scanned
  | 'l' | 'L' | 'r' | 'R' => .send ch ⟨20, 100⟩
  | 'z' | 'Z' => .send ch ⟨45, 33⟩
  | 'x' | 'X' => .send ch ⟨90, 48⟩
  | 's' | 'S' | 'c' | 'C' | 'g' | 'G' => .send ch ⟨0, 0⟩
  | 'q' | 'Q' => .quit
  | _ => .badCommand

/-! ## Sending -/

structure Client where
  networkActive : Bool
  deriving DecidableEq, Repr

/-- `sendData(conn, buffer, len)`: the bytes passed to `sslWrite`, if it is
called.  The result of `sslWrite` goes to a second `len` that hides the
argument; the `c` tested after it is never assigned. -/
def sendData (abi : DataModel) (s : Client) (buffer : List UInt8) (c : Int) :
    Client × Option (List UInt8) :=
  if s.networkActive then
    ({ s with networkActive := c > 0 }, some (buffer.take abi.sizeofPointer))
  else (s, none)

@[simp] theorem length_commandBuffer (ch : UInt8) (params : Params) :
    (commandBuffer ch params).length = 10 := rfl

end Alex
