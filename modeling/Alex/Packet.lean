/-
# `Alex.Packet` — the packet the Pi and the Arduino exchange, and its codes

`packet.h`, `constants.h` and `netconstants.h`.  A `TPacket` is 100 bytes, and
both processors lay it out alike: one byte of type, one of command, two of
padding, 32 of text and sixteen words, lowest byte first.  `TPacket.byte` is
that layout and `TPacket.ofMemory` the cast of 100 bytes of memory to a packet.
-/
import Alex.Lib.Bytes

namespace Alex

/-- `sizeof(TPacket)` -/
def sizeofTPacket : Nat := 100

/-! ## Codes -/

/-- Packet types. -/
inductive TPacketType where
  | command | response | error | message | hello
  deriving DecidableEq, Repr

/-- `PACKET_TYPE_COMMAND` … `PACKET_TYPE_HELLO` -/
def TPacketType.code : TPacketType → UInt8
  | .command => 0
  | .response => 1
  | .error => 2
  | .message => 3
  | .hello => 4

/-- The case of `switch(packet->packetType)` a byte selects. -/
def TPacketType.ofCode? (b : UInt8) : Option TPacketType :=
  [TPacketType.command, .response, .error, .message, .hello].find? fun t => t.code = b

/-- Response types.  These go into the command field. -/
inductive TResponseType where
  | ok | status | badPacket | badChecksum | badCommand | badResponse
  deriving DecidableEq, Repr

/-- `RESP_OK` … `RESP_BAD_RESPONSE` -/
def TResponseType.code : TResponseType → UInt8
  | .ok => 0
  | .status => 1
  | .badPacket => 2
  | .badChecksum => 3
  | .badCommand => 4
  | .badResponse => 5

/-- Commands.  For direction commands, `params[0]` is the distance in cm or the
angle in degrees and `params[1]` the speed. -/
inductive TCommandType where
  | forward | reverse | turnLeft | turnRight | stop | getStats | clearStats
  deriving DecidableEq, Repr

/-- `COMMAND_FORWARD` … `COMMAND_CLEAR_STATS` -/
def TCommandType.code : TCommandType → UInt8
  | .forward => 0
  | .reverse => 1
  | .turnLeft => 2
  | .turnRight => 3
  | .stop => 4
  | .getStats => 5
  | .clearStats => 6

/-- The case of `switch(command->command)` a byte selects. -/
def TCommandType.ofCode? (b : UInt8) : Option TCommandType :=
  [TCommandType.forward, .reverse, .turnLeft, .turnRight, .stop, .getStats, .clearStats].find?
    fun c => c.code = b

/-- Network packet types. -/
inductive TNetConstants where
  | errorPacket | statusPacket | messagePacket | commandPacket
  deriving DecidableEq, Repr

/-- `NET_ERROR_PACKET` … `NET_COMMAND_PACKET` -/
def TNetConstants.code : TNetConstants → UInt8
  | .errorPacket => 0
  | .statusPacket => 1
  | .messagePacket => 2
  | .commandPacket => 3

@[simp] theorem TPacketType.ofCode?_code (t : TPacketType) : ofCode? t.code = some t := by
  cases t <;> rfl

theorem TPacketType.code_of_ofCode? {b : UInt8} {t : TPacketType} (h : ofCode? b = some t) :
    t.code = b := by
  have hfound := List.find?_some h
  exact of_decide_eq_true hfound

@[simp] theorem TCommandType.ofCode?_code (c : TCommandType) : ofCode? c.code = some c := by
  cases c <;> rfl

/-! ## The packet -/

structure TPacket where
  packetType : UInt8
  command : UInt8
  dummy : Fin 2 → UInt8
  data : Fin 32 → UInt8
  params : Fin 16 → UInt32

/-- `params[0]`, `params[1]` and so on are written with numerals. -/
instance TPacket.neZero_params : @NeZero Nat Zero.ofOfNat0 16 := ⟨Nat.succ_ne_zero 15⟩

def TPacket.zeroes : TPacket := ⟨0, 0, fun _ => 0, fun _ => 0, fun _ => 0⟩

/-- The byte of a packet at an offset from its address. -/
def TPacket.byte (p : TPacket) (off : Nat) : UInt8 :=
  if off = 0 then p.packetType
  else if off = 1 then p.command
  else if h : off < 4 then p.dummy ⟨off - 2, by omega⟩
  else if h : off < 36 then p.data ⟨off - 4, by omega⟩
  else if h : off < 100 then
    (Bytes.ofWord (p.params ⟨(off - 36) / 4, by omega⟩)).getD ((off - 36) % 4) 0
  else 0

/-- The packet as it is passed to `serialize`. -/
def TPacket.bytes (p : TPacket) : List UInt8 := Cells.slice p.byte 0 sizeofTPacket

/-- `(TPacket *) m` -/
def TPacket.ofMemory (m : Nat → UInt8) : TPacket where
  packetType := m 0
  command := m 1
  dummy i := m (2 + i)
  data i := m (4 + i)
  params i := Bytes.word m (36 + 4 * i)

@[simp] theorem TPacket.length_bytes (p : TPacket) : p.bytes.length = sizeofTPacket :=
  Cells.length_slice ..

/-- Word `i` of `params` lies at offset `36 + 4 i`. -/
theorem TPacket.word_byte (p : TPacket) (i : Fin 16) :
    Bytes.word p.byte (36 + 4 * i) = p.params i := by
  apply Bytes.word_of_slice
  have hbyte (j : Nat) (hj : j < 4) :
      p.byte (36 + 4 * i + j) = (Bytes.ofWord (p.params i)).getD j 0 := by
    have hdiv : (36 + 4 * i.val + j - 36) / 4 = i.val := by omega
    have hmod : (36 + 4 * i.val + j - 36) % 4 = j := by omega
    rw [byte, if_neg (by omega), if_neg (by omega), dif_neg (by omega), dif_neg (by omega),
      dif_pos (by omega)]
    simp only [hdiv, hmod]
  show [p.byte (36 + 4 * i + 0), p.byte (36 + 4 * i + 1), p.byte (36 + 4 * i + 2),
    p.byte (36 + 4 * i + 3)] = _
  rw [hbyte 0 (by omega), hbyte 1 (by omega), hbyte 2 (by omega), hbyte 3 (by omega)]
  rfl

theorem TPacket.ofMemory_byte (p : TPacket) : ofMemory p.byte = p := by
  have hdummy (i : Fin 2) : p.byte (2 + i) = p.dummy i := by
    have hi : 2 + i.val - 2 = i.val := by omega
    rw [byte, if_neg (by omega), if_neg (by omega), dif_pos (by omega)]
    simp only [hi]
  have hdata (i : Fin 32) : p.byte (4 + i) = p.data i := by
    have hi : 4 + i.val - 4 = i.val := by omega
    rw [byte, if_neg (by omega), if_neg (by omega), dif_neg (by omega), dif_pos (by omega)]
    simp only [hi]
  simp only [ofMemory, hdummy, hdata, p.word_byte]
  rfl

theorem TPacket.ofMemory_congr {m m' : Nat → UInt8} (h : ∀ j, j < sizeofTPacket → m j = m' j) :
    ofMemory m = ofMemory m' := by
  have hword (i : Fin 16) : Bytes.word m (36 + 4 * i) = Bytes.word m' (36 + 4 * i) :=
    Bytes.word_congr (Cells.slice_congr fun j _ hj => h j (by simp only [sizeofTPacket]; omega))
  simp only [ofMemory, hword]
  congr 1
  · exact h 0 (by decide)
  · exact h 1 (by decide)
  · exact funext fun i => h _ (by simp only [sizeofTPacket]; omega)
  · exact funext fun i => h _ (by simp only [sizeofTPacket]; omega)

theorem TPacket.ofMemory_bytes {m : Nat → UInt8} {p : TPacket}
    (h : Cells.slice m 0 sizeofTPacket = p.bytes) : ofMemory m = p := by
  rw [← p.ofMemory_byte]
  apply ofMemory_congr
  exact Cells.slice_zero_eq_iff.mp h

end Alex
