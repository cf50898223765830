/-
# `Alex.Serialize` — frames, and the receiver that puts them together

`serialize.cpp`.  A frame is a `TComms` of 140 bytes:

    offset   0      4          8 … 135     136        137 … 139
             magic  dataSize   buffer      checksum   dummy

`serialize` fills one in over whatever the stack held, so the bytes of `buffer`
past the data and the three of `dummy` are arbitrary.  On the way in `assemble`
collects the chunks it is given into `_privateBuffer` until 140 bytes are there
and keeps the rest in `leftoverBuffer`; `deserialize` then takes the frame
apart.  The static variables of the two functions are the state `Assembler`.

Both directions read and write memory through `Cells`: a store outside an array
lands outside it and is in the log, and what `deserialize` reads past
`_privateBuffer` is whatever lies there.
-/
import Alex.Packet

namespace Alex

/-- `PACKET_SIZE`, which is also `sizeof(TComms)` -/
def packetSize : Nat := 140

def maxDataSize : Nat := 128

def magicNumber : UInt32 := 0xFCFDFEFF

inductive TResult where
  | packetOk | packetBad | packetChecksumBad | packetIncomplete | packetComplete
  deriving DecidableEq, Repr

/-! ## The fields of a `TComms` -/

/-- Offset of `comms->buffer`. -/
def bufferOffset : Nat := 8

/-- Offset of `comms->checksum`. -/
def checksumOffset : Nat := 136

/-- `comms->magic` -/
def magic (comms : Nat → UInt8) : UInt32 := Bytes.word comms 0

/-- `comms->dataSize` -/
def dataSize (comms : Nat → UInt8) : UInt32 := Bytes.word comms 4

/-- `comms->buffer[i]`, whether or not `i` is inside the array. -/
def payload (comms : Nat → UInt8) (i : Nat) : UInt8 := comms (bufferOffset + i)

/-! ## The sender -/

/-- `for(i=0; i<n; i++) checksum ^= buffer[i];` from `checksum = 0`: the
checksum, and the indices of `buffer` the loop reads. -/
def checksumLoop (buffer : Nat → UInt8) : Nat → UInt8 × List Nat
  | 0 => (0, [])
  | i + 1 =>
      let (checksum, reads) := checksumLoop buffer i
      (checksum ^^^ buffer i, reads ++ [i])

/-- `serialize`: the 140 bytes put into the caller's buffer.  `comms` is the
uninitialised local, as it is found on the stack. -/
def serialize (comms : Nat → UInt8) (dataStructure : List UInt8) : List UInt8 :=
  let comms : Cells UInt8 := ⟨comms, []⟩
  let comms := comms.write 0 (Bytes.ofWord magicNumber)
  let comms := comms.write bufferOffset dataStructure
  let (checksum, _) := checksumLoop (payload comms.get) dataStructure.length
  let comms := comms.write checksumOffset [checksum]
  let comms := comms.write 4 (Bytes.ofWord (.ofNat dataStructure.length))
  Cells.slice comms.get 0 packetSize

/-! ## The receiver -/

/-- The static variables of `assemble`, and `_privateBuffer`, which is the
output buffer `deserialize` passes to it. -/
structure Assembler where
  counter : Nat
  leftoverFlag : Bool
  leftoverCount : Nat
  leftoverBuffer : Cells UInt8
  privateBuffer : Cells UInt8

/-- The assembler as the program starts, with `leftover` and `private` the
memory from the two arrays on. -/
def Assembler.initial (leftover privateMem : Nat → UInt8) : Assembler where
  counter := 0
  leftoverFlag := false
  leftoverCount := 0
  leftoverBuffer := ⟨leftover, []⟩
  privateBuffer := ⟨privateMem, []⟩

/-- `if(leftoverFlag) { … }`, the part of `assemble` that copies in leftovers. -/
def Assembler.copyLeftovers (s : Assembler) : Assembler :=
  if s.leftoverFlag then
    let copyCount := if s.leftoverCount ≤ packetSize then s.leftoverCount else packetSize
    { s with
      leftoverFlag := ! decide (s.leftoverCount ≤ packetSize)
      leftoverCount := s.leftoverCount - copyCount
      privateBuffer := s.privateBuffer.copy s.counter s.leftoverBuffer.get copyCount
      counter := s.counter + copyCount }
  else s

/-- The end of `assemble`: `bytesLeft` bytes go to the output buffer, and the
frame is complete when that fills it. -/
def Assembler.finish (s : Assembler) (inputBuffer : Nat → UInt8) (bytesLeft : Nat) :
    Assembler × TResult :=
  let s := { s with
    privateBuffer := s.privateBuffer.copy s.counter inputBuffer bytesLeft
    counter := s.counter + bytesLeft }
  if s.counter = packetSize then ({ s with counter := 0 }, .packetComplete)
  else (s, .packetIncomplete)

/-- `assemble(_privateBuffer, inputBuffer, len)`.  The subtractions do not go
below zero: `counter ≤ PACKET_SIZE` after the leftovers. -/
def assemble (s : Assembler) (inputBuffer : Nat → UInt8) (len : Nat) : Assembler × TResult :=
  let s := s.copyLeftovers
  if s.counter + len ≥ packetSize then
    let bytesLeft := packetSize - s.counter
    let bytesToCopy := len - bytesLeft
    let s := { s with
      leftoverFlag := true
      leftoverBuffer :=
        s.leftoverBuffer.copy s.leftoverCount (fun i => inputBuffer (bytesLeft + i)) bytesToCopy
      leftoverCount := s.leftoverCount + bytesToCopy }
    s.finish inputBuffer bytesLeft
  else
    s.finish inputBuffer len

/-- What a call of `deserialize` gives back: its result, the caller's output
after it, and the indices of `comms->buffer` its checksum loop read. -/
structure Decoded where
  result : TResult
  output : Cells UInt8
  reads : List Nat

/-- What `deserialize` does with a complete frame. -/
def decode (comms : Nat → UInt8) (output : Cells UInt8) : Decoded :=
  if magic comms ≠ magicNumber then ⟨.packetBad, output, []⟩
  else
    let (checksum, reads) := checksumLoop (payload comms) (dataSize comms).toNat
    if checksum ≠ comms checksumOffset then ⟨.packetChecksumBad, output, reads⟩
    else ⟨.packetOk, output.copy 0 (payload comms) (dataSize comms).toNat, reads⟩

def deserialize (s : Assembler) (buffer : Nat → UInt8) (len : Nat) (output : Cells UInt8) :
    Assembler × Decoded :=
  match assemble s buffer len with
  | (s, .packetComplete) => (s, decode s.privateBuffer.get output)
  | (s, result) => (s, ⟨result, output, []⟩)

/-! ## The sender's frame -/

theorem checksumLoop_fst (buffer : Nat → UInt8) (n : Nat) :
    (checksumLoop buffer n).1 = Bytes.checksum (Cells.slice buffer 0 n) := by
  induction n with
  | zero => rfl
  | succ n ih =>
      show (checksumLoop buffer n).1 ^^^ buffer n = _
      rw [ih, Cells.slice_add]
      show _ = Bytes.checksum (_ ++ [buffer (0 + n)])
      rw [Bytes.checksum_concat, Nat.zero_add]

theorem checksumLoop_snd (buffer : Nat → UInt8) (n : Nat) :
    (checksumLoop buffer n).2 = List.range n := by
  induction n with
  | zero => rfl
  | succ n ih =>
      show (checksumLoop buffer n).2 ++ [n] = _
      rw [ih, List.range_succ]

theorem slice_payload (comms : Nat → UInt8) (n : Nat) :
    Cells.slice (payload comms) 0 n = Cells.slice comms bufferOffset n :=
  Cells.slice_shift comms 0 bufferOffset n

@[simp] theorem length_serialize (comms : Nat → UInt8) (d : List UInt8) :
    (serialize comms d).length = packetSize :=
  Cells.length_slice ..

theorem TPacket.length_bytes_le (p : TPacket) : p.bytes.length ≤ maxDataSize := by
  rw [TPacket.length_bytes]
  decide

/-- A frame in memory: the four fields `deserialize` reads, for data of
`n` bytes. -/
structure IsFrame (m : Nat → UInt8) (d : List UInt8) : Prop where
  magic_eq : magic m = magicNumber
  dataSize_eq : (dataSize m).toNat = d.length
  payload_eq : Cells.slice (payload m) 0 d.length = d
  checksum_eq : m checksumOffset = Bytes.checksum d

theorem IsFrame.congr {m m' : Nat → UInt8} {d : List UInt8} (hd : d.length ≤ maxDataSize)
    (h : Cells.slice m 0 packetSize = Cells.slice m' 0 packetSize) (hf : IsFrame m' d) :
    IsFrame m d := by
  have hm := Cells.slice_zero_eq_iff.mp h
  have hs (off n : Nat) (hn : off + n ≤ packetSize) :
      Cells.slice m off n = Cells.slice m' off n :=
    Cells.slice_congr fun j _ hj => hm j (by omega)
  simp only [maxDataSize] at hd
  refine ⟨?_, ?_, ?_, ?_⟩
  · exact (Bytes.word_congr (hs 0 4 (by decide))).trans hf.magic_eq
  · rw [← hf.dataSize_eq]
    exact congrArg UInt32.toNat (Bytes.word_congr (hs 4 4 (by decide)))
  · rw [slice_payload, hs _ _ (by simp only [bufferOffset, packetSize]; omega), ← slice_payload]
    exact hf.payload_eq
  · exact (hm _ (by decide)).trans hf.checksum_eq

/-- Memory that holds a serialized structure holds its frame. -/
theorem isFrame_serialize {m : Nat → UInt8} {comms : Nat → UInt8} {d : List UInt8}
    (hd : d.length ≤ maxDataSize) (h : Cells.slice m 0 packetSize = serialize comms d) :
    IsFrame m d := by
  have hd' : d.length ≤ 128 := hd
  refine IsFrame.congr hd h ?_
  have hsize : (Bytes.ofWord (UInt32.ofNat d.length)).length = 4 := rfl
  have hpay (f : Nat → UInt8) (c : Cells UInt8)
      (hf : ∀ j, bufferOffset ≤ j → j < bufferOffset + d.length →
        f j = (c.write bufferOffset d).get j) :
      Cells.slice (payload f) 0 d.length = d := by
    rw [slice_payload, Cells.slice_congr hf, Cells.slice_write]
  refine ⟨?_, ?_, ?_, ?_⟩
  · apply Bytes.word_of_slice
    rw [Cells.slice_write_disjoint (.inl (by decide)),
      Cells.slice_write_disjoint (.inl (by decide)),
      Cells.slice_write_disjoint (.inl (by decide))]
    exact Cells.slice_write _ _ (Bytes.ofWord magicNumber)
  · have hw (c : Cells UInt8) :
        dataSize (c.write 4 (Bytes.ofWord (.ofNat d.length))).get = .ofNat d.length :=
      Bytes.word_of_slice (Cells.slice_write c 4 (Bytes.ofWord (.ofNat d.length)))
    rw [hw, UInt32.toNat_ofNat']
    exact Nat.mod_eq_of_lt (by omega)
  · apply hpay
    intro j h₁ h₂
    simp only [bufferOffset] at h₁ h₂
    rw [Cells.get_write_of_lt (.inr (by omega)),
      Cells.get_write_of_lt (.inl (by simp only [checksumOffset]; omega))]
  · rw [Cells.get_write_of_lt (.inr (by simp only [checksumOffset]; omega)), Cells.get_write,
      dif_pos ⟨Nat.le_refl _, Nat.lt_succ_self _⟩]
    show (checksumLoop _ d.length).1 = _
    rw [checksumLoop_fst, hpay _ _ fun _ _ _ => rfl]

end Alex
