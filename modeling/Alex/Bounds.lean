/-
# `Alex.Bounds` — which stores of the receive path stay inside their arrays

* The three arrays of `PACKET_SIZE` bytes.  As long as every read returns at most
  `PACKET_SIZE` bytes, every store of the read and of `assemble` is inside
  (`receive_in_bounds_iff`): less than a frame is pending between two calls, so
  the leftovers of a call are at most `PACKET_SIZE - 1`.  A longer read, which
  both programs admit, is itself the first store outside.
* The caller's packet.  `dataSize` comes from the wire and is not compared with
  anything, so the checksum loop and the copy go as far as it says
  (`deserialize_fits_iff`).
-/
import Alex.Receive
import Alex.Uart

namespace Alex

open Cells

/-! ## The arrays of the receive path -/

/-- Every store so far into `buffer`, `leftoverBuffer` and the output buffer of
`assemble` was inside the array. -/
structure Uart.InBounds (s : Uart) : Prop where
  buffer : ∀ i ∈ s.buffer.stored, i < packetSize
  leftoverBuffer : ∀ i ∈ s.assembler.leftoverBuffer.stored, i < packetSize
  privateBuffer : ∀ i ∈ s.assembler.privateBuffer.stored, i < packetSize

theorem Uart.inBounds_initial (l p b k : Nat → UInt8) : (initial l p b k).InBounds :=
  ⟨fun _ h => absurd h List.not_mem_nil, fun _ h => absurd h List.not_mem_nil,
    fun _ h => absurd h List.not_mem_nil⟩

theorem deserialize_assembler (s : Assembler) (buffer : Nat → UInt8) (len : Nat)
    (out : Cells UInt8) : (deserialize s buffer len out).1 = (assemble s buffer len).1 := by
  rcases ha : assemble s buffer len with ⟨a, r⟩
  cases r <;> simp only [deserialize, ha]

@[simp] theorem Uart.deserialize_assembler (s : Uart) (len : Nat) :
    (s.deserialize len).1.assembler = (assemble s.assembler s.buffer.get len).1 :=
  Alex.deserialize_assembler ..

/-- The memory after a read of `bytes` into `buffer`, which held `mem`. -/
def Uart.afterRead (s : Uart) (mem : Nat → UInt8) (bytes : List UInt8) : Uart :=
  { s with buffer := Cells.write ⟨mem, s.buffer.stored⟩ 0 bytes }

/-- One pass of the Pi's loop is a read, and a call of `deserialize` if it
returned something. -/
theorem uartReceiveThread_cases (s : Uart) (bytes : {l : List UInt8 // l.length ≤ maxBufferLen}) :
    (uartReceiveThread.step s (some bytes)).1 = s.afterRead s.buffer.get bytes.val ∨
    (uartReceiveThread.step s (some bytes)).1 =
      ((s.afterRead s.buffer.get bytes.val).deserialize bytes.val.length).1 := by
  by_cases h : (bytes.val.length : Int) > 0
  · refine .inr ?_
    show (if (bytes.val.length : Int) > 0 then _ else _ : Uart × Option TResult).1 = _
    rw [if_pos h]
    rfl
  · refine .inl ?_
    show (if (bytes.val.length : Int) > 0 then _ else _ : Uart × Option TResult).1 = _
    rw [if_neg h]
    rfl

theorem readPacket_cases (s : Uart) (stack : Nat → UInt8) (bytes : List UInt8) :
    (readPacket s stack bytes).1 = s.afterRead stack bytes ∨
    (readPacket s stack bytes).1 = ((s.afterRead stack bytes).deserialize bytes.length).1 := by
  by_cases h : bytes.length = 0
  · refine .inl ?_
    show (if bytes.length = 0 then _ else _ : Uart × TResult).1 = _
    rw [if_pos h]
    rfl
  · refine .inr ?_
    show (if bytes.length = 0 then _ else _ : Uart × TResult).1 = _
    rw [if_neg h]
    rfl

/-- The receive path is in bounds, and less than a frame is pending. -/
def Uart.Sound (s : Uart) : Prop := s.InBounds ∧ s.assembler.Between

theorem Uart.sound_initial (l p b k : Nat → UInt8) : (initial l p b k).Sound :=
  ⟨inBounds_initial l p b k, Assembler.between_initial l p⟩

theorem Uart.Sound.afterRead {s : Uart} {bytes : List UInt8} (mem : Nat → UInt8) (h : s.Sound)
    (hlen : bytes.length ≤ packetSize) : (s.afterRead mem bytes).Sound := by
  refine ⟨⟨?_, h.1.leftoverBuffer, h.1.privateBuffer⟩, h.2⟩
  intro i hi
  rcases (mem_stored_write ..).mp hi with hi | hi
  · exact h.1.buffer i hi
  · omega

theorem Uart.Sound.deserialize {s : Uart} {len : Nat} (h : s.Sound) (hlen : len ≤ packetSize) :
    (s.deserialize len).1.Sound := by
  obtain ⟨hp, hl⟩ := @assemble_stored _ s.buffer.get _ h.2 hlen h.1.privateBuffer h.1.leftoverBuffer
  refine ⟨⟨h.1.buffer, ?_, ?_⟩, ?_⟩
  · rw [deserialize_assembler]
    exact hl
  · rw [deserialize_assembler]
    exact hp
  · rw [deserialize_assembler]
    exact (assemble_push h.2 hlen).1

/-- A read of at most `PACKET_SIZE` bytes keeps the Pi's receive path sound. -/
theorem uartReceiveThread_sound {s : Uart} {input : SerialInput}
    (hlen : ∀ bytes ∈ input, bytes.val.length ≤ packetSize) (h : s.Sound) :
    (uartReceiveThread.step s input).1.Sound := by
  cases input with
  | none => exact h
  | some bytes =>
      have ht := h.afterRead s.buffer.get (hlen bytes rfl)
      rcases uartReceiveThread_cases s bytes with hs | hs
      · rw [hs]
        exact ht
      · rw [hs]
        exact ht.deserialize (hlen bytes rfl)

/-- At most `PACKET_SIZE` available bytes keep the Arduino's receive path sound. -/
theorem readPacket_sound {s : Uart} {stack : Nat → UInt8} {bytes : List UInt8}
    (hlen : bytes.length ≤ packetSize) (h : s.Sound) : (readPacket s stack bytes).1.Sound := by
  have ht := h.afterRead stack hlen
  rcases readPacket_cases s stack bytes with hs | hs
  · rw [hs]
    exact ht
  · rw [hs]
    exact ht.deserialize hlen

theorem Uart.mem_stored_afterRead {s : Uart} {mem : Nat → UInt8} {bytes : List UInt8} {i : Nat}
    (h : i ∈ s.buffer.stored ∨ i < bytes.length) : i ∈ (s.afterRead mem bytes).buffer.stored :=
  (mem_stored_write ..).mpr (h.imp id fun h => ⟨Nat.zero_le _, by omega⟩)

theorem uartReceiveThread_stored {s : Uart} {input : SerialInput} {i : Nat}
    (h : i ∈ s.buffer.stored ∨ ∃ bytes ∈ input, i < bytes.val.length) :
    i ∈ (uartReceiveThread.step s input).1.buffer.stored := by
  cases input with
  | none =>
      rcases h with h | ⟨_, hb, _⟩
      · exact h
      · exact absurd hb (by simp)
  | some bytes =>
      have ht : i ∈ (s.afterRead s.buffer.get bytes.val).buffer.stored := by
        refine Uart.mem_stored_afterRead (h.imp id ?_)
        rintro ⟨b, hb, hi⟩
        obtain rfl : bytes = b := by simpa using hb
        exact hi
      rcases uartReceiveThread_cases s bytes with hs | hs
      · rw [hs]
        exact ht
      · rw [hs]
        exact ht

theorem readPacket_stored {s : Uart} {stack : Nat → UInt8} {bytes : List UInt8} {i : Nat}
    (h : i ∈ s.buffer.stored ∨ i < bytes.length) :
    i ∈ (readPacket s stack bytes).1.buffer.stored := by
  have ht : i ∈ (s.afterRead stack bytes).buffer.stored := Uart.mem_stored_afterRead h
  rcases readPacket_cases s stack bytes with hs | hs
  · rw [hs]
    exact ht
  · rw [hs]
    exact ht

theorem Uart.stored_final {ι ω : Type} {M : Mealy Uart ι ω} {stores : ι → Prop} {i : Nat}
    (hkeep : ∀ s j, i ∈ s.buffer.stored → i ∈ (M.step s j).1.buffer.stored)
    (hstore : ∀ s j, stores j → i ∈ (M.step s j).1.buffer.stored) {s : Uart} {js : List ι}
    (h : ∃ j ∈ js, stores j) : i ∈ (M.final s js).buffer.stored := by
  obtain ⟨j, hj, hi⟩ := h
  obtain ⟨pre, post, rfl⟩ := List.append_of_mem hj
  rw [Mealy.final_append, Mealy.final_cons]
  exact M.final_invariant (I := fun s => i ∈ s.buffer.stored) (P := fun _ => True)
    (fun s j _ h => hkeep s j h) (fun _ _ => trivial) (hstore _ _ hi)

/-- **The receive path is in bounds exactly when no read is longer than
`PACKET_SIZE`**, on the Pi and on the Arduino. -/
theorem receive_in_bounds_iff (l p b k : Nat → UInt8) (piReads : List SerialInput)
    (arduinoReads : List ((Nat → UInt8) × List UInt8)) :
    ((uartReceiveThread.final (.initial l p b k) piReads).InBounds ↔
      ∀ r ∈ piReads, ∀ bytes ∈ r, bytes.val.length ≤ packetSize) ∧
    ((readPackets.final (.initial l p b k) arduinoReads).InBounds ↔
      ∀ r ∈ arduinoReads, r.2.length ≤ packetSize) := by
  constructor
  · constructor
    · intro h r hr bytes hb
      by_contra hlt
      have hin := Uart.stored_final (s := .initial l p b k) (i := packetSize)
        (M := uartReceiveThread) (fun s j hs => uartReceiveThread_stored (.inl hs))
        (fun s j hs => uartReceiveThread_stored (.inr hs)) ⟨r, hr, bytes, hb, by omega⟩
      exact Nat.lt_irrefl _ (h.buffer _ hin)
    · intro h
      exact (uartReceiveThread.final_invariant (fun s j hj hs => uartReceiveThread_sound hj hs) h
        (Uart.sound_initial l p b k)).1
  · constructor
    · intro h r hr
      by_contra hlt
      have hin := Uart.stored_final (s := .initial l p b k) (i := packetSize)
        (M := readPackets) (fun s j hs => readPacket_stored (.inl hs))
        (fun s j hs => readPacket_stored (.inr hs)) ⟨r, hr, by omega⟩
      exact Nat.lt_irrefl _ (h.buffer _ hin)
    · intro h
      exact (readPackets.final_invariant
        (P := fun r : (Nat → UInt8) × List UInt8 => r.2.length ≤ packetSize)
        (fun s j hj hs => readPacket_sound hj hs) h (Uart.sound_initial l p b k)).1

/-- Two frames that arrive back to back, as one read returns them. -/
def backToBack : {bytes : List UInt8 // bytes.length ≤ maxBufferLen} :=
  ⟨List.replicate 280 0, by rw [List.length_replicate]; decide⟩

/-- One read of two frames leaves the buffer. -/
theorem two_frames_not_in_bounds :
    ¬ (uartReceiveThread.final (.initial (fun _ => 0) (fun _ => 0) (fun _ => 0) (fun _ => 0))
      [some backToBack]).InBounds := by
  intro h
  rw [Mealy.final_cons, Mealy.final_nil] at h
  have hlen : packetSize < backToBack.val.length := by
    rw [backToBack, List.length_replicate]
    decide
  have hmem : ∃ bytes ∈ some backToBack, packetSize < bytes.val.length := ⟨backToBack, rfl, hlen⟩
  exact Nat.lt_irrefl _ (h.buffer _ (uartReceiveThread_stored (.inr hmem)))

/-! ## The caller's packet -/

/-- The checksum loop stays inside `comms->buffer`, and a packet is accepted only
if exactly the 100 bytes of a `TPacket` are written for it. -/
def Decoded.Fits (d : Decoded) : Prop :=
  (∀ i ∈ d.reads, i < maxDataSize) ∧
  (d.result = .packetOk → ∀ i, i ∈ d.output.stored ↔ i < sizeofTPacket)

/-- A frame on which `deserialize` does no harm: it has another magic number, or
its size fits the data field and is that of a `TPacket` unless the checksum is
wrong. -/
def HarmlessFrame (comms : Nat → UInt8) : Prop :=
  magic comms ≠ magicNumber ∨
  ((dataSize comms).toNat ≤ maxDataSize ∧
    ((dataSize comms).toNat = sizeofTPacket ∨
      Bytes.checksum (slice comms bufferOffset (dataSize comms).toNat) ≠ comms checksumOffset))

theorem forall_mem_range_lt {n m : Nat} : (∀ i ∈ List.range n, i < m) ↔ n ≤ m := by
  constructor
  · intro h
    by_contra hlt
    exact Nat.lt_irrefl _ (h m (List.mem_range.mpr (by omega)))
  · intro h i hi
    exact Nat.lt_of_lt_of_le (List.mem_range.mp hi) h

theorem stored_write_iff {mem : Nat → UInt8} {l : List UInt8} {m : Nat} :
    (∀ i, i ∈ (Cells.write ⟨mem, []⟩ 0 l).stored ↔ i < m) ↔ l.length = m := by
  have hmem (i : Nat) : i ∈ (Cells.write ⟨mem, []⟩ 0 l).stored ↔ i < l.length := by
    rw [mem_stored_write]
    simp
  constructor
  · intro h
    have h₁ := (hmem l.length).symm.trans (h l.length)
    have h₂ := (hmem m).symm.trans (h m)
    omega
  · rintro rfl
    exact hmem

theorem decode_fits_iff (comms mem : Nat → UInt8) :
    (decode comms ⟨mem, []⟩).Fits ↔ HarmlessFrame comms := by
  rw [decode_eq, HarmlessFrame]
  by_cases hm : magic comms = magicNumber
  · rw [if_neg (not_not_intro hm)]
    by_cases hx : Bytes.checksum (slice comms bufferOffset (dataSize comms).toNat) =
        comms checksumOffset
    · rw [if_neg (not_not_intro hx)]
      simp only [Decoded.Fits, forall_mem_range_lt, stored_write_iff, length_slice, hm, hx,
        ne_eq, not_true_eq_false, false_or, or_false, true_implies]
    · rw [if_pos hx]
      simp only [Decoded.Fits, forall_mem_range_lt, hm, hx, ne_eq, not_true_eq_false,
        not_false_eq_true, false_or, or_true, and_true, reduceCtorEq, false_implies]
  · rw [if_pos hm]
    refine iff_of_true ⟨fun _ h => absurd h List.not_mem_nil, fun h => nomatch h⟩ (.inl hm)

/-- **A completed frame is handled without harm exactly when it is harmless.** -/
theorem deserialize_fits_iff (s : Assembler) (buffer mem : Nat → UInt8) (len : Nat)
    (h : (assemble s buffer len).2 = .packetComplete) :
    (deserialize s buffer len ⟨mem, []⟩).2.Fits ↔
      HarmlessFrame (assemble s buffer len).1.privateBuffer.get := by
  rw [← decode_fits_iff _ mem]
  rcases ha : assemble s buffer len with ⟨a, r⟩
  rw [ha] at h
  obtain rfl : r = .packetComplete := h
  rw [deserialize, ha]

/-- A completed frame: that of a packet of zeroes. -/
theorem deserialize_fits_zeroes :
    let frame := chunkBuffer (serialize (fun _ => 0) (List.replicate 100 0))
    (deserialize (.initial (fun _ => 0) (fun _ => 0)) frame packetSize ⟨fun _ => 0, []⟩).2.Fits ↔
      HarmlessFrame
        (assemble (.initial (fun _ => 0) (fun _ => 0)) frame packetSize).1.privateBuffer.get :=
  deserialize_fits_iff _ _ _ _ rfl

/-- The frame of an empty structure is accepted, and nothing is written for it. -/
theorem empty_frame_not_fits :
    ¬ (deserialize (.initial (fun _ => 0) (fun _ => 0))
      (chunkBuffer (serialize (fun _ => 0) [])) packetSize ⟨fun _ => 0, []⟩).2.Fits := by
  intro h
  have hok : (deserialize (.initial (fun _ => 0) (fun _ => 0))
      (chunkBuffer (serialize (fun _ => 0) [])) packetSize ⟨fun _ => 0, []⟩).2.result =
        .packetOk := by
    decide +kernel
  have hnone : (deserialize (.initial (fun _ => 0) (fun _ => 0))
      (chunkBuffer (serialize (fun _ => 0) [])) packetSize ⟨fun _ => 0, []⟩).2.output.stored =
        [] := by
    decide +kernel
  have h₀ := (h.2 hok 0).mpr (by decide)
  rw [hnone] at h₀
  exact List.not_mem_nil h₀

end Alex
