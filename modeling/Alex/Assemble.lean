/-
# `Alex.Assemble` — the assembler is the block decoder

Between two calls the assembler holds the start of an unfinished frame, part of
it in `_privateBuffer` and, after a call that completed a frame, all of it in
`leftoverBuffer`: `Assembler.pending`.  As long as no chunk is longer than
`PACKET_SIZE`, what is pending is shorter than a frame (`Assembler.Between`), and
a call does to it what `Blocks.push` does to a list (`assemble_push`):

    assemble s chunk         pending s ++ chunk  shorter than a frame: kept, PACKET_INCOMPLETE
                             otherwise           the first 140 bytes in _privateBuffer,
                                                 the others pending, PACKET_COMPLETE

Hence a receiver that calls `deserialize` chunk by chunk is `Blocks.blockDecoder`
followed by `decode` (`link_simulates`).
-/
import Alex.Lib.Blocks
import Alex.Serialize

namespace Alex

open Cells

/-- The bytes received after the last complete frame. -/
def Assembler.pending (s : Assembler) : List UInt8 :=
  slice s.privateBuffer.get 0 s.counter ++ slice s.leftoverBuffer.get 0 s.leftoverCount

/-- The assembler between two calls: less than a frame is pending, and it is in
`leftoverBuffer` after a complete frame, in `_privateBuffer` otherwise. -/
structure Assembler.Between (s : Assembler) : Prop where
  counter_lt : s.counter < packetSize
  leftover_lt : s.leftoverCount < packetSize
  flag : if s.leftoverFlag then s.counter = 0 else s.leftoverCount = 0

theorem Assembler.between_initial (l p : Nat → UInt8) : (initial l p).Between :=
  ⟨Nat.zero_lt_succ _, Nat.zero_lt_succ _, rfl⟩

/-- What `copyLeftovers` does between two calls: all that is pending is in
`_privateBuffer` afterwards. -/
theorem Assembler.Between.copyLeftovers {s : Assembler} (h : s.Between) :
    s.copyLeftovers =
      { s with
        leftoverFlag := false
        leftoverCount := 0
        counter := s.pending.length
        privateBuffer :=
          s.privateBuffer.write s.counter (slice s.leftoverBuffer.get 0 s.leftoverCount) } := by
  obtain ⟨-, hl, hf⟩ := h
  obtain ⟨counter, leftoverFlag, leftoverCount, leftoverBuffer, privateBuffer⟩ := s
  cases leftoverFlag with
  | false =>
      obtain rfl : leftoverCount = 0 := by simpa using hf
      simp [Assembler.copyLeftovers, pending]
  | true =>
      obtain rfl : counter = 0 := by simpa using hf
      have hle : leftoverCount ≤ packetSize := Nat.le_of_lt hl
      simp [Assembler.copyLeftovers, pending, hle, copy_eq_write]

theorem Assembler.Between.slice_copyLeftovers {s : Assembler} (h : s.Between) :
    slice s.copyLeftovers.privateBuffer.get 0 s.pending.length = s.pending := by
  rw [h.copyLeftovers]
  have := slice_write_extend s.privateBuffer s.counter (slice s.leftoverBuffer.get 0 s.leftoverCount)
  simpa [pending] using this

theorem Assembler.Between.length_pending {s : Assembler} (h : s.Between) :
    s.pending.length < packetSize := by
  have h₁ := h.counter_lt
  have h₂ := h.leftover_lt
  have h₃ := h.flag
  simp only [pending, List.length_append, length_slice]
  split at h₃ <;> omega

/-! ## One call -/

section
variable {s : Assembler} {input : Nat → UInt8} {len : Nat}

/-- A call whose bytes do not fill the frame adds them behind the pending ones. -/
theorem assemble_short (h : s.Between) (hlt : s.pending.length + len < packetSize) :
    assemble s input len =
      ({ s with
          leftoverFlag := false
          leftoverCount := 0
          counter := s.pending.length + len
          privateBuffer :=
            s.copyLeftovers.privateBuffer.write s.pending.length (slice input 0 len) },
        .packetIncomplete) := by
  have hc : s.copyLeftovers.counter = s.pending.length := by rw [h.copyLeftovers]
  rw [assemble, if_neg (by rw [hc]; omega), Assembler.finish, if_neg (by simp only [hc]; omega),
    copy_eq_write, hc]
  rw [h.copyLeftovers]

/-- A call whose bytes fill the frame completes it and keeps the others. -/
theorem assemble_full (h : s.Between) (hge : packetSize ≤ s.pending.length + len) :
    assemble s input len =
      ({ s with
          leftoverFlag := true
          leftoverBuffer := s.leftoverBuffer.write 0
            (slice input (packetSize - s.pending.length)
              (len - (packetSize - s.pending.length)))
          leftoverCount := len - (packetSize - s.pending.length)
          counter := 0
          privateBuffer := s.copyLeftovers.privateBuffer.write s.pending.length
            (slice input 0 (packetSize - s.pending.length)) },
        .packetComplete) := by
  have hp := h.length_pending
  have hc : s.copyLeftovers.counter = s.pending.length := by rw [h.copyLeftovers]
  have hl : s.copyLeftovers.leftoverCount = 0 := by rw [h.copyLeftovers]
  have hsum : s.pending.length + (packetSize - s.pending.length) = packetSize := by omega
  rw [assemble, if_pos (by rw [hc]; omega), Assembler.finish,
    if_pos (by simp only [hc]; exact hsum)]
  simp only [copy_eq_write, hc, hl, slice_shift, Nat.zero_add, Nat.add_zero]
  rw [h.copyLeftovers]

/-- **One call does to the pending bytes what `Blocks.push` does to a list**, and
leaves the assembler fit for the next call. -/
theorem assemble_push (h : s.Between) (hlen : len ≤ packetSize) :
    (assemble s input len).1.Between ∧
    match Blocks.push packetSize s.pending (slice input 0 len) with
    | (held, none) =>
        (assemble s input len).2 = .packetIncomplete ∧ (assemble s input len).1.pending = held
    | (held, some b) =>
        (assemble s input len).2 = .packetComplete ∧ (assemble s input len).1.pending = held ∧
        slice (assemble s input len).1.privateBuffer.get 0 packetSize = b := by
  have hp := h.length_pending
  have hpriv := h.slice_copyLeftovers
  have hlin : (slice input 0 len).length = len := length_slice ..
  by_cases hlt : s.pending.length + len < packetSize
  · have hpush : Blocks.push packetSize s.pending (slice input 0 len) =
        (s.pending ++ slice input 0 len, none) := by
      rw [Blocks.push, if_neg (by rw [List.length_append, hlin]; omega)]
    rw [hpush, assemble_short h hlt]
    refine ⟨⟨hlt, Nat.zero_lt_succ _, rfl⟩, rfl, ?_⟩
    have := slice_write_extend s.copyLeftovers.privateBuffer s.pending.length (slice input 0 len)
    rw [hlin, hpriv] at this
    simpa [Assembler.pending] using this
  · obtain ⟨k, hk⟩ := Nat.exists_eq_add_of_le (Nat.le_of_lt hp)
    have hsub : packetSize - s.pending.length = k := by omega
    obtain ⟨r, rfl⟩ : ∃ r, len = k + r := ⟨len - k, by omega⟩
    have hsplit : slice input 0 (k + r) = slice input 0 k ++ slice input k r := by
      rw [slice_add, Nat.zero_add]
    have hbytes : s.pending ++ slice input 0 (k + r) =
        (s.pending ++ slice input 0 k) ++ slice input k r := by
      rw [hsplit, List.append_assoc]
    have hfront : (s.pending ++ slice input 0 k).length = packetSize := by
      rw [List.length_append, length_slice, hk]
    have hpush : Blocks.push packetSize s.pending (slice input 0 (k + r)) =
        (slice input k r, some (s.pending ++ slice input 0 k)) := by
      rw [Blocks.push, if_pos (by rw [List.length_append, hlin]; omega), hbytes,
        ← hfront, List.drop_append_length, List.take_append_length]
    have hge : packetSize ≤ s.pending.length + (k + r) := by omega
    have hrest : k + r - (packetSize - s.pending.length) = r := by omega
    rw [hpush, assemble_full h hge, hrest, hsub]
    refine ⟨⟨Nat.zero_lt_succ _, by show r < packetSize; omega, rfl⟩, rfl, ?_, ?_⟩
    · have := slice_write s.leftoverBuffer 0 (slice input k r)
      rw [length_slice] at this
      simpa [Assembler.pending] using this
    · have := slice_write_extend s.copyLeftovers.privateBuffer s.pending.length (slice input 0 k)
      rw [length_slice, hpriv, ← hk] at this
      exact this

theorem assemble_beyond (h : s.Between) {j : Nat} (hj : packetSize ≤ j) :
    (assemble s input len).1.privateBuffer.get j = s.privateBuffer.get j := by
  have hp := h.length_pending
  have hc : s.copyLeftovers.privateBuffer.get j = s.privateBuffer.get j := by
    rw [h.copyLeftovers]
    have hlen : s.pending.length = s.counter + s.leftoverCount := by simp [Assembler.pending]
    exact get_write_of_lt (.inr (by rw [length_slice]; omega))
  by_cases hlt : s.pending.length + len < packetSize
  · rw [assemble_short h hlt]
    exact (get_write_of_lt (.inr (by rw [length_slice]; omega))).trans hc
  · rw [assemble_full h (by omega)]
    exact (get_write_of_lt (.inr (by rw [length_slice]; omega))).trans hc

/-- The stores of one call are inside `_privateBuffer` and `leftoverBuffer`. -/
theorem assemble_stored (h : s.Between) (hlen : len ≤ packetSize)
    (hpriv : ∀ i ∈ s.privateBuffer.stored, i < packetSize)
    (hleft : ∀ i ∈ s.leftoverBuffer.stored, i < packetSize) :
    (∀ i ∈ (assemble s input len).1.privateBuffer.stored, i < packetSize) ∧
    (∀ i ∈ (assemble s input len).1.leftoverBuffer.stored, i < packetSize) := by
  have hp := h.length_pending
  have hlp : s.pending.length = s.counter + s.leftoverCount := by simp [Assembler.pending]
  have hc : ∀ i ∈ s.copyLeftovers.privateBuffer.stored, i < packetSize := by
    intro i hi
    rw [h.copyLeftovers, mem_stored_write, length_slice] at hi
    rcases hi with hi | hi
    · exact hpriv i hi
    · omega
  by_cases hlt : s.pending.length + len < packetSize
  · rw [assemble_short h hlt]
    refine ⟨fun i hi => ?_, hleft⟩
    rcases (mem_stored_write ..).mp hi with hi | hi
    · exact hc i hi
    · rw [length_slice] at hi
      omega
  · rw [assemble_full h (by omega)]
    constructor
    · intro i hi
      rcases (mem_stored_write ..).mp hi with hi | hi
      · exact hc i hi
      · rw [length_slice] at hi
        omega
    · intro i hi
      rcases (mem_stored_write ..).mp hi with hi | hi
      · exact hleft i hi
      · rw [length_slice] at hi
        omega

end

end Alex
