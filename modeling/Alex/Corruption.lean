/-
# `Alex.Corruption` — a frame with one wrong byte

`serialize` protects the data with an exclusive or, and the frame with a magic
number; the size is protected by neither.  So one wrong byte among the 140 is

    offset   0 … 3    4 … 7     8 … 107       108 … 135   136          137 … 139
             magic    size      data          unused      checksum     unused
             noticed  see below noticed       harmless    noticed      harmless

and a wrong size is noticed only if it selects bytes with another exclusive or.
A size of 100 to 128 still delivers the packet; one below delivers its first bytes, and
leaves the rest of the caller's packet as it was; one above leads `deserialize` out of
the frame, whatever it may find there.
-/
import Alex.Receive

namespace Alex

open Cells

/-- The frame differs from the one sent in exactly one byte. -/
def OneByteOff (frame sent : List UInt8) : Prop :=
  ∃ i b, i < sent.length ∧ sent[i]? ≠ some b ∧ frame = sent.set i b

/-- The frame of a packet is rejected, or accepted as that packet. -/
def RejectedOrSent (p : TPacket) (d : Decoded) : Prop :=
  d.result = .packetBad ∨ d.result = .packetChecksumBad ∨
    (d.result = .packetOk ∧ slice d.output.get 0 sizeofTPacket = p.bytes)

/-- So it is, by what the frame itself says: `deserialize` reads `buffer[i]` inside the
array only. -/
def NeverAnother (p : TPacket) (d : Decoded) : Prop :=
  (∀ i ∈ d.reads, i < maxDataSize) ∧ RejectedOrSent p d

/-- The caller's packet after a frame of `size` bytes of data that passes for the
packet: with all its bytes there, or noticed, or by chance the same. -/
def SizeHarmless (p : TPacket) (size : Nat) (out : Nat → UInt8) : Prop :=
  sizeofTPacket ≤ size ∨ Bytes.checksum (p.bytes.drop size) ≠ 0 ∨
    ∀ j, size ≤ j → j < sizeofTPacket → out j = p.byte j

theorem deserialize_whole (l priv : Nat → UInt8) {frame : List UInt8}
    (hlen : frame.length = packetSize) (out : Cells UInt8) :
    ∃ m, slice m 0 packetSize = frame ∧
      (deserialize (.initial l priv) (chunkBuffer frame) packetSize out).2 = decode m out := by
  have hslice := slice_chunkBuffer frame
  rw [hlen] at hslice
  have hpush : Blocks.push packetSize (Assembler.initial l priv).pending
      (slice (chunkBuffer frame) 0 packetSize) = ([], some frame) := by
    show Blocks.push packetSize [] _ = _
    rw [hslice, Blocks.push, List.nil_append, if_pos (Nat.le_of_eq hlen.symm), ← hlen,
      List.take_length, List.drop_length]
  have ha := @assemble_push _ (chunkBuffer frame) packetSize (Assembler.between_initial l priv)
    (Nat.le_refl _)
  rw [hpush] at ha
  obtain ⟨-, hcomplete, -, hframe⟩ := ha
  refine ⟨_, hframe, ?_⟩
  rw [deserialize_complete out hcomplete]

/-- Memory that starts with the first bytes of a packet holds the packet if the others
are there as well. -/
theorem slice_bytes_iff {p : TPacket} {f : Nat → UInt8} {n : Nat}
    (h : ∀ j, j < n → f j = p.byte j) :
    slice f 0 sizeofTPacket = p.bytes ↔ ∀ j, n ≤ j → j < sizeofTPacket → f j = p.byte j := by
  rw [TPacket.bytes, slice_zero_eq_iff]
  constructor
  · exact fun he j _ hj => he j hj
  · intro he j hj
    rcases Nat.lt_or_ge j n with hlt | hge
    · exact h j hlt
    · exact he j hge hj

section
variable {p : TPacket} {m : Nat → UInt8} {out : Cells UInt8}

theorem rejectedOrSent_of_magic (h : magic m ≠ magicNumber) : RejectedOrSent p (decode m out) := by
  rw [decode_eq, if_pos h]
  exact .inl rfl

theorem reads_decode (h : magic m = magicNumber) :
    (decode m out).reads = List.range (dataSize m).toNat := by
  rw [decode_eq, if_neg (not_not_intro h)]
  split <;> rfl

theorem rejectedOrSent_of_checksum
    (h : Bytes.checksum (slice m bufferOffset (dataSize m).toNat) ≠ m checksumOffset) :
    RejectedOrSent p (decode m out) := by
  by_cases hm : magic m = magicNumber
  · rw [decode_eq, if_neg (not_not_intro hm), if_pos h]
    exact .inr (.inl rfl)
  · exact rejectedOrSent_of_magic hm

theorem rejectedOrSent_of_size (hdata : slice m bufferOffset sizeofTPacket = p.bytes)
    (hsize : sizeofTPacket ≤ (dataSize m).toNat) : RejectedOrSent p (decode m out) := by
  by_cases hx : Bytes.checksum (slice m bufferOffset (dataSize m).toNat) = m checksumOffset
  · by_cases hm : magic m = magicNumber
    · refine .inr (.inr ?_)
      rw [decode_eq, if_neg (not_not_intro hm), if_neg (not_not_intro hx)]
      refine ⟨rfl, ?_⟩
      obtain ⟨k, hk⟩ := Nat.exists_eq_add_of_le hsize
      have hwrite := slice_write out 0 (slice m bufferOffset (dataSize m).toNat)
      rw [length_slice, hk, slice_add, slice_add m] at hwrite
      rw [hk, slice_add m, ← hdata]
      exact List.append_inj_left hwrite (by rw [length_slice, length_slice])
    · exact rejectedOrSent_of_magic hm
  · exact rejectedOrSent_of_checksum hx

theorem rejectedOrSent_iff (hm : magic m = magicNumber)
    (hdata : slice m bufferOffset sizeofTPacket = p.bytes)
    (hx : m checksumOffset = Bytes.checksum p.bytes) :
    RejectedOrSent p (decode m out) ↔ SizeHarmless p (dataSize m).toNat out.get := by
  rcases Nat.lt_or_ge (dataSize m).toNat sizeofTPacket with hlt | hge
  · have hsplit : p.bytes = slice m bufferOffset (dataSize m).toNat ++
        p.bytes.drop (dataSize m).toNat := by
      have hadd := slice_add m bufferOffset (dataSize m).toNat
        (sizeofTPacket - (dataSize m).toNat)
      rw [Nat.add_sub_of_le (Nat.le_of_lt hlt), hdata] at hadd
      have hdrop := congrArg (List.drop (dataSize m).toNat) hadd
      rw [List.drop_left' (length_slice ..)] at hdrop
      rw [hdrop]
      exact hadd
    have hsum : m checksumOffset = Bytes.checksum (slice m bufferOffset (dataSize m).toNat) ^^^
        Bytes.checksum (p.bytes.drop (dataSize m).toNat) := by
      rw [← Bytes.checksum_append, ← hsplit, hx]
    by_cases hrest : Bytes.checksum (p.bytes.drop (dataSize m).toNat) = 0
    · -- the bytes that were cut off do not change the checksum
      rw [hrest, UInt8.xor_zero] at hsum
      have hbyte (j : Nat) (hj : j < (dataSize m).toNat) :
          (out.write 0 (slice m bufferOffset (dataSize m).toNat)).get j = p.byte j := by
        have hp := slice_eq_slice_iff.mp hdata j (Nat.lt_trans hj hlt)
        rw [Nat.zero_add] at hp
        rw [get_write, dif_pos ⟨Nat.zero_le _, by simpa using hj⟩, getElem_slice, Nat.sub_zero, hp]
      have hstale (j : Nat) (hj : (dataSize m).toNat ≤ j) :
          (out.write 0 (slice m bufferOffset (dataSize m).toNat)).get j = out.get j :=
        get_write_of_lt (.inr (by simpa using hj))
      have hcut := slice_bytes_iff hbyte
      rw [RejectedOrSent, SizeHarmless, decode_eq, if_neg (not_not_intro hm),
        if_neg (not_not_intro hsum.symm), hcut]
      constructor
      · rintro (h | h | ⟨-, h⟩)
        · exact nomatch h
        · exact nomatch h
        · exact .inr (.inr fun j hn hj => (hstale j hn).symm.trans (h j hn hj))
      · rintro (h | h | h)
        · exact absurd hlt (Nat.not_lt_of_le h)
        · exact absurd hrest h
        · exact .inr (.inr ⟨rfl, fun j hn hj => (hstale j hn).trans (h j hn hj)⟩)
    · have hne : Bytes.checksum (slice m bufferOffset (dataSize m).toNat) ≠ m checksumOffset := by
        intro h
        rw [← h, ← UInt8.xor_zero (a := Bytes.checksum (slice m _ _)), UInt8.xor_assoc,
          UInt8.xor_right_inj, UInt8.zero_xor] at hsum
        exact hrest hsum.symm
      exact iff_of_true (rejectedOrSent_of_checksum hne) (.inr (.inl hrest))
  · exact iff_of_true (rejectedOrSent_of_size hdata hge) (.inl hge)

theorem slice_of_isFrame {s : Nat → UInt8} (hs : IsFrame s p.bytes) :
    slice s bufferOffset sizeofTPacket = p.bytes := by
  rw [← slice_payload, ← p.length_bytes]
  exact hs.payload_eq

section
variable {s : Nat → UInt8} {i : Nat}

theorem word_of_other (hother : ∀ j, j < packetSize → j ≠ i → m j = s j) {off : Nat}
    (h4 : off + 4 ≤ packetSize) (ho : i < off ∨ off + 4 ≤ i) :
    Bytes.word m off = Bytes.word s off :=
  Bytes.word_eq_word_iff.mpr fun j h₁ h₂ => hother j (by omega) (by omega)

theorem dataSize_of_other (hs : IsFrame s p.bytes)
    (hother : ∀ j, j < packetSize → j ≠ i → m j = s j) (ho : i < 4 ∨ 8 ≤ i) :
    (dataSize m).toNat = sizeofTPacket := by
  rw [← p.length_bytes, ← hs.dataSize_eq]
  exact congrArg UInt32.toNat (word_of_other hother (by decide) ho)

theorem data_of_other (hs : IsFrame s p.bytes)
    (hother : ∀ j, j < packetSize → j ≠ i → m j = s j) (ho : i < 8 ∨ 108 ≤ i) :
    slice m bufferOffset sizeofTPacket = p.bytes := by
  rw [← slice_of_isFrame hs]
  refine slice_congr fun j h₁ h₂ => hother j ?_ ?_
  · simp only [bufferOffset, sizeofTPacket, packetSize] at h₂ ⊢
    omega
  · simp only [bufferOffset, sizeofTPacket] at h₁ h₂
    omega

theorem data_of_wrong {k : Nat} (hs : IsFrame s p.bytes)
    (hother : ∀ j, j < packetSize → j ≠ bufferOffset + k → m j = s j) :
    slice m bufferOffset sizeofTPacket = p.bytes.set k (m (bufferOffset + k)) := by
  have hcell := slice_eq_slice_iff.mp (slice_of_isFrame hs)
  apply List.ext_getElem
  · rw [length_slice, List.length_set, p.length_bytes]
  · intro j h₁ h₂
    rw [length_slice] at h₁
    rw [getElem_slice, List.getElem_set]
    split
    · rename_i hj
      rw [hj]
    · rename_i hj
      have hplace : bufferOffset + j < packetSize := by
        simp only [bufferOffset, packetSize, sizeofTPacket] at h₁ ⊢
        omega
      rw [hother _ hplace fun h => hj (Nat.add_left_cancel h).symm, hcell j h₁]
      exact (getElem_slice ..).symm

theorem checksum_ne_of_wrong {k : Nat} (hs : IsFrame s p.bytes) (hk : k < sizeofTPacket)
    (hother : ∀ j, j < packetSize → j ≠ bufferOffset + k → m j = s j)
    (hwrong : m (bufferOffset + k) ≠ s (bufferOffset + k)) :
    Bytes.checksum (slice m bufferOffset (dataSize m).toNat) ≠ m checksumOffset := by
  have hcell := slice_eq_slice_iff.mp (slice_of_isFrame hs) k hk
  have hlast : checksumOffset ≠ bufferOffset + k := by
    simp only [checksumOffset, bufferOffset, sizeofTPacket] at hk ⊢
    omega
  rw [dataSize_of_other hs hother (.inr (Nat.le_add_right _ _)), data_of_wrong hs hother,
    hother checksumOffset (by decide) hlast, hs.checksum_eq]
  have hk' : k < p.bytes.length := p.length_bytes.symm ▸ hk
  have hbyte : p.bytes[k] = s (bufferOffset + k) := (getElem_slice ..).trans hcell.symm
  exact Bytes.checksum_set_ne hk' (hbyte ▸ hwrong.symm)

theorem rejectedOrSent_iff_of_wrong (hs : IsFrame s p.bytes)
    (hi : i < packetSize) (hother : ∀ j, j < packetSize → j ≠ i → m j = s j)
    (hwrong : m i ≠ s i) :
    RejectedOrSent p (decode m out) ↔ SizeHarmless p (dataSize m).toNat out.get := by
  -- where the size is right, noticing is all there is to show
  have hnoticed (ho : i < 4 ∨ 8 ≤ i) (h : RejectedOrSent p (decode m out)) :
      RejectedOrSent p (decode m out) ↔ SizeHarmless p (dataSize m).toNat out.get :=
    iff_of_true h (.inl (Nat.le_of_eq (dataSize_of_other hs hother ho).symm))
  have hmagic (ho : 4 ≤ i) : magic m = magicNumber :=
    (word_of_other hother (by decide) (.inr ho)).trans hs.magic_eq
  have h136 : checksumOffset = 136 := rfl
  obtain hin | hin | hin | hin | hin : i < 4 ∨ (4 ≤ i ∧ i < 8) ∨ (8 ≤ i ∧ i < 108) ∨
      i = checksumOffset ∨ (108 ≤ i ∧ i ≠ checksumOffset) := by
    omega
  · refine hnoticed (.inl hin) (rejectedOrSent_of_magic fun h => ?_)
    have hms : Bytes.word m 0 = Bytes.word s 0 := h.trans hs.magic_eq.symm
    exact hwrong (Bytes.word_eq_word_iff.mp hms i (Nat.zero_le _) (by omega))
  · exact rejectedOrSent_iff (hmagic hin.1) (data_of_other hs hother (.inl hin.2))
      ((hother _ (by decide) (by omega)).trans hs.checksum_eq)
  · obtain ⟨k, rfl⟩ : ∃ k, i = bufferOffset + k := Nat.exists_eq_add_of_le hin.1
    have hk : k < sizeofTPacket := by
      simp only [bufferOffset, sizeofTPacket] at hin ⊢
      omega
    exact hnoticed (.inr hin.1)
      (rejectedOrSent_of_checksum (checksum_ne_of_wrong hs hk hother hwrong))
  · refine hnoticed (.inr (by omega)) (rejectedOrSent_of_checksum ?_)
    rw [dataSize_of_other hs hother (.inr (by omega)), data_of_other hs hother (.inr (by omega)),
      ← hs.checksum_eq, ← hin]
    exact hwrong.symm
  · exact rejectedOrSent_iff (hmagic (by omega)) (data_of_other hs hother (.inr hin.1))
      ((hother _ (by decide) hin.2.symm).trans hs.checksum_eq)

/-- A size past the array belongs to a frame that is right but for it. -/
theorem magic_of_size (hs : IsFrame s p.bytes)
    (hother : ∀ j, j < packetSize → j ≠ i → m j = s j) (hsize : maxDataSize < (dataSize m).toNat) :
    magic m = magicNumber := by
  have hi : 4 ≤ i := by
    by_contra hi
    rw [dataSize_of_other hs hother (.inl (by omega))] at hsize
    exact absurd hsize (by decide)
  exact (word_of_other hother (by decide) (.inr hi)).trans hs.magic_eq

theorem neverAnother_iff_of_wrong (hs : IsFrame s p.bytes)
    (hi : i < packetSize) (hother : ∀ j, j < packetSize → j ≠ i → m j = s j)
    (hwrong : m i ≠ s i) :
    NeverAnother p (decode m out) ↔
      (dataSize m).toNat ≤ maxDataSize ∧ SizeHarmless p (dataSize m).toNat out.get := by
  rw [NeverAnother, rejectedOrSent_iff_of_wrong hs hi hother hwrong]
  refine and_congr_left fun _ => ⟨fun hreads => ?_, fun hsize i hi => ?_⟩
  · by_contra hsize
    have hmem : maxDataSize ∈ (decode m out).reads := by
      rw [reads_decode (magic_of_size hs hother (Nat.not_le.mp hsize))]
      exact List.mem_range.mpr (Nat.not_le.mp hsize)
    exact absurd (hreads _ hmem) (Nat.lt_irrefl _)
  · by_cases hm : magic m = magicNumber
    · rw [reads_decode hm] at hi
      exact (List.mem_range.mp hi).trans_le hsize
    · rw [decode_eq, if_pos hm] at hi
      exact absurd hi List.not_mem_nil

end

end

/-- **One wrong byte.**  A frame that differs from that of a packet in one byte is
rejected or accepted as this packet, unless the size is what is wrong and is past
`MAX_DATA_SIZE`, or is below 100, cuts off bytes whose exclusive or is zero, and the
caller's packet held others there. -/
theorem one_byte_off_iff (l priv comms : Nat → UInt8) (p : TPacket) (frame : List UInt8)
    (out : Cells UInt8) (h : OneByteOff frame (serialize comms p.bytes)) :
    NeverAnother p (deserialize (.initial l priv) (chunkBuffer frame) packetSize out).2 ↔
      (dataSize (chunkBuffer frame)).toNat ≤ maxDataSize ∧
        SizeHarmless p (dataSize (chunkBuffer frame)).toNat out.get := by
  obtain ⟨i, b, hi, hb, rfl⟩ := h
  rw [length_serialize] at hi
  have hlen : ((serialize comms p.bytes).set i b).length = packetSize := by
    rw [List.length_set, length_serialize]
  obtain ⟨m, hm, hd⟩ := deserialize_whole l priv hlen out
  have hs := slice_chunkBuffer (serialize comms p.bytes)
  have hf := slice_chunkBuffer ((serialize comms p.bytes).set i b)
  rw [length_serialize] at hs
  rw [hlen] at hf
  have hframe (j : Nat) (hj : j < packetSize) :
      m j = chunkBuffer ((serialize comms p.bytes).set i b) j :=
    slice_zero_eq_iff.mp (hm.trans hf.symm) j hj
  have hsize : dataSize m = dataSize (chunkBuffer ((serialize comms p.bytes).set i b)) := by
    refine Bytes.word_eq_word_iff.mpr fun j h₁ h₂ => hframe j ?_
    exact Nat.lt_trans h₂ (by decide)
  have hlt : i < (serialize comms p.bytes).length := by rwa [length_serialize]
  rw [hd, ← hsize]
  refine neverAnother_iff_of_wrong (isFrame_serialize p.length_bytes_le hs) hi ?_ ?_
  · intro j hj hji
    rw [hframe j hj, chunkBuffer, chunkBuffer, List.getD_eq_getElem?_getD,
      List.getElem?_set_ne hji.symm, ← List.getD_eq_getElem?_getD]
  · rw [hframe i hi, chunkBuffer, chunkBuffer, List.getD_eq_getElem?_getD,
      List.getD_eq_getElem?_getD, List.getElem?_set_self hlt, List.getElem?_eq_getElem hlt]
    rw [List.getElem?_eq_getElem hlt] at hb
    exact fun he => hb (congrArg some he.symm)

theorem oneByteOff_set {sent : List UInt8} {i : Nat} {b : UInt8} (hi : i < sent.length)
    (hb : sent[i]? ≠ some b) : OneByteOff (sent.set i b) sent :=
  ⟨i, b, hi, hb, rfl⟩

/-- The frame of a packet of zeroes with a wrong last byte. -/
theorem one_byte_off_padding :
    NeverAnother .zeroes (deserialize (.initial (fun _ => 0) (fun _ => 0))
        (chunkBuffer ((serialize (fun _ => 0) TPacket.zeroes.bytes).set 139 1)) packetSize
        ⟨fun _ => 0, []⟩).2 ↔
      (dataSize (chunkBuffer ((serialize (fun _ => 0) TPacket.zeroes.bytes).set 139 1))).toNat ≤
          maxDataSize ∧
        SizeHarmless .zeroes
          (dataSize (chunkBuffer ((serialize (fun _ => 0) TPacket.zeroes.bytes).set 139 1))).toNat
          fun _ => 0 :=
  one_byte_off_iff _ _ _ .zeroes _ ⟨fun _ => 0, []⟩
    (oneByteOff_set (by decide +kernel) (by decide +kernel))

/-- COMMAND_FORWARD without distance and power, with 40 for its size, over a packet whose
second parameter was 100: it is accepted as full power forward. -/
theorem zeroes_taken_for_full_power :
    OneByteOff ((serialize (fun _ => 0) TPacket.zeroes.bytes).set 4 40)
        (serialize (fun _ => 0) TPacket.zeroes.bytes) ∧
      ¬ NeverAnother .zeroes (deserialize (.initial (fun _ => 0) (fun _ => 0))
        (chunkBuffer ((serialize (fun _ => 0) TPacket.zeroes.bytes).set 4 40)) packetSize
        ⟨fun j => if j = 40 then 100 else 0, []⟩).2 := by
  refine ⟨oneByteOff_set (by decide +kernel) (by decide +kernel), ?_⟩
  rintro ⟨-, h | h | ⟨-, h⟩⟩
  · exact absurd h (by decide +kernel)
  · exact absurd h (by decide +kernel)
  · exact absurd h (by decide +kernel)

end Alex
