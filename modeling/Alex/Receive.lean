/-
# `Alex.Receive` — a receiver that calls `deserialize` chunk by chunk

`link` is the receiver both programs run: the assembler's static variables and
the caller's packet are its state, a call of `deserialize` on one chunk its step.
It simulates the cascade of two machines that know nothing of static variables
(`link_simulates`),

    chunks  —blockDecoder→  complete blocks  —frameDecoder→  results and outputs

so that what it answers is a function of the blocks of the stream.  For a block
whose `dataSize` is at most `MAX_DATA_SIZE` that function does not look at memory
outside the block: it is `verdict`, the stateless decoding (`decode_overlay`).
-/
import Alex.Assemble

namespace Alex

open Cells Blocks

/-- A stream cut into chunks a read can return. -/
structure Chunking (stream : List UInt8) (chunks : List (List UInt8)) : Prop where
  flatten_eq : chunks.flatten = stream
  sizes : ∀ c ∈ chunks, 1 ≤ c.length ∧ c.length ≤ packetSize

theorem Chunking.le {stream : List UInt8} {chunks : List (List UInt8)}
    (h : Chunking stream chunks) : ∀ c ∈ chunks, c.length ≤ packetSize :=
  fun c hc => (h.sizes c hc).2

/-- The chunk as `deserialize` finds it in the caller's buffer. -/
def chunkBuffer (chunk : List UInt8) (i : Nat) : UInt8 := chunk.getD i 0

@[simp] theorem slice_chunkBuffer (chunk : List UInt8) :
    slice (chunkBuffer chunk) 0 chunk.length = chunk := by
  rw [slice_eq_iff]
  intro i hi
  simp [chunkBuffer, hi]

/-- A receiver: the assembler and the caller's `output`; each chunk is answered
with the result of `deserialize` and the output it leaves. -/
def link : Mealy (Assembler × Cells UInt8) (List UInt8) (TResult × Cells UInt8) where
  step s chunk :=
    let (a, d) := deserialize s.1 (chunkBuffer chunk) chunk.length s.2
    ((a, d.output), (d.result, d.output))

/-! ## Blocks instead of static variables -/

/-- The memory from `_privateBuffer` on, with a complete frame in it. -/
def overlay (frame : List UInt8) (beyond : Nat → UInt8) (j : Nat) : UInt8 :=
  frame.getD j (beyond j)

/-- `decode` on every complete block. -/
def frameDecoder (beyond : Nat → UInt8) :
    Mealy (Cells UInt8) (Option (List UInt8)) (TResult × Cells UInt8) where
  step output
    | none => (output, (.packetIncomplete, output))
    | some frame =>
        let d := decode (overlay frame beyond) output
        (d.output, (d.result, d.output))

/-- The receiver's state and the cascade's: the same bytes pending, the same
output, and the same memory behind `_privateBuffer`. -/
structure Receiving (beyond : Nat → UInt8) (s : Assembler × Cells UInt8)
    (t : List UInt8 × Cells UInt8) : Prop where
  between : s.1.Between
  pending_eq : s.1.pending = t.1
  output_eq : s.2 = t.2
  beyond_eq : ∀ j, packetSize ≤ j → s.1.privateBuffer.get j = beyond j

theorem receiving_initial (l p : Nat → UInt8) (out : Cells UInt8) :
    Receiving p (.initial l p, out) ([], out) :=
  ⟨Assembler.between_initial l p, rfl, rfl, fun _ _ => rfl⟩

theorem overlay_slice {m beyond : Nat → UInt8} (h : ∀ j, packetSize ≤ j → m j = beyond j) :
    overlay (slice m 0 packetSize) beyond = m := by
  funext j
  rw [overlay, List.getD_eq_getElem?_getD]
  by_cases hj : j < packetSize
  · rw [List.getElem?_eq_getElem (by simpa using hj)]
    simp
  · rw [List.getElem?_eq_none (by simpa using hj)]
    exact (h j (Nat.le_of_not_lt hj)).symm

theorem deserialize_incomplete {s : Assembler} {buffer : Nat → UInt8} {len : Nat}
    (out : Cells UInt8) (h : (assemble s buffer len).2 = .packetIncomplete) :
    deserialize s buffer len out =
      ((assemble s buffer len).1, ⟨.packetIncomplete, out, []⟩) := by
  rcases ha : assemble s buffer len with ⟨a, r⟩
  rw [ha] at h
  obtain rfl : r = .packetIncomplete := h
  rw [deserialize, ha]

theorem deserialize_complete {s : Assembler} {buffer : Nat → UInt8} {len : Nat}
    (out : Cells UInt8) (h : (assemble s buffer len).2 = .packetComplete) :
    deserialize s buffer len out =
      ((assemble s buffer len).1,
        decode (assemble s buffer len).1.privateBuffer.get out) := by
  rcases ha : assemble s buffer len with ⟨a, r⟩
  rw [ha] at h
  obtain rfl : r = .packetComplete := h
  rw [deserialize, ha]

/-- One call of `deserialize` is one step of the cascade. -/
theorem link_step {beyond : Nat → UInt8} {s : Assembler × Cells UInt8}
    {t : List UInt8 × Cells UInt8} {chunk : List UInt8} (hlen : chunk.length ≤ packetSize)
    (h : Receiving beyond s t) :
    Receiving beyond (link.step s chunk).1
      (((blockDecoder packetSize).cascade (frameDecoder beyond)).step t chunk).1 ∧
    (link.step s chunk).2 =
      (((blockDecoder packetSize).cascade (frameDecoder beyond)).step t chunk).2 := by
  obtain ⟨a, out⟩ := s
  obtain ⟨held, out'⟩ := t
  obtain ⟨hb, hp, ho, hm⟩ := h
  obtain rfl : a.pending = held := hp
  obtain rfl : out = out' := ho
  have hpush := @assemble_push a (chunkBuffer chunk) chunk.length hb hlen
  have hm' (j : Nat) (hj : packetSize ≤ j) :
      (assemble a (chunkBuffer chunk) chunk.length).1.privateBuffer.get j = beyond j :=
    (assemble_beyond hb hj).trans (hm j hj)
  rw [slice_chunkBuffer] at hpush
  obtain ⟨hb', hpush⟩ := hpush
  rcases hc : push packetSize a.pending chunk with ⟨held', _ | b⟩
  · rw [hc] at hpush
    obtain ⟨hr, hp'⟩ := hpush
    have hd := deserialize_incomplete out hr
    have hs : ((blockDecoder packetSize).cascade (frameDecoder beyond)).step (a.pending, out) chunk =
        ((held', out), (.packetIncomplete, out)) := by
      simp only [Mealy.cascade, blockDecoder, hc, frameDecoder]
    have hl : link.step (a, out) chunk =
        (((assemble a (chunkBuffer chunk) chunk.length).1, out), (.packetIncomplete, out)) := by
      simp only [link, hd]
    rw [hs, hl]
    exact ⟨⟨hb', hp', rfl, hm'⟩, rfl⟩
  · rw [hc] at hpush
    obtain ⟨hr, hp', hf⟩ := hpush
    have hd := deserialize_complete out hr
    rw [← overlay_slice hm', hf] at hd
    have hs : ((blockDecoder packetSize).cascade (frameDecoder beyond)).step (a.pending, out) chunk =
        ((held', (decode (overlay b beyond) out).output),
          ((decode (overlay b beyond) out).result, (decode (overlay b beyond) out).output)) := by
      simp only [Mealy.cascade, blockDecoder, hc, frameDecoder]
    have hl : link.step (a, out) chunk =
        (((assemble a (chunkBuffer chunk) chunk.length).1, (decode (overlay b beyond) out).output),
          ((decode (overlay b beyond) out).result, (decode (overlay b beyond) out).output)) := by
      simp only [link, hd]
    rw [hs, hl]
    exact ⟨⟨hb', hp', rfl, hm'⟩, rfl⟩

/-- **The receiver simulates the cascade**, whatever the chunks. -/
theorem link_simulates (l p : Nat → UInt8) (out : Cells UInt8) {chunks : List (List UInt8)}
    (hc : ∀ c ∈ chunks, c.length ≤ packetSize) :
    Receiving p (link.final (.initial l p, out) chunks)
      (((blockDecoder packetSize).cascade (frameDecoder p)).final ([], out) chunks) ∧
    link.outputs (.initial l p, out) chunks =
      (frameDecoder p).outputs out ((blockDecoder packetSize).outputs [] chunks) := by
  rw [← Mealy.outputs_cascade]
  exact link.simulation (P := fun c => c.length ≤ packetSize)
    (fun _ _ _ hlen h => link_step hlen h) hc (receiving_initial l p out)

/-! ## The stateless decoding of a block -/

/-- What a block decodes to, whatever came before it. -/
inductive Verdict where
  | bad
  | checksumBad
  | ok (data : List UInt8)
  deriving DecidableEq, Repr

/-- The result `deserialize` returns for it. -/
def Verdict.result : Verdict → TResult
  | .bad => .packetBad
  | .checksumBad => .packetChecksumBad
  | .ok _ => .packetOk

/-- The output it leaves: a rejected block leaves the output as it was. -/
def Verdict.deliver (out : Cells UInt8) : Verdict → Cells UInt8
  | .bad => out
  | .checksumBad => out
  | .ok data => out.write 0 data

/-- The stateless decoding: the magic number, then the exclusive or of the first
`dataSize` bytes of the data field. -/
def verdict (block : List UInt8) : Verdict :=
  let m := chunkBuffer block
  let data := (block.drop bufferOffset).take (dataSize m).toNat
  if magic m ≠ magicNumber then .bad
  else if Bytes.checksum data ≠ m checksumOffset then .checksumBad
  else .ok data

/-- Results and outputs of a sequence of verdicts. -/
def replay (out : Cells UInt8) : List Verdict → List (TResult × Cells UInt8)
  | [] => []
  | v :: vs => (v.result, v.deliver out) :: replay (v.deliver out) vs

theorem overlay_eq {block : List UInt8} {j : Nat} (beyond : Nat → UInt8) (h : j < block.length) :
    overlay block beyond j = chunkBuffer block j := by
  simp [overlay, chunkBuffer, h]

/-- What `decode` does, with the loops read off as lists. -/
theorem decode_eq (m : Nat → UInt8) (out : Cells UInt8) :
    decode m out =
      if magic m ≠ magicNumber then ⟨.packetBad, out, []⟩
      else if Bytes.checksum (slice m bufferOffset (dataSize m).toNat) ≠ m checksumOffset then
        ⟨.packetChecksumBad, out, List.range (dataSize m).toNat⟩
      else
        ⟨.packetOk, out.write 0 (slice m bufferOffset (dataSize m).toNat),
          List.range (dataSize m).toNat⟩ := by
  have h₁ := checksumLoop_fst (payload m) (dataSize m).toNat
  have h₂ := checksumLoop_snd (payload m) (dataSize m).toNat
  rw [slice_payload] at h₁
  rcases hl : checksumLoop (payload m) (dataSize m).toNat with ⟨c, r⟩
  rw [hl] at h₁ h₂
  obtain rfl : c = _ := h₁
  obtain rfl : r = _ := h₂
  simp only [decode, hl, copy_eq_write, slice_payload]

/-- What `deserialize` reads of the block lies inside it.  It looks at `dataSize` behind
the magic number only. -/
def ReadInside (block : List UInt8) : Prop :=
  magic (chunkBuffer block) = magicNumber → (dataSize (chunkBuffer block)).toNat ≤ maxDataSize

theorem decode_overlay {block : List UInt8} (beyond : Nat → UInt8) (out : Cells UInt8)
    (hb : block.length = packetSize) (hs : ReadInside block) :
    (decode (overlay block beyond) out).result = (verdict block).result ∧
    (decode (overlay block beyond) out).output = (verdict block).deliver out := by
  have hj (j : Nat) (h : j < packetSize) : overlay block beyond j = chunkBuffer block j :=
    overlay_eq beyond (hb ▸ h)
  have hslice (off n : Nat) (h : off + n ≤ packetSize) :
      slice (overlay block beyond) off n = slice (chunkBuffer block) off n :=
    slice_congr fun j _ h' => hj j (by omega)
  have hmagic : magic (overlay block beyond) = magic (chunkBuffer block) :=
    Bytes.word_congr (hslice 0 4 (by decide))
  have hsize : dataSize (overlay block beyond) = dataSize (chunkBuffer block) :=
    Bytes.word_congr (hslice 4 4 (by decide))
  have hdata (n : Nat) (hn : n ≤ maxDataSize) :
      slice (overlay block beyond) bufferOffset n = (block.drop bufferOffset).take n := by
    have hn' : bufferOffset + n ≤ packetSize := by
      simp only [bufferOffset, packetSize, maxDataSize] at hn ⊢
      omega
    rw [hslice _ _ hn']
    apply List.ext_getElem
    · simp only [length_slice, List.length_take, List.length_drop]
      omega
    · intro i h₁ h₂
      rw [length_slice] at h₁
      have hi : bufferOffset + i < block.length := by omega
      simp [chunkBuffer, hi]
  rw [decode_eq, hmagic, hsize, hj checksumOffset (by decide), verdict]
  by_cases hm : magic (chunkBuffer block) = magicNumber
  · rw [if_neg (not_not_intro hm), if_neg (not_not_intro hm), hdata _ (hs hm)]
    split
    · exact ⟨rfl, rfl⟩
    · exact ⟨rfl, rfl⟩
  · rw [if_pos hm, if_pos hm]
    exact ⟨rfl, rfl⟩

theorem decode_of_block {m : Nat → UInt8} {block : List UInt8}
    (h : slice m 0 packetSize = block)
    (hs : (dataSize (chunkBuffer block)).toNat ≤ maxDataSize) (out : Cells UInt8) :
    (decode m out).result = (verdict block).result ∧
    (decode m out).output = (verdict block).deliver out := by
  have hm := overlay_slice fun j (_ : packetSize ≤ j) => Eq.refl (m j)
  have hb : block.length = packetSize := by rw [← h, length_slice]
  rw [h] at hm
  rw [← hm]
  exact decode_overlay m out hb fun _ => hs

/-- The verdict on a serialized structure is the structure. -/
theorem verdict_of_isFrame {block d : List UInt8} (hb : block.length = packetSize)
    (hd : d.length ≤ maxDataSize) (h : IsFrame (chunkBuffer block) d) :
    verdict block = .ok d := by
  have hdata : (block.drop bufferOffset).take d.length = d := by
    have hlen : bufferOffset + d.length ≤ block.length := by
      simp only [bufferOffset, packetSize, maxDataSize] at hb hd ⊢
      omega
    apply List.ext_getElem
    · simp only [List.length_take, List.length_drop]
      omega
    · intro i h₁ h₂
      have hi := slice_eq_iff.mp h.payload_eq i h₂
      have hlt : bufferOffset + i < block.length := by omega
      simpa [payload, chunkBuffer, hlt] using hi
  rw [verdict]
  simp only [h.magic_eq, h.dataSize_eq, h.checksum_eq, hdata, ne_eq, not_true_eq_false, if_false]

theorem verdict_serialize (comms : Nat → UInt8) {d : List UInt8} (hd : d.length ≤ maxDataSize) :
    verdict (serialize comms d) = .ok d := by
  have hs := slice_chunkBuffer (serialize comms d)
  rw [length_serialize] at hs
  exact verdict_of_isFrame (length_serialize comms d) hd (isFrame_serialize hd hs)

theorem dataSize_serialize (comms : Nat → UInt8) {d : List UInt8} (hd : d.length ≤ maxDataSize) :
    (dataSize (chunkBuffer (serialize comms d))).toNat ≤ maxDataSize := by
  have hs := slice_chunkBuffer (serialize comms d)
  rw [length_serialize] at hs
  rw [(isFrame_serialize hd hs).dataSize_eq]
  exact hd

end Alex
