/-
# `Alex.Link` — what the serial link delivers

Two results about a stream met in arbitrary chunks by a receiver that starts
with an empty assembler:

* `uart_round_trip`: intact frames are delivered one by one, each by the call
  that receives its last byte;
* `frame_isolation`: the results are the stateless verdicts on the blocks of the
  stream, whatever the chunks.

Both read the answers off the blocks (`completed_answers`, `answers_getElem?`)
and the blocks off the stream.
-/
import Alex.Receive

namespace Alex

open Cells Blocks

/-- A structure on its way: the data, and what the stack held where `serialize`
built its frame. -/
structure Sent where
  comms : Nat → UInt8
  data : List UInt8

def Sent.frame (d : Sent) : List UInt8 := serialize d.comms d.data

/-- The answers of a receiver started on arbitrary memory. -/
def answers (l p : Nat → UInt8) (out : Cells UInt8) (chunks : List (List UInt8)) :
    List (TResult × Cells UInt8) :=
  link.outputs (.initial l p, out) chunks

/-- The answers other than `PACKET_INCOMPLETE`. -/
def completed (rs : List (TResult × Cells UInt8)) : List (TResult × Cells UInt8) :=
  rs.filter fun r => r.1 ≠ .packetIncomplete

theorem packetSize_pos : 0 < packetSize := by decide

/-! ## From answers to blocks -/

theorem decode_result_ne (m : Nat → UInt8) (out : Cells UInt8) :
    (decode m out).result ≠ .packetIncomplete := by
  rw [decode_eq]
  split
  · exact fun h => nomatch h
  · split <;> exact fun h => nomatch h

theorem completed_frameDecoder (beyond : Nat → UInt8) (out : Cells UInt8)
    (bs : List (Option (List UInt8))) :
    completed ((frameDecoder beyond).outputs out bs) =
      (frameDecoder beyond).outputs out (bs.reduceOption.map some) := by
  induction bs generalizing out with
  | nil => rfl
  | cons b bs ih =>
      cases b with
      | none =>
          rw [List.reduceOption_cons_of_none, ← ih]
          rfl
      | some f =>
          rw [List.reduceOption_cons_of_some, List.map_cons, Mealy.outputs_cons, Mealy.outputs_cons,
            completed, List.filter_cons_of_pos, ← ih]
          · rfl
          · exact decide_eq_true (decode_result_ne (overlay f beyond) out)

/-- The answers that are not `PACKET_INCOMPLETE` are those to the blocks of the stream. -/
theorem completed_answers (l p : Nat → UInt8) (out : Cells UInt8) {stream : List UInt8}
    {chunks : List (List UInt8)} (hc : Chunking stream chunks) :
    completed (answers l p out chunks) =
      (frameDecoder p).outputs out ((blocks packetSize stream).map some) := by
  have hb : ((blockDecoder packetSize).outputs [] chunks).reduceOption =
      blocks packetSize ([] ++ chunks.flatten) :=
    decoder_blocks packetSize_pos packetSize_pos hc.le
  rw [answers, (link_simulates l p out hc.le).2, completed_frameDecoder, hb, List.nil_append,
    hc.flatten_eq]

/-- On blocks outside which `deserialize` reads nothing the answers are the stateless
verdicts. -/
theorem frameDecoder_verdicts (beyond : Nat → UInt8) (out : Cells UInt8)
    {bs : List (List UInt8)} (hb : ∀ b ∈ bs, b.length = packetSize)
    (hs : ∀ b ∈ bs, ReadInside b) :
    (frameDecoder beyond).outputs out (bs.map some) = replay out (bs.map verdict) := by
  induction bs generalizing out with
  | nil => rfl
  | cons b bs ih =>
      obtain ⟨hr, ho⟩ := decode_overlay beyond out (hb b List.mem_cons_self)
        (hs b List.mem_cons_self)
      have ih := ih (decode (overlay b beyond) out).output
        (fun c hc => hb c (List.mem_cons_of_mem _ hc))
        (fun c hc => hs c (List.mem_cons_of_mem _ hc))
      show ((decode (overlay b beyond) out).result, (decode (overlay b beyond) out).output) ::
        (frameDecoder beyond).outputs (decode (overlay b beyond) out).output (bs.map some) = _
      rw [ih, hr, ho]
      rfl

theorem length_frame (d : Sent) : d.frame.length = packetSize := length_serialize ..

theorem blocks_frames (ds : List Sent) : blocks packetSize (ds.flatMap Sent.frame) =
    ds.map Sent.frame := by
  have hlen : ∀ b ∈ ds.map Sent.frame, b.length = packetSize := by
    intro b hb
    obtain ⟨d, -, rfl⟩ := List.mem_map.mp hb
    exact length_frame d
  have hnil : blocks packetSize ([] : List UInt8) = [] := blocks_of_short packetSize_pos
  rw [List.flatMap_def, ← List.append_nil (ds.map Sent.frame).flatten,
    blocks_flatten packetSize_pos hlen, hnil, List.append_nil]

theorem dataSize_frame {d : Sent} (hd : d.data.length ≤ maxDataSize) :
    (dataSize (chunkBuffer d.frame)).toNat = d.data.length := by
  have hs := slice_chunkBuffer d.frame
  rw [length_frame] at hs
  exact (isFrame_serialize hd hs).dataSize_eq

theorem readInside_frame {d : Sent} (hd : d.data.length ≤ maxDataSize) : ReadInside d.frame :=
  fun _ => (dataSize_frame hd).trans_le hd

/-- Intact frames are answered `PACKET_OK` with their data, one after another. -/
theorem frameDecoder_frames (beyond : Nat → UInt8) (out : Cells UInt8) {ds : List Sent}
    (hds : ∀ d ∈ ds, d.data.length ≤ maxDataSize) :
    (frameDecoder beyond).outputs out ((ds.map Sent.frame).map some) =
      replay out (ds.map fun d => .ok d.data) := by
  rw [frameDecoder_verdicts]
  · congr 1
    rw [List.map_map]
    exact List.map_congr_left fun d hd => verdict_serialize d.comms (hds d hd)
  · intro b hb
    obtain ⟨d, -, rfl⟩ := List.mem_map.mp hb
    exact length_frame d
  · intro b hb
    obtain ⟨d, hd, rfl⟩ := List.mem_map.mp hb
    exact readInside_frame (hds d hd)

/-- The call that completes a block answers with what `decode` makes of it. -/
theorem answers_getElem? (l p : Nat → UInt8) (out : Cells UInt8) {chunks : List (List UInt8)}
    (hc : ∀ c ∈ chunks, c.length ≤ packetSize) {i : Nat} {b : List UInt8}
    (hb : ((blockDecoder packetSize).outputs [] chunks)[i]? = some (some b)) :
    (answers l p out chunks)[i]? =
      some ((decode (overlay b p) (link.final (.initial l p, out) (chunks.take i)).2).result,
        (decode (overlay b p) (link.final (.initial l p, out) (chunks.take i)).2).output) := by
  have hout : (link.final (.initial l p, out) (chunks.take i)).2 =
      (frameDecoder p).final out (((blockDecoder packetSize).outputs [] chunks).take i) := by
    have hc' : ∀ c ∈ chunks.take i, c.length ≤ packetSize :=
      fun c hmem => hc c (List.mem_of_mem_take hmem)
    rw [(link_simulates l p out hc').1.output_eq, Mealy.final_cascade, Mealy.outputs_take]
  rw [hout, answers, (link_simulates l p out hc).2, Mealy.outputs_getElem?, hb]
  rfl

/-! ## Intact frames -/

/-- Where every answer is `PACKET_OK` or `PACKET_INCOMPLETE`, the completed ones
are the `PACKET_OK`s. -/
theorem count_packetOk {rs : List (TResult × Cells UInt8)}
    (h : ∀ r ∈ rs, r.1 = .packetOk ∨ r.1 = .packetIncomplete) :
    (rs.map (·.1)).count .packetOk = (completed rs).length := by
  induction rs with
  | nil => rfl
  | cons r rs ih =>
      have ih := ih fun q hq => h q (List.mem_cons_of_mem _ hq)
      obtain ⟨res, o⟩ := r
      rcases h _ List.mem_cons_self with hr | hr
      · obtain rfl : res = .packetOk := hr
        rw [List.map_cons, List.count_cons_self, ih]
        rfl
      · obtain rfl : res = .packetIncomplete := hr
        have hne : TResult.packetIncomplete ≠ .packetOk := fun h => nomatch h
        show (TResult.packetIncomplete :: rs.map (·.1)).count .packetOk = _
        rw [List.count_cons_of_ne hne, ih]
        rfl

theorem length_completed (l p : Nat → UInt8) (out : Cells UInt8) {stream : List UInt8}
    {chunks : List (List UInt8)} (hc : Chunking stream chunks) :
    (completed (answers l p out chunks)).length = stream.length / packetSize := by
  rw [completed_answers l p out hc, Mealy.length_outputs, List.length_map, length_blocks]

theorem Chunking.take {stream : List UInt8} {chunks : List (List UInt8)}
    (h : Chunking stream chunks) (i : Nat) : Chunking (chunks.take i).flatten (chunks.take i) :=
  ⟨rfl, fun c hc => h.sizes c (List.mem_of_mem_take hc)⟩

theorem answers_frames (l p : Nat → UInt8) (out : Cells UInt8) {ds : List Sent}
    {chunks : List (List UInt8)} (hds : ∀ d ∈ ds, d.data.length ≤ maxDataSize)
    (hc : Chunking (ds.flatMap Sent.frame) chunks) :
    ∀ r ∈ answers l p out chunks, r.1 = .packetOk ∨ r.1 = .packetIncomplete := by
  have hrep : completed (answers l p out chunks) = replay out (ds.map fun d => .ok d.data) := by
    rw [completed_answers l p out hc, blocks_frames, frameDecoder_frames p out hds]
  have hok : ∀ (ds : List Sent) (out : Cells UInt8),
      ∀ r ∈ replay out (ds.map fun d => .ok d.data), r.1 = .packetOk := by
    intro ds
    induction ds with
    | nil => exact fun _ _ h => absurd h List.not_mem_nil
    | cons d ds ih =>
        intro out r hr
        rcases List.mem_cons.mp hr with rfl | hr
        · rfl
        · exact ih _ r hr
  intro r hr
  by_cases hne : r.1 = .packetIncomplete
  · exact .inr hne
  · refine .inl (hok ds out r ?_)
    rw [← hrep]
    exact List.mem_filter.mpr ⟨hr, decide_eq_true hne⟩

/-- **Round trip.**  However the frames of `d₁ … dₙ` are cut into chunks, exactly
`n` calls answer `PACKET_OK` and the others `PACKET_INCOMPLETE`; the one that
delivers the last byte of frame `k` is the `k`-th `PACKET_OK` and writes `d_k` over
the output it is given. -/
theorem uart_round_trip (l p : Nat → UInt8) (out : Cells UInt8) (ds : List Sent)
    (chunks : List (List UInt8)) (hds : ∀ d ∈ ds, d.data.length ≤ maxDataSize)
    (hc : Chunking (ds.flatMap Sent.frame) chunks) :
    ((answers l p out chunks).map (·.1)).count .packetOk = ds.length ∧
    (∀ r ∈ answers l p out chunks, r.1 = .packetOk ∨ r.1 = .packetIncomplete) ∧
    ∀ k d, ds[k]? = some d → ∃ i, i < chunks.length ∧
      (chunks.take i).flatten.length < (k + 1) * packetSize ∧
      (k + 1) * packetSize ≤ (chunks.take (i + 1)).flatten.length ∧
      (((answers l p out chunks).take i).map (·.1)).count .packetOk = k ∧
      (answers l p out chunks)[i]? = some (.packetOk,
        (link.final (.initial l p, out) (chunks.take i)).2.write 0 d.data) := by
  have hkinds := answers_frames l p out hds hc
  have hlen : (ds.flatMap Sent.frame).length / packetSize = ds.length := by
    rw [← length_blocks, blocks_frames, List.length_map]
  refine ⟨by rw [count_packetOk hkinds, length_completed l p out hc, hlen], hkinds, ?_⟩
  intro k d hk
  have hnil : ([] : List UInt8).length < packetSize := packetSize_pos
  have hblock : (blocks packetSize ([] ++ chunks.flatten))[k]? = some d.frame := by
    rw [List.nil_append, hc.flatten_eq, blocks_frames, List.getElem?_map, hk]
    rfl
  obtain ⟨i, hi, ho, h₁, h₂⟩ := decoder_timing packetSize_pos hnil hc.le hblock
  rw [List.length_nil, Nat.zero_add] at h₁ h₂
  have hd : d.data.length ≤ maxDataSize := hds d (List.mem_of_getElem? hk)
  refine ⟨i, hi, h₁, h₂, ?_, ?_⟩
  · -- the calls before `i` received between `k` and `k + 1` frames
    have hprev : (answers l p out chunks).take i = answers l p out (chunks.take i) := by
      rw [answers, answers, Mealy.outputs_take]
    have hchunk : (chunks.take (i + 1)).flatten.length ≤
        (chunks.take i).flatten.length + packetSize := by
      rw [List.take_succ_eq_append_getElem hi, List.flatten_append, List.length_append,
        List.flatten_singleton]
      exact Nat.add_le_add_left (hc.le _ (List.getElem_mem hi)) _
    rw [count_packetOk fun r hr => hkinds r (List.mem_of_mem_take hr), hprev,
      length_completed l p out (hc.take i)]
    refine Nat.div_eq_of_lt_le ?_ h₁
    rw [Nat.succ_mul] at h₂
    omega
  · obtain ⟨hr, ho'⟩ := decode_overlay p
      (link.final (.initial l p, out) (chunks.take i)).2 (length_frame d) (readInside_frame hd)
    rw [answers_getElem? l p out hc.le ho, hr, ho', Sent.frame, verdict_serialize d.comms hd]
    rfl

theorem chunking_cut {stream : List UInt8} {k : Nat} (hk : 1 ≤ k) (hle : k ≤ packetSize)
    (hlt : k < stream.length) (hrest : stream.length ≤ k + packetSize) :
    Chunking stream [stream.take k, stream.drop k] := by
  refine ⟨by simp, fun c hc => ?_⟩
  rcases List.mem_cons.mp hc with rfl | hc
  · rw [List.length_take]
    omega
  · obtain rfl := List.mem_singleton.mp hc
    rw [List.length_drop]
    omega

/-- A frame of a hundred sevens, cut in the middle. -/
theorem uart_round_trip_sevens :
    let d : Sent := ⟨fun _ => 0, List.replicate 100 7⟩
    let rs := answers (fun _ => 0) (fun _ => 0) ⟨fun _ => 0, []⟩ [d.frame.take 70, d.frame.drop 70]
    (rs.map (·.1)).count .packetOk = 1 := by
  intro d
  have hd : ∀ e ∈ [d], e.data.length ≤ maxDataSize := by
    intro e he
    obtain rfl := List.mem_singleton.mp he
    decide
  have hlen : d.frame.length = 140 := length_frame d
  have hcut : Chunking d.frame [d.frame.take 70, d.frame.drop 70] := by
    apply chunking_cut <;> simp [hlen, packetSize]
  refine (uart_round_trip _ _ _ [d] _ hd ?_).1
  rw [List.flatMap_singleton]
  exact hcut

/-! ## Frames good and bad -/

theorem deserialize_output {s : Assembler} {buffer : Nat → UInt8} {len : Nat} {out : Cells UInt8}
    (h : (deserialize s buffer len out).2.result ≠ .packetOk) :
    (deserialize s buffer len out).2.output = out := by
  rcases ha : assemble s buffer len with ⟨a, r⟩
  cases r with
  | packetComplete =>
      simp only [deserialize, ha, decode_eq] at h ⊢
      split
      · rfl
      · rename_i hm
        rw [if_neg hm] at h
        split
        · rfl
        · rename_i hx
          rw [if_neg hx] at h
          exact absurd rfl h
  | packetOk => simp only [deserialize, ha]
  | packetBad => simp only [deserialize, ha]
  | packetChecksumBad => simp only [deserialize, ha]
  | packetIncomplete => simp only [deserialize, ha]

/-- **Frame isolation.**  For blocks that claim at most `MAX_DATA_SIZE` bytes, the
completed answers to a stream are the stateless verdicts on its blocks, one by
one; a call that does not answer `PACKET_OK` leaves the output as it found it;
and the chunks do not matter. -/
theorem frame_isolation (l p : Nat → UInt8) (out : Cells UInt8) (stream : List UInt8)
    (chunks : List (List UInt8)) (hc : Chunking stream chunks)
    (hs : ∀ b ∈ blocks packetSize stream, (dataSize (chunkBuffer b)).toNat ≤ maxDataSize) :
    completed (answers l p out chunks) = replay out ((blocks packetSize stream).map verdict) ∧
    (∀ i r, (answers l p out chunks)[i]? = some r → r.1 ≠ .packetOk →
      r.2 = (link.final (.initial l p, out) (chunks.take i)).2) ∧
    ∀ chunks', Chunking stream chunks' →
      completed (answers l p out chunks') = completed (answers l p out chunks) := by
  have hrep (cs : List (List UInt8)) (h : Chunking stream cs) :
      completed (answers l p out cs) = replay out ((blocks packetSize stream).map verdict) := by
    rw [completed_answers l p out h]
    exact frameDecoder_verdicts p out (fun b hb => length_of_mem_blocks hb) fun b hb _ => hs b hb
  refine ⟨hrep chunks hc, ?_, fun cs h => (hrep cs h).trans (hrep chunks hc).symm⟩
  intro i r hr hne
  rw [answers, Mealy.outputs_getElem?] at hr
  obtain ⟨c, -, rfl⟩ := Option.map_eq_some_iff.mp hr
  exact deserialize_output hne

/-- A block of zeroes, then an intact frame, met in one cut and in another. -/
theorem frame_isolation_zeroes :
    let d : Sent := ⟨fun _ => 0, [1, 2, 3]⟩
    let stream := List.replicate 140 0 ++ d.frame
    completed (answers (fun _ => 0) (fun _ => 0) ⟨fun _ => 0, []⟩ [stream.take 140, stream.drop 140]) =
      replay ⟨fun _ => 0, []⟩ [.bad, .ok [1, 2, 3]] := by
  intro d stream
  have hlen : d.frame.length = 140 := length_frame d
  have hzero : (List.replicate 140 (0 : UInt8)).length = packetSize := List.length_replicate
  have hblocks : blocks packetSize stream = [List.replicate 140 0, d.frame] := by
    have hnil : blocks packetSize ([] : List UInt8) = [] := blocks_of_short packetSize_pos
    show blocks packetSize (_ ++ d.frame) = _
    rw [blocks_cons packetSize_pos hzero, ← List.append_nil d.frame,
      blocks_cons packetSize_pos (length_frame d), hnil, List.append_nil]
  have hs : stream.length = 280 := by
    show (_ ++ d.frame).length = 280
    rw [List.length_append, hlen, hzero]
    rfl
  have hc : Chunking stream [stream.take 140, stream.drop 140] := by
    apply chunking_cut <;> simp [hs, packetSize]
  have hs : ∀ b ∈ blocks packetSize stream, (dataSize (chunkBuffer b)).toNat ≤ maxDataSize := by
    rw [hblocks]
    intro b hb
    rcases List.mem_cons.mp hb with rfl | hb
    · decide
    · obtain rfl := List.mem_singleton.mp hb
      rw [dataSize_frame (by decide)]
      decide
  rw [(frame_isolation _ _ _ stream _ hc hs).1, hblocks]
  have hz : verdict (List.replicate 140 0) = .bad := by decide
  have hd : verdict d.frame = .ok [1, 2, 3] := verdict_serialize _ (by decide)
  rw [List.map_cons, List.map_cons, hz, hd, List.map_nil]

end Alex
