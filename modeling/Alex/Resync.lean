/-
# `Alex.Resync` — a receiver out of step

Bytes that belong to no frame, or bytes lost from one, shift every later frame
against the blocks of the receiver.  `MAGIC_NUMBER` tells the receiver so, but
nothing moves it: `assemble` drops no byte, so it stays where the length of what
came before puts it.

    |g| a multiple of 140     every later frame is a block: all are delivered
    otherwise                 no later block starts with the magic number: all of
                              them are answered PACKET_BAD     (`misaligned_answers`)

For the second line frames must not contain the magic number anywhere but at
their start; across the border of two frames it cannot occur, its first byte
being none of the three others.

A block in `g`, or one that `g` starts and the first frame completes, could hold the
magic number and a `dataSize` past `MAX_DATA_SIZE`, by which `deserialize` would leave
the block.  `StaysInside` says of `g` that none does, and then all that is answered is
the verdicts on the blocks (`readInside_block`).
-/
import Mathlib.Data.List.Forall2
import Alex.Link

namespace Alex

open Cells Blocks

/-- The frame contains the magic number only at its start. -/
def MagicOnlyAtStart (frame : List UInt8) : Prop :=
  ∀ i, 0 < i → i + 4 ≤ packetSize → (frame.drop i).take 4 ≠ Bytes.ofWord magicNumber

/-- A `TPacket` on its way, in a frame that can be told from its neighbours. -/
structure Sent.IsPacket (d : Sent) : Prop where
  size : d.data.length = sizeofTPacket
  magic : MagicOnlyAtStart d.frame

theorem Sent.IsPacket.le {d : Sent} (h : d.IsPacket) : d.data.length ≤ maxDataSize := by
  rw [h.size]
  decide

/-- Among the answers are, in order, `PACKET_OK`s for the given data. -/
def Delivered (rs : List (TResult × Cells UInt8)) (datas : List (List UInt8)) : Prop :=
  ∃ calls, calls.Sublist rs ∧
    List.Forall₂ (fun call d => call.1 = .packetOk ∧ slice call.2.get 0 d.length = d) calls datas

/-- After the bytes `g` the receiver, started on memory `l` and `p`, finds its way
back: from some number `k` on, every packet but the last is delivered. -/
def Resynchronises (l p : Nat → UInt8) (g : List UInt8) : Prop :=
  ∃ k, ∀ (ds : List Sent), (∀ d ∈ ds, d.IsPacket) →
    ∀ chunks out, Chunking (g ++ ds.flatMap Sent.frame) chunks →
      Delivered (answers l p out chunks) (((ds.take (ds.length - 1)).drop k).map Sent.data)

/-- The first eight bytes of the frame of a packet: `MAGIC_NUMBER` and `dataSize`. -/
def packetHead : List UInt8 := Bytes.ofWord magicNumber ++ Bytes.ofWord (.ofNat sizeofTPacket)

/-- In no block that starts in `g` does `deserialize` read anything beyond, if packets
follow. -/
def StaysInside (g : List UInt8) : Prop :=
  ∀ i, i * packetSize < g.length → ReadInside (g.drop (i * packetSize) ++ packetHead)

/-! ## In step -/

theorem delivered_replay (out : Cells UInt8) (ds : List Sent) :
    List.Forall₂ (fun call d => call.1 = .packetOk ∧ slice call.2.get 0 d.length = d)
      (replay out (ds.map fun d => .ok d.data)) (ds.map Sent.data) := by
  induction ds generalizing out with
  | nil => exact .nil
  | cons d ds ih => exact .cons ⟨rfl, slice_write out 0 d.data⟩ (ih _)

theorem resynchronises_of_dvd (l p : Nat → UInt8) {g : List UInt8}
    (hg : packetSize ∣ g.length) : Resynchronises l p g := by
  refine ⟨0, fun ds hds chunks out hc => ?_⟩
  have hd : ∀ d ∈ ds, d.data.length ≤ maxDataSize := fun d hd => (hds d hd).le
  have hcomp := completed_answers l p out hc
  rw [blocks_append_of_dvd packetSize_pos hg, blocks_frames, List.map_append,
    Mealy.outputs_append, frameDecoder_frames p _ hd] at hcomp
  have hall := delivered_replay
    ((frameDecoder p).final out ((blocks packetSize g).map some)) ds
  have hsub := (List.sublist_append_right
    ((frameDecoder p).outputs out ((blocks packetSize g).map some))
    (replay ((frameDecoder p).final out ((blocks packetSize g).map some))
      (ds.map fun d => .ok d.data)))
  rw [← hcomp] at hsub
  rw [List.drop_zero, List.map_take]
  exact ⟨_, (List.take_sublist _ _).trans (hsub.trans List.filter_sublist),
    List.forall₂_take (ds.length - 1) hall⟩

/-! ## Out of step -/

theorem frame_take {d : Sent} (hd : d.data.length ≤ maxDataSize) :
    d.frame.take 4 = Bytes.ofWord magicNumber := by
  have hs := slice_chunkBuffer d.frame
  rw [length_frame] at hs
  have hm := Bytes.word_eq_iff.mp (isFrame_serialize hd hs).magic_eq
  have hsplit : slice (chunkBuffer d.frame) 0 packetSize =
      slice (chunkBuffer d.frame) 0 4 ++ slice (chunkBuffer d.frame) 4 136 :=
    slice_add _ 0 4 136
  rw [← hs, hsplit, hm]
  rfl

/-- Off the frame borders, a stream of frames shows no magic number. -/
theorem take_drop_frames {ds : List Sent} (hds : ∀ d ∈ ds, d.IsPacket) {off : Nat}
    (hoff : ¬ packetSize ∣ off) (hlen : off + packetSize ≤ (ds.flatMap Sent.frame).length) :
    ((ds.flatMap Sent.frame).drop off).take 4 ≠ Bytes.ofWord magicNumber := by
  induction ds generalizing off with
  | nil => simp [packetSize] at hlen
  | cons d ds ih =>
      have hd := length_frame d
      rw [List.flatMap_cons] at hlen ⊢
      rcases Nat.lt_or_ge off packetSize with hlt | hge
      · have hpos : 0 < off := Nat.pos_of_ne_zero fun h => hoff (h ▸ Nat.dvd_zero _)
        rw [List.drop_append_of_le_length (by omega)]
        by_cases h4 : off + 4 ≤ packetSize
        · rw [List.take_append_of_le_length (by rw [List.length_drop]; omega)]
          exact (hds d List.mem_cons_self).magic off hpos h4
        · -- the border of two frames: the next one starts inside the four bytes
          cases ds with
          | nil =>
              rw [List.length_append, hd] at hlen
              simp only [List.flatMap_nil, List.length_nil] at hlen
              omega
          | cons e es =>
              have he := frame_take (hds e (List.mem_cons_of_mem _ List.mem_cons_self)).le
              have hel := length_frame e
              intro h
              have hfirst : (e.frame.take 4)[0]? = some 0xFF := by rw [he]; rfl
              have hbyte : (Bytes.ofWord magicNumber)[packetSize - off]? = some 0xFF := by
                rw [← h, List.getElem?_take_of_lt (by omega), List.getElem?_append_right
                  (by rw [List.length_drop]; omega), List.flatMap_cons, List.length_drop, hd,
                  Nat.sub_self, List.getElem?_append_left (by rw [hel]; decide)]
                rwa [List.getElem?_take_of_lt (by decide)] at hfirst
              obtain h₁ | h₂ | h₃ : packetSize - off = 1 ∨ packetSize - off = 2 ∨
                  packetSize - off = 3 := by omega
              · rw [h₁] at hbyte
                exact absurd hbyte (by decide)
              · rw [h₂] at hbyte
                exact absurd hbyte (by decide)
              · rw [h₃] at hbyte
                exact absurd hbyte (by decide)
      · obtain ⟨o, rfl⟩ := Nat.exists_eq_add_of_le hge
        rw [← hd, List.drop_length_add_append]
        refine ih (fun e he => hds e (List.mem_cons_of_mem _ he)) ?_ ?_
        · exact fun h => hoff ((Nat.dvd_add_right (Nat.dvd_refl packetSize)).mpr h)
        · rw [List.length_append, hd] at hlen
          omega

theorem magic_chunkBuffer_iff {block : List UInt8} (hb : 4 ≤ block.length) :
    magic (chunkBuffer block) = magicNumber ↔ block.take 4 = Bytes.ofWord magicNumber := by
  have hslice : slice (chunkBuffer block) 0 4 = block.take 4 := by
    apply List.ext_getElem
    · rw [length_slice, List.length_take, Nat.min_eq_left hb]
    · intro i h₁ h₂
      rw [length_slice] at h₁
      have hi : i < block.length := by omega
      simp [chunkBuffer, hi]
  rw [magic, Bytes.word_eq_iff, hslice]

/-- A block that does not start with the magic number is answered `PACKET_BAD`. -/
theorem decode_packetBad {block : List UInt8} (beyond : Nat → UInt8) (out : Cells UInt8)
    (hb : block.length = packetSize) (hm : block.take 4 ≠ Bytes.ofWord magicNumber) :
    (decode (overlay block beyond) out).result = .packetBad := by
  have hne : magic (chunkBuffer block) ≠ magicNumber := fun h =>
    hm ((magic_chunkBuffer_iff (hb ▸ by decide)).mp h)
  rw [(decode_overlay beyond out hb fun h => absurd h hne).1, verdict, if_pos hne]
  rfl

/-- **Out of step for ever.**  If the bytes before the frames do not fill whole
blocks, every block behind them is answered `PACKET_BAD`. -/
theorem misaligned_answers (l p : Nat → UInt8) (out : Cells UInt8) {g : List UInt8}
    {ds : List Sent} {chunks : List (List UInt8)} (hg : ¬ packetSize ∣ g.length)
    (hds : ∀ d ∈ ds, d.IsPacket) (hc : Chunking (g ++ ds.flatMap Sent.frame) chunks) :
    ∀ r ∈ (completed (answers l p out chunks)).drop (g.length / packetSize + 1),
      r.1 = .packetBad := by
  intro r hr
  obtain ⟨i, hi⟩ := List.mem_iff_getElem?.mp hr
  rw [List.getElem?_drop, completed_answers l p out hc, Mealy.outputs_getElem?,
    List.getElem?_map] at hi
  obtain ⟨b', hb', rfl⟩ := Option.map_eq_some_iff.mp hi
  obtain ⟨b, hb, rfl⟩ := Option.map_eq_some_iff.mp hb'
  obtain ⟨hblock, hlen⟩ := getElem?_blocks hb
  obtain ⟨off, hoff⟩ : ∃ off, (g.length / packetSize + 1 + i) * packetSize = g.length + off := by
    have h₁ := Nat.lt_div_mul_add (a := g.length) packetSize_pos
    refine ⟨(g.length / packetSize + 1 + i) * packetSize - g.length, ?_⟩
    rw [Nat.add_mul, Nat.add_mul]
    omega
  have hbytes : b = ((ds.flatMap Sent.frame).drop off).take packetSize := by
    rw [hblock, hoff, List.drop_length_add_append]
  rw [Nat.succ_mul, hoff, List.length_append] at hlen
  refine decode_packetBad p _ ?_ ?_
  · rw [hbytes, List.length_take, List.length_drop]
    omega
  · rw [hbytes, List.take_take]
    refine take_drop_frames hds ?_ (by omega)
    intro h
    have hsum : packetSize ∣ g.length + off := hoff ▸ Nat.dvd_mul_left _ _
    exact hg ((Nat.dvd_add_left h).mp hsum)

def zeroPacket : Sent := ⟨fun _ => 0, List.replicate sizeofTPacket 0⟩

theorem zeroPacket_frame : zeroPacket.frame =
    [0xFF, 0xFE, 0xFD, 0xFC, 100, 0, 0, 0] ++ List.replicate 132 0 := by
  decide +kernel

theorem zeroPacket_isPacket : zeroPacket.IsPacket := by
  refine ⟨rfl, ?_⟩
  intro i hpos hle h
  have hlast : ((zeroPacket.frame.drop i).take 4)[3]? = some 0xFC := by rw [h]; rfl
  -- past its start the frame holds only the size and zeroes
  have hmem : (0xFC : UInt8) ∈ zeroPacket.frame.drop 4 := by
    apply List.mem_of_getElem? (i := i - 1)
    rw [List.getElem?_take_of_lt (by decide), List.getElem?_drop] at hlast
    rw [List.getElem?_drop, ← hlast]
    congr 1
    omega
  rw [zeroPacket_frame] at hmem
  exact absurd hmem (by decide)

theorem chunking_singletons (stream : List UInt8) : Chunking stream (stream.map fun b => [b]) := by
  refine ⟨by rw [← List.flatMap_def, List.flatMap_singleton'], fun c hc => ?_⟩
  obtain ⟨b, -, rfl⟩ := List.mem_map.mp hc
  exact ⟨Nat.le_refl _, packetSize_pos⟩

/-- If from the `m`-th on all completed answers are `PACKET_BAD`, no more than `m`
structures are delivered. -/
theorem Delivered.length_le {rs : List (TResult × Cells UInt8)} {datas : List (List UInt8)} {m : Nat}
    (h : Delivered rs datas) (hbad : ∀ r ∈ (completed rs).drop m, r.1 = .packetBad) :
    datas.length ≤ m := by
  obtain ⟨calls, hsub, hall⟩ := h
  have hok : calls.countP (fun r => r.1 = .packetOk) = calls.length := by
    rw [List.countP_eq_length]
    exact fun c hc => decide_eq_true (((List.forall₂_and_left _ _).mp hall).1 c hc)
  have hcompleted : rs.countP (fun r => r.1 = .packetOk) =
      (completed rs).countP (fun r => r.1 = .packetOk) := by
    rw [completed, List.countP_filter]
    apply List.countP_congr
    intro r _
    rcases r with ⟨res, o⟩
    cases res <;> simp
  have hlate : ((completed rs).drop m).countP (fun r => r.1 = .packetOk) = 0 := by
    rw [List.countP_eq_zero]
    intro r hr h
    rw [hbad r hr] at h
    exact absurd h (by decide)
  calc
    datas.length = calls.countP (fun r => r.1 = .packetOk) := by rw [hok, hall.length_eq]
    _ ≤ rs.countP (fun r => r.1 = .packetOk) := hsub.countP_le
    _ = ((completed rs).take m).countP (fun r => r.1 = .packetOk) := by
      rw [hcompleted, ← List.take_append_drop m (completed rs), List.countP_append, hlate,
        Nat.add_zero, List.take_append_drop]
    _ ≤ ((completed rs).take m).length := List.countP_le_length
    _ ≤ m := List.length_take_le _ _

theorem dvd_of_resynchronises {l p : Nat → UInt8} {g : List UInt8}
    (h : Resynchronises l p g) : packetSize ∣ g.length := by
  by_contra hg
  obtain ⟨k, hk⟩ := h
  -- enough packets that more are due than blocks are left in which they could arrive
  have hds : ∀ d ∈ List.replicate (k + g.length / packetSize + 3) zeroPacket, d.IsPacket := by
    intro d hd
    rw [List.eq_of_mem_replicate hd]
    exact zeroPacket_isPacket
  have hc := chunking_singletons
    (g ++ (List.replicate (k + g.length / packetSize + 3) zeroPacket).flatMap Sent.frame)
  have hle := (hk _ hds _ ⟨fun _ => 0, []⟩ hc).length_le (misaligned_answers l p _ hg hds hc)
  rw [List.length_map, List.length_drop, List.length_take, List.length_replicate] at hle
  omega

/-! ## Inside the blocks -/

/-- Only the first eight bytes matter. -/
theorem ReadInside.congr {block block' : List UInt8} (h : block.take 8 = block'.take 8)
    (hr : ReadInside block') : ReadInside block := by
  have hbyte (j : Nat) (hj : j < 8) : chunkBuffer block j = chunkBuffer block' j := by
    rw [chunkBuffer, chunkBuffer, List.getD_eq_getElem?_getD, List.getD_eq_getElem?_getD,
      ← List.getElem?_take_of_lt hj, h, List.getElem?_take_of_lt hj]
  have hmagic : magic (chunkBuffer block) = magic (chunkBuffer block') :=
    Bytes.word_congr (slice_congr fun j _ hj => hbyte j (by omega))
  have hsize : dataSize (chunkBuffer block) = dataSize (chunkBuffer block') :=
    Bytes.word_congr (slice_congr fun j _ hj => hbyte j (by omega))
  rw [ReadInside, hmagic, hsize]
  exact hr

theorem frame_take_eight {d : Sent} (hd : d.IsPacket) : d.frame.take 8 = packetHead := by
  have hs := slice_chunkBuffer d.frame
  rw [length_frame] at hs
  have hframe := isFrame_serialize hd.le hs
  have hm := Bytes.word_eq_iff.mp hframe.magic_eq
  have hsize : dataSize (chunkBuffer d.frame) = .ofNat sizeofTPacket := by
    apply UInt32.toNat_inj.mp
    rw [hframe.dataSize_eq, hd.size]
    rfl
  have hn := Bytes.word_eq_iff.mp hsize
  have hsplit : slice (chunkBuffer d.frame) 0 packetSize =
      slice (chunkBuffer d.frame) 0 4 ++ (slice (chunkBuffer d.frame) 4 4 ++
        slice (chunkBuffer d.frame) 8 132) :=
    (slice_add _ 0 4 136).trans (congrArg _ (slice_add _ 4 4 132))
  rw [← hs, hsplit, hm, hn]
  rfl

theorem take_append_frames {t : List UInt8} {ds : List Sent} (hds : ∀ d ∈ ds, d.IsPacket)
    (hlen : 8 ≤ (t ++ ds.flatMap Sent.frame).length) :
    (t ++ ds.flatMap Sent.frame).take 8 = (t ++ packetHead).take 8 := by
  rw [List.take_append, List.take_append]
  congr 1
  cases ds with
  | nil =>
      rw [List.flatMap_nil, List.append_nil] at hlen
      rw [Nat.sub_eq_zero_of_le hlen, List.take_zero, List.take_zero]
  | cons d ds =>
      have hle : 8 - t.length ≤ d.frame.length := by
        rw [length_frame, packetSize]
        omega
      rw [List.flatMap_cons, List.take_append_of_le_length hle,
        ← frame_take_eight (hds d List.mem_cons_self), List.take_take,
        Nat.min_eq_left (Nat.sub_le 8 _)]

theorem readInside_block {g : List UInt8} (hg : StaysInside g) {ds : List Sent}
    (hds : ∀ d ∈ ds, d.IsPacket) {b : List UInt8}
    (hb : b ∈ blocks packetSize (g ++ ds.flatMap Sent.frame)) : ReadInside b := by
  obtain ⟨i, hi⟩ := List.mem_iff_getElem?.mp hb
  obtain ⟨rfl, hlen⟩ := getElem?_blocks hi
  rw [Nat.succ_mul] at hlen
  by_cases hin : i * packetSize < g.length
  · -- the block starts in `g`
    refine (hg i hin).congr ?_
    rw [List.drop_append_of_le_length hin.le, List.take_take, Nat.min_eq_left (by decide)]
    refine take_append_frames hds ?_
    rw [List.length_append] at hlen ⊢
    rw [List.length_drop]
    simp only [packetSize] at hlen ⊢
    omega
  · by_cases hdvd : packetSize ∣ g.length
    · rw [blocks_append_of_dvd packetSize_pos hdvd, blocks_frames, List.getElem?_append_right] at hi
      · obtain ⟨d, hd, hd'⟩ := List.mem_map.mp (List.mem_of_getElem? hi)
        rw [← hd']
        exact readInside_frame (hds d hd).le
      · rw [length_blocks]
        exact Nat.div_le_of_le_mul (Nat.mul_comm i packetSize ▸ Nat.not_lt.mp hin)
    · -- no magic number there
      obtain ⟨off, hoff⟩ := Nat.exists_eq_add_of_le (Nat.not_lt.mp hin)
      rw [hoff, List.length_append, Nat.add_assoc] at hlen
      rw [hoff, List.drop_length_add_append]
      have hoff' : ¬ packetSize ∣ off := fun h =>
        hdvd ((Nat.dvd_add_left h).mp (hoff ▸ Nat.dvd_mul_left _ _))
      have hmagic := take_drop_frames hds hoff' (Nat.le_of_add_le_add_left hlen)
      refine fun h => absurd ((magic_chunkBuffer_iff ?_).mp h) ?_
      · rw [List.length_take, List.length_drop]
        simp only [packetSize] at hlen ⊢
        omega
      · rwa [List.take_take, Nat.min_eq_left (by decide)]

/-- **Resynchronisation.**  The receiver finds its way back after `g` exactly when
`g` fills whole blocks; otherwise every block behind `g` is answered `PACKET_BAD`.
In either case the answers are the verdicts on the blocks. -/
theorem resynchronisation (l p : Nat → UInt8) (g : List UInt8) (hg : StaysInside g) :
    (Resynchronises l p g ↔ packetSize ∣ g.length) ∧
    ∀ (ds : List Sent), (∀ d ∈ ds, d.IsPacket) →
      ∀ chunks out, Chunking (g ++ ds.flatMap Sent.frame) chunks →
        completed (answers l p out chunks) =
            replay out ((blocks packetSize (g ++ ds.flatMap Sent.frame)).map verdict) ∧
          (¬ packetSize ∣ g.length →
            ∀ r ∈ (completed (answers l p out chunks)).drop (g.length / packetSize + 1),
              r.1 = .packetBad) := by
  refine ⟨⟨dvd_of_resynchronises, resynchronises_of_dvd l p⟩, fun ds hds chunks out hc => ?_⟩
  refine ⟨?_, fun hn => misaligned_answers l p out hn hds hc⟩
  rw [completed_answers l p out hc]
  exact frameDecoder_verdicts p out (fun b hb => length_of_mem_blocks hb)
    fun b hb => readInside_block hg hds hb

theorem staysInside_stray_byte : StaysInside [0] := by
  intro i hi
  obtain rfl : i = 0 := by
    simp only [List.length_singleton, packetSize] at hi
    omega
  exact fun h => absurd h (by decide)

/-- Two packets behind a stray byte. -/
theorem resynchronisation_stray_byte :
    (Resynchronises (fun _ => 0) (fun _ => 0) [0] ↔ packetSize ∣ 1) ∧
      ∀ r ∈ (completed (answers (fun _ => 0) (fun _ => 0) ⟨fun _ => 0, []⟩
        (([0] ++ [zeroPacket, zeroPacket].flatMap Sent.frame).map fun b => [b]))).drop 1,
        r.1 = .packetBad := by
  obtain ⟨hiff, hanswers⟩ := resynchronisation (fun _ => 0) (fun _ => 0) [0] staysInside_stray_byte
  have hpackets : ∀ d ∈ [zeroPacket, zeroPacket], d.IsPacket := by
    intro d hd
    rw [List.eq_of_mem_replicate (n := 2) hd]
    exact zeroPacket_isPacket
  exact ⟨hiff, (hanswers _ hpackets _ _ (chunking_singletons _)).2 (by decide)⟩

/-- One stray byte at boot, and no packet is ever delivered again. -/
theorem stray_byte_not_resynchronises :
    ¬ Resynchronises (fun _ => 0) (fun _ => 0) [0] :=
  fun h => absurd (dvd_of_resynchronises h) (by decide)

end Alex
