/-
# `Alex.Backlog` — an assembler with more than a frame pending

Nothing says that a chunk is no longer than a frame: `serialRead` returns up to
`MAX_BUFFER_LEN` bytes.  What is left of a long chunk stays in `leftoverBuffer`, and the
next calls take frames off its front.  While more than a frame is left, such a call does

    outputBuffer  := leftoverBuffer[0 … 139]
    leftoverCount := leftoverCount - 140
    leftoverBuffer[leftoverCount …] := the chunk

and does not move the rest of `leftoverBuffer` to its front.  The frame handed out is the
right one.  What is kept, `leftoverCount` bytes from the front on, are bytes of the frame
just handed out, and the next frame begins with them.
-/
import Alex.Receive
import Mathlib.Algebra.Ring.Nat

namespace Alex

open Cells Blocks

/-! ## What the assembler does to lists -/

/-- The assembler between two calls, with any number of bytes left over. -/
structure Assembler.Holds (s : Assembler) : Prop where
  counter_lt : s.counter < packetSize
  flag : if s.leftoverFlag then s.counter = 0 else s.leftoverCount = 0

/-- One chunk: what is held after it, and the frame it completes. -/
def queue (held chunk : List UInt8) : List UInt8 × Option (List UInt8) :=
  if held.length ≤ packetSize then push packetSize held chunk
  else (held.take (held.length - packetSize) ++ chunk, some (held.take packetSize))

section
variable {s : Assembler} {input : Nat → UInt8} {len : Nat}

theorem Assembler.length_pending (s : Assembler) :
    s.pending.length = s.counter + s.leftoverCount := by
  simp [pending]

theorem Assembler.Holds.copyLeftovers (h : s.Holds) (hle : s.pending.length ≤ packetSize) :
    s.copyLeftovers.counter = s.pending.length ∧ s.copyLeftovers.leftoverCount = 0 ∧
      s.copyLeftovers.leftoverFlag = false ∧
      slice s.copyLeftovers.privateBuffer.get 0 s.pending.length = s.pending := by
  obtain ⟨-, hf⟩ := h
  obtain ⟨counter, leftoverFlag, leftoverCount, leftoverBuffer, privateBuffer⟩ := s
  rw [length_pending] at hle
  cases leftoverFlag with
  | false =>
      obtain rfl : leftoverCount = 0 := by simpa using hf
      simp [Assembler.copyLeftovers, pending]
  | true =>
      obtain rfl : counter = 0 := by simpa using hf
      have hle' : leftoverCount ≤ packetSize := by simpa using hle
      have hslice := slice_write privateBuffer 0 (slice leftoverBuffer.get 0 leftoverCount)
      rw [length_slice] at hslice
      simp [Assembler.copyLeftovers, pending, hle', copy_eq_write, hslice]

/-- What a call answers, and what is pending after it. -/
def Assembler.Does (s : Assembler) (input : Nat → UInt8) (len : Nat) :
    List UInt8 × Option (List UInt8) → Prop
  | (held, none) =>
      (assemble s input len).2 = .packetIncomplete ∧ (assemble s input len).1.pending = held
  | (held, some frame) =>
      (assemble s input len).2 = .packetComplete ∧ (assemble s input len).1.pending = held ∧
        slice (assemble s input len).1.privateBuffer.get 0 packetSize = frame

theorem assemble_few (h : s.Holds) (hle : s.pending.length ≤ packetSize) :
    (assemble s input len).1.Holds ∧
      s.Does input len (push packetSize s.pending (slice input 0 len)) := by
  obtain ⟨hc, hl, hf, hs⟩ := h.copyLeftovers hle
  have hcopy (n : Nat) : slice (s.copyLeftovers.privateBuffer.copy s.pending.length input n).get 0
      (s.pending.length + n) = s.pending ++ slice input 0 n := by
    rw [slice_copy_extend, hs]
  rw [push, List.length_append, length_slice]
  by_cases hfull : packetSize ≤ s.pending.length + len
  · obtain ⟨r, hr⟩ := Nat.exists_eq_add_of_le hfull
    obtain ⟨k, hk⟩ := Nat.exists_eq_add_of_le hle
    obtain rfl : len = k + r := by omega
    have hleft : packetSize - s.pending.length = k := by omega
    have hcall : assemble s input (k + r) =
        ({ s.copyLeftovers with
            leftoverFlag := true
            leftoverBuffer := s.copyLeftovers.leftoverBuffer.copy 0 (fun i => input (k + i)) r
            leftoverCount := r
            privateBuffer := s.copyLeftovers.privateBuffer.copy s.pending.length input k
            counter := 0 }, .packetComplete) := by
      rw [assemble, hc, if_pos hfull, Assembler.finish]
      simp only [hl, hleft, ← hk, if_true, Nat.zero_add, Nat.add_sub_cancel_left]
    have hbytes : s.pending ++ slice input 0 (k + r) =
        (s.pending ++ slice input 0 k) ++ slice input k r := by
      rw [slice_add, Nat.zero_add, List.append_assoc]
    have hfront : (s.pending ++ slice input 0 k).length = packetSize := by
      rw [List.length_append, length_slice, hk]
    rw [if_pos hfull, hbytes, List.drop_left' hfront, List.take_left' hfront, Assembler.Does, hcall]
    refine ⟨⟨Nat.zero_lt_succ _, rfl⟩, rfl, ?_, ?_⟩
    · rw [Assembler.pending, slice_zero, List.nil_append, slice_copy, slice_shift, Nat.add_zero]
    · rw [hk]
      exact hcopy k
  · have hcall : assemble s input len =
        ({ s.copyLeftovers with
            privateBuffer := s.copyLeftovers.privateBuffer.copy s.pending.length input len
            counter := s.pending.length + len }, .packetIncomplete) := by
      have hne : ¬ s.pending.length + len = packetSize := fun heq => hfull (Nat.le_of_eq heq.symm)
      rw [assemble, hc, if_neg hfull, Assembler.finish]
      simp only [hc, if_neg hne]
    rw [if_neg hfull, Assembler.Does, hcall]
    refine ⟨⟨Nat.lt_of_not_le hfull, ?_⟩, rfl, ?_⟩
    · rw [hf]
      exact hl
    · rw [Assembler.pending, hl, slice_zero, List.append_nil]
      exact hcopy len

/-- More than a frame pending: the call takes a frame, and leaves the others where they
are. -/
theorem assemble_many (h : s.Holds) (hlt : packetSize < s.pending.length) :
    (assemble s input len).1.Holds ∧
      s.Does input len (s.pending.take (s.pending.length - packetSize) ++ slice input 0 len,
        some (s.pending.take packetSize)) := by
  obtain ⟨hcounter, hflag⟩ := h
  obtain ⟨counter, leftoverFlag, leftoverCount, leftoverBuffer, privateBuffer⟩ := s
  rw [Assembler.length_pending] at hlt
  cases leftoverFlag with
  | false =>
      obtain rfl : leftoverCount = 0 := by simpa using hflag
      exact absurd hlt (by simpa using Nat.le_of_lt hcounter)
  | true =>
      obtain rfl : counter = 0 := by simpa using hflag
      have hmore : ¬ leftoverCount ≤ packetSize := by simpa using hlt
      have hcall : assemble ⟨0, true, leftoverCount, leftoverBuffer, privateBuffer⟩ input len =
          (⟨0, true, leftoverCount - packetSize + len,
            leftoverBuffer.copy (leftoverCount - packetSize) (fun i => input (0 + i)) len,
            privateBuffer.copy 0 leftoverBuffer.get packetSize⟩, .packetComplete) := by
        simp [assemble, Assembler.copyLeftovers, Assembler.finish, hmore, copy_eq_write]
      have hpending : Assembler.pending ⟨0, true, leftoverCount, leftoverBuffer, privateBuffer⟩ =
          slice leftoverBuffer.get 0 leftoverCount := rfl
      rw [hpending, length_slice, take_slice _ (Nat.sub_le _ _),
        take_slice _ (Nat.le_of_not_le hmore), Assembler.Does, hcall]
      refine ⟨⟨Nat.zero_lt_succ _, rfl⟩, rfl, ?_, slice_copy ..⟩
      rw [Assembler.pending, slice_zero, List.nil_append, slice_copy_extend, slice_shift]

/-- **Step.**  A call does what `queue` does. -/
theorem assemble_queue (h : s.Holds) :
    (assemble s input len).1.Holds ∧ s.Does input len (queue s.pending (slice input 0 len)) := by
  rw [queue]
  split
  · rename_i hle
    exact assemble_few h hle
  · rename_i hgt
    exact assemble_many h (Nat.lt_of_not_le hgt)

end

/-! ## Calls chunk by chunk -/

/-- `assemble` called chunk by chunk; the answer is the frame in `_privateBuffer` when it
returns PACKET_COMPLETE. -/
def assembling : Mealy Assembler (List UInt8) (Option (List UInt8)) where
  step s chunk :=
    let (s, result) := assemble s (chunkBuffer chunk) chunk.length
    (s, if result = .packetComplete then some (slice s.privateBuffer.get 0 packetSize) else none)

/-- The frames handed out, in order. -/
def delivered (s : Assembler) (chunks : List (List UInt8)) : List (List UInt8) :=
  (assembling.outputs s chunks).reduceOption

/-- What is held, chunk by chunk. -/
def queueing : Mealy (List UInt8) (List UInt8) (Option (List UInt8)) where
  step := queue

theorem assembling_step {s : Assembler} (h : s.Holds) (chunk : List UInt8) :
    ((assembling.step s chunk).1.Holds ∧
      (assembling.step s chunk).1.pending = (queue s.pending chunk).1) ∧
    (assembling.step s chunk).2 = (queue s.pending chunk).2 := by
  have hcall := @assemble_queue s (chunkBuffer chunk) chunk.length h
  rw [slice_chunkBuffer] at hcall
  have hstep : assembling.step s chunk = ((assemble s (chunkBuffer chunk) chunk.length).1,
      if (assemble s (chunkBuffer chunk) chunk.length).2 = .packetComplete then
        some (slice (assemble s (chunkBuffer chunk) chunk.length).1.privateBuffer.get 0 packetSize)
      else none) := rfl
  obtain ⟨hholds, hdoes⟩ := hcall
  rw [hstep]
  rcases hq : queue s.pending chunk with ⟨held, _ | frame⟩
  · rw [hq] at hdoes
    obtain ⟨hresult, hpending⟩ := hdoes
    rw [hresult, if_neg (TResult.noConfusion)]
    exact ⟨⟨hholds, hpending⟩, rfl⟩
  · rw [hq] at hdoes
    obtain ⟨hresult, hpending, hframe⟩ := hdoes
    rw [if_pos hresult, hframe]
    exact ⟨⟨hholds, hpending⟩, rfl⟩

/-- **Run.**  The assembler hands out what `queue` does. -/
theorem delivered_eq (leftover privateMem : Nat → UInt8) (chunks : List (List UInt8)) :
    delivered (.initial leftover privateMem) chunks = (queueing.outputs [] chunks).reduceOption := by
  have hstart : (Assembler.initial leftover privateMem).Holds := ⟨Nat.zero_lt_succ _, rfl⟩
  have hsim : assembling.outputs (.initial leftover privateMem) chunks =
      queueing.outputs [] chunks :=
    (assembling.simulation (R := fun s held => s.Holds ∧ s.pending = held) (P := fun _ => True)
      (fun s held chunk _ hr => by
        obtain ⟨hholds, rfl⟩ := hr
        exact assembling_step hholds chunk) (fun _ _ => trivial) ⟨hstart, rfl⟩).2
  rw [delivered, hsim]

/-! ## Harmless sizes -/

/-- The number of bytes held after a chunk of `n`. -/
def backlog (held n : Nat) : Nat :=
  if packetSize ≤ held + n then held + n - packetSize else held + n

/-- No call that begins with more than a frame pending is followed by a call that completes
a frame. -/
def Harmless : Nat → List Nat → Prop
  | _, [] => True
  | held, n :: sizes =>
      (packetSize < held → sizes = [] ∨ backlog held n + sizes.sum < packetSize) ∧
        Harmless (backlog held n) sizes

theorem harmless_of_short {held : Nat} {sizes : List Nat} (h : held + sizes.sum < packetSize) :
    Harmless held sizes := by
  induction sizes generalizing held with
  | nil => trivial
  | cons n sizes ih =>
      rw [List.sum_cons] at h
      have hno : ¬ packetSize ≤ held + n := by omega
      rw [Harmless, backlog, if_neg hno]
      exact ⟨fun hlt => absurd hlt (by omega), ih (by omega)⟩

theorem length_queue (held chunk : List UInt8) :
    (queue held chunk).1.length = backlog held.length chunk.length := by
  rw [queue, backlog]
  split
  · rw [push, List.length_append]
    split
    · rw [List.length_drop, List.length_append]
    · rw [List.length_append]
  · have hle : packetSize ≤ held.length + chunk.length := by omega
    rw [if_pos hle, List.length_append, List.length_take]
    omega

theorem delivered_short {held : List UInt8} {chunks : List (List UInt8)}
    (h : held.length + chunks.flatten.length < packetSize) :
    (queueing.outputs held chunks).reduceOption = [] := by
  induction chunks generalizing held with
  | nil => rfl
  | cons chunk chunks ih =>
      rw [List.flatten_cons, List.length_append] at h
      have hqueue : queue held chunk = (held ++ chunk, none) := by
        have hle : held.length ≤ packetSize := by omega
        have hno : ¬ packetSize ≤ (held ++ chunk).length := by
          rw [List.length_append]
          omega
        rw [queue, if_pos hle, push, if_neg hno]
      show List.reduceOption ((queue held chunk).2 :: queueing.outputs (queue held chunk).1 chunks) = _
      rw [hqueue, List.reduceOption_cons_of_none]
      refine ih ?_
      rw [List.length_append]
      omega

/-- **Harmless sizes** are enough. -/
theorem delivered_of_harmless {held : List UInt8} {chunks : List (List UInt8)}
    (h : Harmless held.length (chunks.map List.length)) :
    (queueing.outputs held chunks).reduceOption <+: blocks packetSize (held ++ chunks.flatten) := by
  induction chunks generalizing held with
  | nil => exact List.nil_prefix
  | cons chunk chunks ih =>
      obtain ⟨hlater, hrest⟩ := h
      have ih := @ih (queue held chunk).1 (by rw [length_queue]; exact hrest)
      show List.reduceOption ((queue held chunk).2 :: queueing.outputs (queue held chunk).1 chunks) <+: _
      rw [List.flatten_cons, ← List.append_assoc]
      by_cases hle : held.length ≤ packetSize
      · have hqueue : queue held chunk = push packetSize held chunk := if_pos hle
        rw [hqueue] at ih ⊢
        rcases push_cases packetSize held chunk with ⟨hp, -⟩ | ⟨b, r, hp, hb, heq⟩
        · rw [hp] at ih ⊢
          rw [List.reduceOption_cons_of_none]
          exact ih
        · rw [hp] at ih ⊢
          rw [heq, List.append_assoc, blocks_cons (by decide) hb, List.reduceOption_cons_of_some]
          exact (List.prefix_cons_inj b).mpr ih
      · have hlt : packetSize < held.length := Nat.lt_of_not_le hle
        have hqueue : queue held chunk =
            (held.take (held.length - packetSize) ++ chunk, some (held.take packetSize)) :=
          if_neg hle
        have hlen := length_queue held chunk
        have hb : (held.take packetSize).length = packetSize := by
          rw [List.length_take]
          omega
        have hsplit : held ++ chunk ++ chunks.flatten =
            held.take packetSize ++ (held.drop packetSize ++ (chunk ++ chunks.flatten)) := by
          rw [← List.append_assoc, List.take_append_drop, List.append_assoc]
        -- the bytes that are kept are the wrong ones, but no frame is made of them
        have hnil : (queueing.outputs (queue held chunk).1 chunks).reduceOption = [] := by
          rcases hlater hlt with hlast | hshort
          · rw [List.map_eq_nil_iff.mp hlast]
            rfl
          · refine delivered_short ?_
            rw [hlen, List.length_flatten]
            exact hshort
        rw [hsplit, blocks_cons (by decide) hb, hqueue, List.reduceOption_cons_of_some,
          List.prefix_cons_inj, ← hqueue, hnil]
        exact List.nil_prefix

/-! ## Harmful sizes -/

theorem head_delivered {held : List UInt8} {x : UInt8} (hx : held.head? = some x)
    {chunks : List (List UInt8)} (hne : chunks ≠ [])
    (h : packetSize ≤ held.length + chunks.flatten.length) : ∃ frame more,
      (queueing.outputs held chunks).reduceOption = frame :: more ∧ frame.head? = some x := by
  obtain ⟨tail, rfl⟩ := List.head?_eq_some_iff.mp hx
  induction chunks generalizing tail with
  | nil => exact absurd rfl hne
  | cons chunk chunks ih =>
      show ∃ frame more, List.reduceOption ((queue (x :: tail) chunk).2 ::
        queueing.outputs (queue (x :: tail) chunk).1 chunks) = frame :: more ∧ _
      by_cases hle : (x :: tail).length ≤ packetSize
      · have hqueue : queue (x :: tail) chunk = push packetSize (x :: tail) chunk := if_pos hle
        rw [hqueue]
        rcases push_cases packetSize (x :: tail) chunk with ⟨hp, hshort⟩ | ⟨b, r, hp, hb, heq⟩
        · rw [hp, List.reduceOption_cons_of_none]
          rw [List.flatten_cons, List.length_append] at h
          rw [List.length_append] at hshort
          refine ih ?_ (tail ++ chunk) rfl ?_
          · rintro rfl
            simp only [List.flatten_nil, List.length_nil, Nat.add_zero] at h
            omega
          · rw [← List.cons_append, List.length_append]
            omega
        · rw [hp, List.reduceOption_cons_of_some]
          refine ⟨b, _, rfl, ?_⟩
          cases b with
          | nil => exact nomatch hb
          | cons y b =>
              rw [List.cons_append, List.cons_append] at heq
              rw [(List.cons_eq_cons.mp heq).1]
              rfl
      · have hqueue : queue (x :: tail) chunk =
            ((x :: tail).take ((x :: tail).length - packetSize) ++ chunk,
              some ((x :: tail).take packetSize)) :=
          if_neg hle
        rw [hqueue, List.reduceOption_cons_of_some]
        exact ⟨_, _, rfl, rfl⟩

/-- A stream in which each block is numbered. -/
def numbered (i : Nat) : UInt8 := .ofNat (i / packetSize)

/-- Chunks of given sizes of that stream, from an offset on. -/
def numberedChunks : Nat → List Nat → List (List UInt8)
  | _, [] => []
  | off, n :: sizes => slice numbered off n :: numberedChunks (off + n) sizes

theorem map_length_numberedChunks (off : Nat) (sizes : List Nat) :
    (numberedChunks off sizes).map List.length = sizes := by
  induction sizes generalizing off with
  | nil => rfl
  | cons n sizes ih => rw [numberedChunks, List.map_cons, length_slice, ih]

theorem flatten_numberedChunks (off : Nat) (sizes : List Nat) :
    (numberedChunks off sizes).flatten = slice numbered off sizes.sum := by
  induction sizes generalizing off with
  | nil => rfl
  | cons n sizes ih => rw [numberedChunks, List.flatten_cons, ih, List.sum_cons, slice_add]

theorem numbered_ne (k : Nat) : numbered (k * packetSize) ≠ numbered ((k + 1) * packetSize) := by
  have hpos : 0 < packetSize := by decide
  intro h
  rw [numbered, numbered, Nat.mul_div_cancel _ hpos, Nat.mul_div_cancel _ hpos, ← UInt8.toNat_inj,
    UInt8.toNat_ofNat', UInt8.toNat_ofNat'] at h
  omega

theorem head?_slice (f : Nat → UInt8) (off : Nat) {n : Nat} (h : 0 < n) :
    (slice f off n).head? = some (f off) := by
  obtain ⟨m, rfl⟩ := Nat.exists_eq_add_of_lt h
  rw [Nat.zero_add, slice_succ]
  rfl

theorem not_prefix_of_head {k m : Nat} {frame : List UInt8} {more : List (List UInt8)}
    (hhead : frame.head? = some (numbered (k * packetSize))) :
    ¬ frame :: more <+: blocks packetSize (slice numbered ((k + 1) * packetSize) m) := by
  intro h
  obtain ⟨later, hlater⟩ := h
  have hfirst : (blocks packetSize (slice numbered ((k + 1) * packetSize) m))[0]? = some frame := by
    rw [← hlater]
    rfl
  obtain ⟨hframe, hlen⟩ := getElem?_blocks hfirst
  rw [length_slice, Nat.zero_add, Nat.one_mul] at hlen
  rw [Nat.zero_mul, List.drop_zero, take_slice _ hlen] at hframe
  rw [hframe, head?_slice _ _ (by decide)] at hhead
  exact numbered_ne k (Option.some.inj hhead).symm

theorem blocks_numbered (k m : Nat) :
    blocks packetSize (slice numbered (k * packetSize) (packetSize + m)) =
      slice numbered (k * packetSize) packetSize ::
        blocks packetSize (slice numbered ((k + 1) * packetSize) m) := by
  rw [slice_add, blocks_cons (by decide) (length_slice ..), Nat.succ_mul]

theorem outputs_numberedChunks (held : List UInt8) (off n : Nat) (sizes : List Nat) :
    (queueing.outputs held (numberedChunks off (n :: sizes))).reduceOption =
      List.reduceOption ((queue held (slice numbered off n)).2 ::
        queueing.outputs (queue held (slice numbered off n)).1 (numberedChunks (off + n) sizes)) :=
  rfl

/-- A call with more than a frame pending, and one that completes a frame: it begins with the
number of the block before. -/
theorem harmful_calls {k r n n' : Nat} {sizes : List Nat}
    (h : packetSize ≤ r + 1 + n + (n' :: sizes).sum) :
    ¬ (queueing.outputs (slice numbered (k * packetSize) (packetSize + r + 1))
        (numberedChunks (k * packetSize + (packetSize + r + 1)) (n :: n' :: sizes))).reduceOption <+:
      blocks packetSize
        (slice numbered (k * packetSize) (packetSize + r + 1 + (n :: n' :: sizes).sum)) := by
  intro hdelivered
  have hmore : ¬ packetSize + r + 1 ≤ packetSize := by omega
  have hrest : packetSize + r + 1 - packetSize = r + 1 := by omega
  have hqueue : queue (slice numbered (k * packetSize) (packetSize + r + 1))
      (slice numbered (k * packetSize + (packetSize + r + 1)) n) =
      (slice numbered (k * packetSize) (r + 1) ++
          slice numbered (k * packetSize + (packetSize + r + 1)) n,
        some (slice numbered (k * packetSize) packetSize)) := by
    rw [queue, length_slice, if_neg hmore, hrest, take_slice _ (by omega), take_slice _ (by omega)]
  -- what is kept begins with the frame that was just handed out
  have hkept : (slice numbered (k * packetSize) (r + 1) ++
      slice numbered (k * packetSize + (packetSize + r + 1)) n).head? =
      some (numbered (k * packetSize)) := by
    rw [slice_succ]
    rfl
  have hne : numberedChunks (k * packetSize + (packetSize + r + 1) + n) (n' :: sizes) ≠ [] :=
    List.cons_ne_nil _ _
  obtain ⟨frame, more, hframes, hhead⟩ := head_delivered hkept hne (by
    rw [flatten_numberedChunks, List.length_append, length_slice, length_slice, length_slice]
    exact h)
  have hsum : packetSize + r + 1 + (n :: n' :: sizes).sum =
      packetSize + (r + 1 + n + (n' :: sizes).sum) := by
    rw [List.sum_cons]
    omega
  rw [outputs_numberedChunks, hqueue, List.reduceOption_cons_of_some, hsum, blocks_numbered,
    List.prefix_cons_inj, hframes] at hdelivered
  exact not_prefix_of_head hhead hdelivered

/-- **Harmful sizes** do harm to the numbered stream. -/
theorem harmless_of_delivered {k held : Nat} {sizes : List Nat}
    (h : (queueing.outputs (slice numbered (k * packetSize) held)
        (numberedChunks (k * packetSize + held) sizes)).reduceOption <+:
      blocks packetSize (slice numbered (k * packetSize) (held + sizes.sum))) :
    Harmless held sizes := by
  induction sizes generalizing k held with
  | nil => trivial
  | cons n sizes ih =>
      by_cases hle : held ≤ packetSize
      · have hqueue : queue (slice numbered (k * packetSize) held)
            (slice numbered (k * packetSize + held) n) =
            push packetSize (slice numbered (k * packetSize) held)
              (slice numbered (k * packetSize + held) n) :=
          if_pos (by rw [length_slice]; exact hle)
        refine ⟨fun hlt => absurd hlt (Nat.not_lt.mpr hle), ?_⟩
        rw [outputs_numberedChunks, hqueue, push, ← slice_add, length_slice, List.sum_cons] at h
        rw [backlog]
        by_cases hfull : packetSize ≤ held + n
        · obtain ⟨m, hm⟩ := Nat.exists_eq_add_of_le hfull
          have hsub : held + n - packetSize = m := by omega
          have hsum : held + (n + sizes.sum) = packetSize + (m + sizes.sum) := by omega
          have hnext : k * packetSize + packetSize = (k + 1) * packetSize := (Nat.succ_mul ..).symm
          have hoff : k * packetSize + held + n = (k + 1) * packetSize + m := by omega
          rw [if_pos hfull, take_slice _ hfull, drop_slice _ hfull, List.reduceOption_cons_of_some,
            hsum, blocks_numbered, List.prefix_cons_inj, hsub, hoff, hnext] at h
          rw [if_pos hfull, hsub]
          exact ih h
        · rw [if_neg hfull, List.reduceOption_cons_of_none, ← Nat.add_assoc held, Nat.add_assoc] at h
          rw [if_neg hfull]
          exact ih h
      · -- from here on all is well only if no frame is completed any more
        obtain ⟨r, rfl⟩ := Nat.exists_eq_add_of_lt (Nat.lt_of_not_le hle)
        have hbacklog : backlog (packetSize + r + 1) n = r + 1 + n := by
          rw [backlog, if_pos (by omega)]
          omega
        rw [Harmless, hbacklog]
        by_cases hshort : r + 1 + n + sizes.sum < packetSize
        · exact ⟨fun _ => .inr hshort, harmless_of_short hshort⟩
        · cases sizes with
          | nil => exact ⟨fun _ => .inl rfl, trivial⟩
          | cons n' sizes => exact absurd h (harmful_calls (Nat.le_of_not_lt hshort))

/-- **Backlogs.**  Whatever the chunks hold, the frames handed out are consecutive blocks of
the stream from its first byte on, exactly if the sizes of the chunks are harmless. -/
theorem consecutive_iff (leftover privateMem : Nat → UInt8) (sizes : List Nat) :
    (∀ chunks : List (List UInt8), chunks.map List.length = sizes →
      delivered (.initial leftover privateMem) chunks <+: blocks packetSize chunks.flatten) ↔
      Harmless 0 sizes := by
  constructor
  · intro h
    have hnumbered := h (numberedChunks 0 sizes) (map_length_numberedChunks 0 sizes)
    rw [delivered_eq, flatten_numberedChunks] at hnumbered
    refine @harmless_of_delivered 0 0 sizes ?_
    rw [Nat.zero_mul, Nat.zero_add, Nat.zero_add, slice_zero]
    exact hnumbered
  · rintro h chunks rfl
    rw [delivered_eq]
    exact @delivered_of_harmless [] chunks h

/-- A chunk of more than two frames, and two more calls: the third frame begins with the
bytes of the second. -/
theorem third_frame_mixed :
    ¬ delivered (.initial (fun _ => 0) (fun _ => 0)) (numberedChunks 0 [300, 1, 139]) <+:
      blocks packetSize (numberedChunks 0 [300, 1, 139]).flatten := by
  intro h
  rw [delivered_eq, flatten_numberedChunks] at h
  have hharmless : Harmless 0 [300, 1, 139] := by
    refine @harmless_of_delivered 0 0 [300, 1, 139] ?_
    rw [Nat.zero_mul, Nat.zero_add, Nat.zero_add, slice_zero]
    exact h
  obtain ⟨-, hsecond, -⟩ := hharmless
  exact absurd (hsecond (by decide)) (by decide)

end Alex
