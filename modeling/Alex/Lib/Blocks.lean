/-
# `Alex.Lib.Blocks` — a stream cut into blocks, and a decoder that meets it in chunks

A stream of a fixed block length `n` is its complete blocks `blocks n s`
followed by an incomplete one.  A receiver does not see blocks but chunks, cut
anywhere; `blockDecoder n` is the machine that holds back what does not fill a
block yet and hands out a block as soon as it is complete.  While no chunk is
longer than a block:

    decoder_blocks    the blocks handed out are the blocks of the stream, in order
    decoder_timing    block k is handed out by the call that completes it
-/
import Mathlib.Data.List.Basic
import Mathlib.Data.List.ReduceOption
import Alex.Lib.Mealy

universe u

namespace Blocks

variable {α : Type u} {n : Nat}

/-- The complete length-`n` blocks of a stream, in order. -/
def blocks (n : Nat) (s : List α) : List (List α) :=
  (List.range (s.length / n)).map fun k => (s.drop (k * n)).take n

theorem blocks_of_short {s : List α} (h : s.length < n) : blocks n s = [] := by
  simp [blocks, Nat.div_eq_of_lt h]

@[simp] theorem length_blocks (s : List α) : (blocks n s).length = s.length / n := by
  simp [blocks]

theorem blocks_cons (hn : 0 < n) {b : List α} (hb : b.length = n) (s : List α) :
    blocks n (b ++ s) = b :: blocks n s := by
  have hlen : (b ++ s).length / n = s.length / n + 1 := by
    rw [List.length_append, hb, Nat.add_div_left _ hn]
  have hdrop (k : Nat) : (b ++ s).drop ((k + 1) * n) = s.drop (k * n) := by
    have hk : (k + 1) * n = b.length + k * n := by rw [Nat.succ_mul, hb, Nat.add_comm]
    rw [hk, List.drop_length_add_append]
  rw [blocks, hlen, List.range_succ_eq_map, List.map_cons, List.map_map]
  congr 1
  · simp [← hb]
  · apply List.map_congr_left
    intro k _
    show ((b ++ s).drop ((k + 1) * n)).take n = _
    rw [hdrop]

theorem short_or_cons (n : Nat) (s : List α) :
    s.length < n ∨ ∃ b t, b.length = n ∧ s = b ++ t := by
  rcases Nat.lt_or_ge s.length n with h | h
  · exact .inl h
  · exact .inr ⟨s.take n, s.drop n, List.length_take_of_le h, (List.take_append_drop n s).symm⟩

/-- Blocks laid one after another are read back, whatever short tail follows. -/
theorem blocks_flatten (hn : 0 < n) {bs : List (List α)} (hbs : ∀ b ∈ bs, b.length = n)
    (s : List α) : blocks n (bs.flatten ++ s) = bs ++ blocks n s := by
  induction bs with
  | nil => rfl
  | cons b bs ih =>
      rw [List.flatten_cons, List.append_assoc, blocks_cons hn (hbs b List.mem_cons_self),
        ih fun c hc => hbs c (List.mem_cons_of_mem _ hc)]
      rfl

theorem blocks_append_of_dvd (hn : 0 < n) {g : List α} (hg : n ∣ g.length) (s : List α) :
    blocks n (g ++ s) = blocks n g ++ blocks n s := by
  obtain ⟨m, hm⟩ := hg
  induction m generalizing g with
  | zero =>
      obtain rfl : g = [] := List.eq_nil_of_length_eq_zero (by simpa using hm)
      have hnil : blocks n ([] : List α) = [] := blocks_of_short hn
      rw [hnil]
      rfl
  | succ m ih =>
      rcases short_or_cons n g with h | ⟨b, t, hb, rfl⟩
      · rw [hm, Nat.mul_succ] at h
        omega
      · rw [List.append_assoc, blocks_cons hn hb, blocks_cons hn hb, ih, List.cons_append]
        rw [List.length_append, hb, Nat.mul_succ] at hm
        omega

theorem getElem?_blocks {s : List α} {k : Nat} {b : List α} (h : (blocks n s)[k]? = some b) :
    b = (s.drop (k * n)).take n ∧ (k + 1) * n ≤ s.length := by
  have hk : k < s.length / n := by
    obtain ⟨hk, -⟩ := List.getElem?_eq_some_iff.mp h
    simpa using hk
  have hb : (blocks n s)[k]? = some ((s.drop (k * n)).take n) := by
    simp [blocks, List.getElem?_range hk]
  refine ⟨by simpa [hb] using h.symm, ?_⟩
  exact Nat.le_trans (Nat.mul_le_mul_right n hk) (Nat.div_mul_le_self _ _)

theorem length_of_mem_blocks {s b : List α} (h : b ∈ blocks n s) : b.length = n := by
  obtain ⟨k, hk⟩ := List.mem_iff_getElem?.mp h
  obtain ⟨rfl, hle⟩ := getElem?_blocks hk
  rw [Nat.succ_mul] at hle
  rw [List.length_take, List.length_drop]
  omega

/-! ## The decoder -/

/-- One chunk: the block it completes, if it does, and what is held back after it. -/
def push (n : Nat) (held chunk : List α) : List α × Option (List α) :=
  if n ≤ (held ++ chunk).length then
    ((held ++ chunk).drop n, some ((held ++ chunk).take n))
  else
    (held ++ chunk, none)

/-- The machine over chunks; its state is what it holds back. -/
def blockDecoder (n : Nat) : Mealy (List α) (List α) (Option (List α)) where
  step := push n

/-- What one chunk can do: complete no block, or exactly one. -/
theorem push_cases (n : Nat) (held chunk : List α) :
    ((push n held chunk) = (held ++ chunk, none) ∧ (held ++ chunk).length < n) ∨
    (∃ b r, push n held chunk = (r, some b) ∧ b.length = n ∧ held ++ chunk = b ++ r) := by
  by_cases h : n ≤ (held ++ chunk).length
  · refine .inr ⟨_, _, by rw [push, if_pos h], ?_, (List.take_append_drop n _).symm⟩
    rw [List.length_take]
    omega
  · exact .inl ⟨by rw [push, if_neg h], by omega⟩

theorem push_short {held chunk : List α} (hh : held.length < n) (hc : chunk.length ≤ n) :
    (push n held chunk).1.length < n := by
  rcases push_cases n held chunk with ⟨h, hlt⟩ | ⟨b, r, h, hb, heq⟩
  · rw [h]; exact hlt
  · have := congrArg List.length heq
    rw [List.length_append, List.length_append] at this
    rw [h]
    show r.length < n
    omega

theorem push_nil {held : List α} (h : held.length < n) : push n held [] = (held, none) := by
  rw [push, List.append_nil, if_neg (Nat.not_le_of_lt h)]

section
variable {β : Type*} {f : β → List α}

theorem eq_nil_of_flatMap_short (hf : ∀ x, (f x).length = n) {held : List α} {xs : List β}
    (hh : held.length < n) (h : held = xs.flatMap f) : xs = [] := by
  cases xs with
  | nil => rfl
  | cons x later =>
      rw [h, List.flatMap_cons, List.length_append, hf x] at hh
      omega

/-- While the stream is made of blocks, a chunk completes no block, or the first. -/
theorem push_flatMap (hn : 0 < n) (hf : ∀ x, (f x).length = n) {held chunk rest : List α}
    {xs : List β} (h : held ++ (chunk ++ rest) = xs.flatMap f) :
    push n held chunk = (held ++ chunk, none) ∨
    ∃ x later r, xs = x :: later ∧ push n held chunk = (r, some (f x)) ∧
      held ++ chunk = f x ++ r ∧ r ++ rest = later.flatMap f := by
  rcases push_cases n held chunk with ⟨hp, -⟩ | ⟨b, r, hp, hb, heq⟩
  · exact .inl hp
  · rw [← List.append_assoc, heq, List.append_assoc] at h
    cases xs with
    | nil =>
        have hlen := congrArg List.length h
        rw [List.length_append, hb, List.flatMap_nil, List.length_nil] at hlen
        omega
    | cons x later =>
        rw [List.flatMap_cons] at h
        obtain ⟨rfl, hrest⟩ := List.append_inj h (hb.trans (hf x).symm)
        exact .inr ⟨x, later, r, rfl, hp, heq, hrest⟩

end

/-- The blocks handed out, in order, are the blocks of the held bytes and the chunks. -/
theorem decoder_blocks (hn : 0 < n) {held : List α} {cs : List (List α)}
    (hh : held.length < n) (hcs : ∀ c ∈ cs, c.length ≤ n) :
    ((blockDecoder n).outputs held cs).reduceOption = blocks n (held ++ cs.flatten) := by
  induction cs generalizing held with
  | nil => simp [blocks_of_short hh, List.reduceOption_nil]
  | cons c cs ih =>
      have hshort := push_short hh (hcs c List.mem_cons_self)
      have ih := ih hshort fun d hd => hcs d (List.mem_cons_of_mem _ hd)
      show List.reduceOption ((push n held c).2 :: (blockDecoder n).outputs (push n held c).1 cs) = _
      rw [List.flatten_cons, ← List.append_assoc]
      rcases push_cases n held c with ⟨h, -⟩ | ⟨b, r, h, hb, heq⟩
      · rw [h] at ih ⊢
        rw [List.reduceOption_cons_of_none, ih]
      · rw [h] at ih ⊢
        rw [heq, List.append_assoc, blocks_cons hn hb, List.reduceOption_cons_of_some, ih]

/-- Block `k` is handed out by the call that delivers its last element. -/
theorem decoder_timing (hn : 0 < n) {held : List α} {cs : List (List α)}
    (hh : held.length < n) (hcs : ∀ c ∈ cs, c.length ≤ n) {k : Nat} {b : List α}
    (hk : (blocks n (held ++ cs.flatten))[k]? = some b) :
    ∃ i, i < cs.length ∧ ((blockDecoder n).outputs held cs)[i]? = some (some b) ∧
      held.length + (cs.take i).flatten.length < (k + 1) * n ∧
      (k + 1) * n ≤ held.length + (cs.take (i + 1)).flatten.length := by
  induction cs generalizing held k with
  | nil => simp [blocks_of_short hh] at hk
  | cons c cs ih =>
      have hc := hcs c List.mem_cons_self
      have hshort := push_short hh hc
      have ih := @ih (push n held c).1 hshort fun d hd => hcs d (List.mem_cons_of_mem _ hd)
      rw [List.flatten_cons, ← List.append_assoc] at hk
      rcases push_cases n held c with ⟨h, hlt⟩ | ⟨d, r, h, hd, heq⟩
      · rw [h] at ih
        obtain ⟨i, hi, ho, h₁, h₂⟩ := ih hk
        refine ⟨i + 1, by simpa using hi, ?_, ?_, ?_⟩
        · show (_ :: (blockDecoder n).outputs (push n held c).1 cs)[i + 1]? = _
          rw [h]
          simpa using ho
        · simp only [List.length_append, List.take_succ_cons, List.flatten_cons] at h₁ ⊢
          omega
        · simp only [List.length_append, List.take_succ_cons, List.flatten_cons] at h₂ ⊢
          omega
      · have hlen := congrArg List.length heq
        simp only [List.length_append] at hlen
        rw [heq, List.append_assoc, blocks_cons hn hd] at hk
        cases k with
        | zero =>
            obtain rfl : d = b := by simpa using hk
            refine ⟨0, by simp, ?_, by simpa using hh, ?_⟩
            · show ((push n held c).2 :: _)[0]? = _
              rw [h]
              rfl
            · simp
              omega
        | succ k =>
            rw [h] at ih
            obtain ⟨i, hi, ho, h₁, h₂⟩ := ih (by simpa using hk)
            refine ⟨i + 1, by simpa using hi, ?_, ?_, ?_⟩
            · show (_ :: (blockDecoder n).outputs (push n held c).1 cs)[i + 1]? = _
              rw [h]
              simpa using ho
            · rw [List.take_succ_cons, List.flatten_cons, List.length_append, Nat.succ_mul]
              dsimp only at h₁
              omega
            · rw [List.take_succ_cons, List.flatten_cons, List.length_append, Nat.succ_mul]
              dsimp only at h₂
              omega

end Blocks
