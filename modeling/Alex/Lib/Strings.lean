/-
# `Alex.Lib.Strings` — strings that end at a zero

A C function that is given a string is given an address, and reads on until it meets a
zero byte: where the string ends is up to what lies in memory, and not up to the array
that was meant.  `Spells m text` says that it is `text` the function gets to see when
it starts at the first byte of `m`.  Whatever it gets to see begins with the bytes that
lie there before the first zero (`Spells.prefix_of_slice`); if there is no zero byte, no
text is spelled at all.
-/
import Alex.Lib.Cells

namespace Cells

/-- Read as a string, memory spells a text: its bytes, none of them zero, and a zero. -/
structure Spells (m : Nat → UInt8) (text : List UInt8) : Prop where
  slice_eq : slice m 0 text.length = text
  zero_not_mem : 0 ∉ text
  terminated : m text.length = 0

instance (m : Nat → UInt8) (text : List UInt8) : Decidable (Spells m text) :=
  decidable_of_iff (slice m 0 text.length = text ∧ 0 ∉ text ∧ m text.length = 0)
    ⟨fun h => ⟨h.1, h.2.1, h.2.2⟩, fun h => ⟨h.1, h.2, h.3⟩⟩

variable {m : Nat → UInt8} {text : List UInt8}

theorem slice_tail (m : Nat → UInt8) (n : Nat) :
    slice (fun i => m (i + 1)) 0 n = slice m 1 n := by
  simp only [Nat.add_comm _ 1]
  exact slice_shift m 0 1 n

@[simp] theorem spells_nil_iff : Spells m [] ↔ m 0 = 0 :=
  ⟨fun h => h.terminated, fun h => ⟨rfl, List.not_mem_nil, h⟩⟩

theorem spells_cons_iff {c : UInt8} :
    Spells m (c :: text) ↔ m 0 = c ∧ c ≠ 0 ∧ Spells (fun i => m (i + 1)) text := by
  have hshift := slice_tail m text.length
  constructor
  · rintro ⟨hslice, hzero, hend⟩
    obtain ⟨h₀, hrest⟩ := List.cons.inj hslice
    rw [List.mem_cons, not_or] at hzero
    exact ⟨h₀, Ne.symm hzero.1, hshift.trans hrest, hzero.2, hend⟩
  · rintro ⟨h₀, hc, hslice, hzero, hend⟩
    refine ⟨?_, ?_, hend⟩
    · rw [List.length_cons, slice_succ, h₀, Nat.zero_add, ← hshift, hslice]
    · rw [List.mem_cons, not_or]
      exact ⟨hc.symm, hzero⟩

theorem Spells.prefix_of_slice {bytes : List UInt8} (h : Spells m text)
    (hslice : slice m 0 bytes.length = bytes) (hzero : 0 ∉ bytes) : bytes <+: text := by
  induction bytes generalizing m text with
  | nil => exact List.nil_prefix
  | cons c bytes ih =>
      obtain ⟨h₀, hrest⟩ := List.cons.inj hslice
      rw [List.mem_cons, not_or] at hzero
      cases text with
      | nil => exact absurd (h₀.symm.trans (spells_nil_iff.mp h)) (Ne.symm hzero.1)
      | cons c' text =>
          obtain ⟨h₀', -, htext⟩ := spells_cons_iff.mp h
          rw [← h₀, ← h₀', List.prefix_cons_inj]
          refine ih htext ?_ hzero.2
          rw [slice_tail]
          exact hrest

theorem spells_iff_of_slice (hslice : slice m 0 text.length = text) (hzero : 0 ∉ text) :
    Spells m text ↔ m text.length = 0 :=
  ⟨fun h => h.terminated, fun h => ⟨hslice, hzero, h⟩⟩

theorem spells_of_slice_concat (hslice : slice m 0 (text.length + 1) = text ++ [0])
    (hzero : 0 ∉ text) : Spells m text := by
  rw [slice_add, Nat.zero_add] at hslice
  obtain ⟨htext, hend⟩ := List.append_inj hslice (length_slice ..)
  exact ⟨htext, hzero, (List.cons.inj hend).1⟩

end Cells
