/-
# `Alex.Lib.Bytes` — words in memory, and byte sums

A 32-bit word lies in memory as four bytes, lowest first; `word f off` reads
one back.  `half f off` does so with a word of 16 bits.  `checksum l` is the
exclusive or of the bytes of `l`.
-/
import Mathlib.Data.List.Induction
import Alex.Lib.Cells

namespace Bytes

/-- The four bytes of a word, lowest first. -/
def ofWord (w : UInt32) : List UInt8 :=
  [.ofNat w.toNat, .ofNat (w.toNat / 256), .ofNat (w.toNat / 65536), .ofNat (w.toNat / 16777216)]

/-- The word whose bytes, lowest first, are at offset `off`. -/
def word (f : Nat → UInt8) (off : Nat) : UInt32 :=
  .ofNat ((f off).toNat + 256 * (f (off + 1)).toNat + 65536 * (f (off + 2)).toNat
    + 16777216 * (f (off + 3)).toNat)

/-- The exclusive or of a list of bytes. -/
def checksum (l : List UInt8) : UInt8 := l.foldl (· ^^^ ·) 0

theorem toNat_word (f : Nat → UInt8) (off : Nat) :
    (word f off).toNat = (f off).toNat + 256 * (f (off + 1)).toNat
      + 65536 * (f (off + 2)).toNat + 16777216 * (f (off + 3)).toNat := by
  have h₀ := (f off).toNat_lt
  have h₁ := (f (off + 1)).toNat_lt
  have h₂ := (f (off + 2)).toNat_lt
  have h₃ := (f (off + 3)).toNat_lt
  rw [word, UInt32.toNat_ofNat']
  exact Nat.mod_eq_of_lt (by omega)

theorem word_eq_iff {f : Nat → UInt8} {off : Nat} {w : UInt32} :
    word f off = w ↔ Cells.slice f off 4 = ofWord w := by
  have h₀ := (f off).toNat_lt
  have h₁ := (f (off + 1)).toNat_lt
  have h₂ := (f (off + 2)).toNat_lt
  have h₃ := (f (off + 3)).toNat_lt
  have hw := w.toNat_lt
  have hs : Cells.slice f off 4 = [f off, f (off + 1), f (off + 2), f (off + 3)] := rfl
  rw [hs, ofWord, ← UInt32.toNat_inj, toNat_word]
  simp only [List.cons.injEq, and_true, ← UInt8.toNat_inj, UInt8.toNat_ofNat']
  omega

theorem word_congr {f g : Nat → UInt8} {off : Nat}
    (h : Cells.slice f off 4 = Cells.slice g off 4) : word f off = word g off :=
  word_eq_iff.mpr (h.trans (word_eq_iff.mp rfl))

theorem word_eq_word_iff {f g : Nat → UInt8} {off : Nat} :
    word f off = word g off ↔ ∀ i, off ≤ i → i < off + 4 → f i = g i := by
  constructor
  · intro h
    have hs : Cells.slice f off 4 = Cells.slice g off 4 :=
      (word_eq_iff.mp h).trans (word_eq_iff.mp rfl).symm
    intro i h₁ h₂
    obtain ⟨k, rfl⟩ := Nat.exists_eq_add_of_le h₁
    exact Cells.slice_eq_slice_iff.mp hs k (Nat.add_lt_add_iff_left.mp h₂)
  · exact fun h => word_congr (Cells.slice_congr h)

theorem word_of_slice {f : Nat → UInt8} {off : Nat} {w : UInt32}
    (h : Cells.slice f off 4 = ofWord w) : word f off = w :=
  word_eq_iff.mpr h

theorem ofWord_inj {v w : UInt32} : ofWord v = ofWord w ↔ v = w := by
  constructor
  · intro h
    have hread : Cells.slice (fun i => (ofWord v).getD i 0) 0 4 = ofWord v := rfl
    exact (word_of_slice hread).symm.trans (word_of_slice (hread.trans h))
  · exact congrArg ofWord

theorem flatMap_ofWord_inj {vs ws : List UInt32} :
    vs.flatMap ofWord = ws.flatMap ofWord ↔ vs = ws := by
  constructor
  · intro h
    induction vs generalizing ws with
    | nil =>
        cases ws with
        | nil => rfl
        | cons w ws => exact nomatch h
    | cons v vs ih =>
        cases ws with
        | nil => exact nomatch h
        | cons w ws =>
            rw [List.flatMap_cons, List.flatMap_cons] at h
            obtain ⟨hw, hws⟩ := List.append_inj h rfl
            rw [ofWord_inj.mp hw, ih hws]
  · exact congrArg (List.flatMap ofWord)

theorem word_of_words {f : Nat → UInt8} {off : Nat} {ws : List UInt32}
    (h : Cells.slice f off (ws.flatMap ofWord).length = ws.flatMap ofWord) {i : Nat}
    (hi : i < ws.length) : word f (off + 4 * i) = ws[i] := by
  induction ws generalizing off i with
  | nil => exact absurd hi (Nat.not_lt_zero i)
  | cons w ws ih =>
      rw [List.flatMap_cons, List.length_append, Cells.slice_add] at h
      obtain ⟨hw, hws⟩ := List.append_inj h (Cells.length_slice ..)
      cases i with
      | zero => exact word_of_slice hw
      | succ i =>
          have hoff : off + 4 * (i + 1) = off + (ofWord w).length + 4 * i := by
            show _ = off + 4 + 4 * i
            omega
          rw [hoff]
          exact ih hws (Nat.lt_of_succ_lt_succ hi)

/-- The two bytes of a half word, lowest first. -/
def ofHalf (h : UInt16) : List UInt8 := [.ofNat h.toNat, .ofNat (h.toNat / 256)]

/-- The half word whose bytes, lowest first, are at offset `off`. -/
def half (f : Nat → UInt8) (off : Nat) : UInt16 :=
  .ofNat ((f off).toNat + 256 * (f (off + 1)).toNat)

theorem toNat_half (f : Nat → UInt8) (off : Nat) :
    (half f off).toNat = (f off).toNat + 256 * (f (off + 1)).toNat := by
  have h₀ := (f off).toNat_lt
  have h₁ := (f (off + 1)).toNat_lt
  rw [half, UInt16.toNat_ofNat']
  exact Nat.mod_eq_of_lt (by omega)

theorem half_eq_iff {f : Nat → UInt8} {off : Nat} {h : UInt16} :
    half f off = h ↔ Cells.slice f off 2 = ofHalf h := by
  have h₀ := (f off).toNat_lt
  have h₁ := (f (off + 1)).toNat_lt
  have hh := h.toNat_lt
  have hs : Cells.slice f off 2 = [f off, f (off + 1)] := rfl
  rw [hs, ofHalf, ← UInt16.toNat_inj, toNat_half]
  simp only [List.cons.injEq, and_true, ← UInt8.toNat_inj, UInt8.toNat_ofNat']
  omega

theorem ofHalf_inj {g h : UInt16} : ofHalf g = ofHalf h ↔ g = h := by
  constructor
  · intro heq
    have hread (k : UInt16) : half (fun i => (ofHalf k).getD i 0) 0 = k := half_eq_iff.mpr rfl
    rw [← hread g, ← hread h, heq]
  · exact congrArg ofHalf

theorem flatMap_inj_of_length {α : Type*} {f : α → List UInt8} {n : Nat}
    (hlen : ∀ a, (f a).length = n) (hf : Function.Injective f) {as bs : List α}
    (hcount : as.length = bs.length) (h : as.flatMap f = bs.flatMap f) : as = bs := by
  induction as generalizing bs with
  | nil => exact (List.eq_nil_of_length_eq_zero hcount.symm).symm
  | cons a as ih =>
      cases bs with
      | nil => exact absurd hcount (by simp)
      | cons b bs =>
          rw [List.flatMap_cons, List.flatMap_cons] at h
          obtain ⟨hab, hrest⟩ := List.append_inj h ((hlen a).trans (hlen b).symm)
          rw [hf hab, ih (by simpa using hcount) hrest]

theorem checksum_concat (l : List UInt8) (b : UInt8) :
    checksum (l ++ [b]) = checksum l ^^^ b := by
  simp [checksum]

theorem checksum_append (l m : List UInt8) : checksum (l ++ m) = checksum l ^^^ checksum m := by
  induction m using List.reverseRecOn with
  | nil =>
      rw [List.append_nil]
      exact UInt8.xor_zero.symm
  | append_singleton m b ih =>
      rw [← List.append_assoc, checksum_concat, checksum_concat, ih, UInt8.xor_assoc]

/-- The checksum notices one changed byte. -/
theorem checksum_set_ne {l : List UInt8} {i : Nat} {b : UInt8} (hi : i < l.length)
    (hb : l[i] ≠ b) : checksum (l.set i b) ≠ checksum l := by
  have hone (c : UInt8) : checksum [c] = c := by
    rw [← List.nil_append [c], checksum_concat]
    exact UInt8.zero_xor
  have hset (c : UInt8) : checksum (l.set i c) =
      checksum (l.take i) ^^^ (c ^^^ checksum (l.drop (i + 1))) := by
    rw [List.set_eq_take_append_cons_drop, if_pos hi, checksum_append, ← List.singleton_append,
      checksum_append, hone]
  have hl : checksum l = checksum (l.take i) ^^^ (l[i] ^^^ checksum (l.drop (i + 1))) := by
    rw [← hset, List.set_getElem_self]
  intro h
  rw [hset, hl, UInt8.xor_right_inj, UInt8.xor_left_inj] at h
  exact hb h.symm

end Bytes
