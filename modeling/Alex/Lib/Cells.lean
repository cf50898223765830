/-
# `Alex.Lib.Cells` — arrays of a language without bounds checks

An array is seen from its base address: it has a cell at *every* offset, so a
store past its declared length is an ordinary store, as it is in C, and it is
the log `stored` that tells whether it happened.  The two loops through which
such programs fill arrays, `dst[off+i] = src[i]` and its run over a list, are
`Cells.copy` and `Cells.write`; the lemmas say what is read back and which
offsets the log gained.

    (c.write off l) at offset j     l[j - off]  for  off ≤ j < off + |l|,  c[j]  elsewhere
    (c.write off l).stored          the offsets of c.stored and  off, …, off + |l| - 1
    c.copy off f n                  c.write off (slice f 0 n)

`slice f off n` is the list of the `n` cells from offset `off` on.
-/
import Mathlib.Data.List.Basic
import Mathlib.Logic.Function.Basic

universe u

/-- An array seen from its base address: the cell at every offset, and the
offsets stored to so far, latest first. -/
structure Cells (α : Type u) where
  get : Nat → α
  stored : List Nat

namespace Cells

variable {α : Type u}

/-- `c[i] = a`. -/
def store (c : Cells α) (i : Nat) (a : α) : Cells α where
  get := Function.update c.get i a
  stored := i :: c.stored

/-- `for(i=0; i<n; i++) dst[off+i] = src[i];` -/
def copy (dst : Cells α) (off : Nat) (src : Nat → α) : Nat → Cells α
  | 0 => dst
  | n + 1 => (copy dst off src n).store (off + n) (src n)

/-- The elements of a list stored one after another from an offset on. -/
def write (c : Cells α) (off : Nat) : List α → Cells α
  | [] => c
  | a :: l => (c.store off a).write (off + 1) l

/-- The `n` cells from offset `off` on. -/
def slice (f : Nat → α) (off n : Nat) : List α := (List.range' off n).map f

/-! ## Slices -/

@[simp] theorem length_slice (f : Nat → α) (off n : Nat) : (slice f off n).length = n := by
  simp [slice]

@[simp] theorem slice_zero (f : Nat → α) (off : Nat) : slice f off 0 = [] := rfl

theorem slice_succ (f : Nat → α) (off n : Nat) :
    slice f off (n + 1) = f off :: slice f (off + 1) n := rfl

theorem slice_add (f : Nat → α) (off m n : Nat) :
    slice f off (m + n) = slice f off m ++ slice f (off + m) n := by
  simp only [slice, ← List.map_append]
  congr 1
  simp

@[simp] theorem getElem_slice (f : Nat → α) (off n i : Nat) (h : i < (slice f off n).length) :
    (slice f off n)[i] = f (off + i) := by
  simp [slice]

theorem slice_congr {f g : Nat → α} {off n : Nat}
    (h : ∀ j, off ≤ j → j < off + n → f j = g j) : slice f off n = slice g off n := by
  apply List.ext_getElem
  · simp
  · intro i h₁ h₂
    rw [length_slice] at h₁
    simpa using h (off + i) (by omega) (by omega)

theorem slice_eq_slice_iff {f g : Nat → α} {off off' n : Nat} :
    slice f off n = slice g off' n ↔ ∀ i, i < n → f (off + i) = g (off' + i) := by
  constructor
  · intro h i hi
    have hi' : (slice f off n)[i]? = (slice g off' n)[i]? := by rw [h]
    simpa [List.getElem?_eq_getElem, hi] using hi'
  · intro h
    apply List.ext_getElem
    · simp
    · intro i h₁ h₂
      rw [length_slice] at h₁
      simpa using h i h₁

theorem slice_zero_eq_iff {f g : Nat → α} {n : Nat} :
    slice f 0 n = slice g 0 n ↔ ∀ i, i < n → f i = g i := by
  simp only [slice_eq_slice_iff, Nat.zero_add]

theorem slice_eq_iff {f : Nat → α} {off : Nat} {l : List α} :
    slice f off l.length = l ↔ ∀ i (h : i < l.length), f (off + i) = l[i] := by
  constructor
  · intro h i hi
    have hg := getElem_slice f off l.length i (by simpa using hi)
    rw [← hg]
    congr 1
  · intro h
    apply List.ext_getElem
    · simp
    · intro i h₁ h₂
      simpa using h i h₂

theorem slice_shift (f : Nat → α) (off k n : Nat) :
    slice (fun i => f (k + i)) off n = slice f (k + off) n := by
  apply List.ext_getElem
  · simp
  · intro i h₁ h₂
    simp [Nat.add_assoc]

/-! ## Stores -/

@[simp] theorem get_store (c : Cells α) (i j : Nat) (a : α) :
    (c.store i a).get j = if j = i then a else c.get j := by
  simp [store, Function.update_apply]

@[simp] theorem stored_store (c : Cells α) (i : Nat) (a : α) :
    (c.store i a).stored = i :: c.stored := rfl

@[simp] theorem write_nil (c : Cells α) (off : Nat) : c.write off [] = c := rfl

theorem write_append (c : Cells α) (off : Nat) (l m : List α) :
    c.write off (l ++ m) = (c.write off l).write (off + l.length) m := by
  induction l generalizing c off with
  | nil => rfl
  | cons a l ih =>
      simp only [List.cons_append, write, ih, List.length_cons]
      congr 1
      omega

/-- What a written array holds: the list where it was written, the old cell elsewhere. -/
theorem get_write (c : Cells α) (off : Nat) (l : List α) (j : Nat) :
    (c.write off l).get j =
      if h : off ≤ j ∧ j < off + l.length then l[j - off] else c.get j := by
  induction l generalizing c off with
  | nil =>
      have h : ¬ (off ≤ j ∧ j < off + ([] : List α).length) := by simp
      rw [dif_neg h, write_nil]
  | cons a l ih =>
      rw [write, ih]
      by_cases h : off + 1 ≤ j ∧ j < off + 1 + l.length
      · have h' : off ≤ j ∧ j < off + (a :: l).length := by simp; omega
        have hj : j - off = (j - (off + 1)) + 1 := by omega
        simp only [dif_pos h, dif_pos h', hj, List.getElem_cons_succ]
      · rw [dif_neg h, get_store]
        by_cases hj : j = off
        · subst hj
          simp
        · have h' : ¬ (off ≤ j ∧ j < off + (a :: l).length) := by simp at h ⊢; omega
          rw [dif_neg h', if_neg hj]

theorem get_write_of_lt {c : Cells α} {off : Nat} {l : List α} {j : Nat}
    (h : j < off ∨ off + l.length ≤ j) : (c.write off l).get j = c.get j := by
  rw [get_write, dif_neg (by omega)]

theorem mem_stored_write (c : Cells α) (off : Nat) (l : List α) (i : Nat) :
    i ∈ (c.write off l).stored ↔ i ∈ c.stored ∨ (off ≤ i ∧ i < off + l.length) := by
  induction l generalizing c off with
  | nil =>
      show i ∈ c.stored ↔ i ∈ c.stored ∨ (off ≤ i ∧ i < off)
      exact ⟨.inl, fun h => h.resolve_right (by omega)⟩
  | cons a l ih =>
      rw [write, ih, stored_store, List.mem_cons, List.length_cons]
      constructor
      · rintro ((rfl | h) | h)
        · exact .inr (by omega)
        · exact .inl h
        · exact .inr (by omega)
      · rintro (h | h)
        · exact .inl (.inr h)
        · by_cases hi : i = off
          · exact .inl (.inl hi)
          · exact .inr (by omega)

theorem slice_write (c : Cells α) (off : Nat) (l : List α) :
    slice (c.write off l).get off l.length = l := by
  rw [slice_eq_iff]
  intro i hi
  rw [get_write, dif_pos (by omega)]
  congr 1
  omega

theorem slice_write_disjoint {c : Cells α} {off : Nat} {l : List α} {k n : Nat}
    (h : k + n ≤ off ∨ off + l.length ≤ k) :
    slice (c.write off l).get k n = slice c.get k n :=
  slice_congr fun _ h₁ h₂ => get_write_of_lt (by omega)

theorem slice_write_extend (c : Cells α) (k : Nat) (l : List α) :
    slice (c.write k l).get 0 (k + l.length) = slice c.get 0 k ++ l := by
  rw [slice_add, Nat.zero_add, slice_write, slice_write_disjoint (.inl (by omega))]

theorem copy_eq_write (dst : Cells α) (off : Nat) (src : Nat → α) (n : Nat) :
    dst.copy off src n = dst.write off (slice src 0 n) := by
  induction n with
  | zero => rfl
  | succ n ih =>
      rw [copy, ih, slice_add, write_append, length_slice, Nat.zero_add]
      rfl

theorem slice_copy (dst : Cells α) (off : Nat) (src : Nat → α) (n : Nat) :
    slice (dst.copy off src n).get off n = slice src 0 n := by
  have h := slice_write dst off (slice src 0 n)
  rw [length_slice] at h
  rw [copy_eq_write]
  exact h

theorem slice_copy_extend (dst : Cells α) (k : Nat) (src : Nat → α) (n : Nat) :
    slice (dst.copy k src n).get 0 (k + n) = slice dst.get 0 k ++ slice src 0 n := by
  have h := slice_write_extend dst k (slice src 0 n)
  rw [length_slice] at h
  rw [copy_eq_write]
  exact h

theorem take_slice (f : Nat → α) {off m n : Nat} (h : m ≤ n) :
    (slice f off n).take m = slice f off m := by
  obtain ⟨k, rfl⟩ := Nat.exists_eq_add_of_le h
  rw [slice_add, List.take_left' (length_slice ..)]

theorem drop_slice (f : Nat → α) {off m n : Nat} (h : m ≤ n) :
    (slice f off n).drop m = slice f (off + m) (n - m) := by
  obtain ⟨k, rfl⟩ := Nat.exists_eq_add_of_le h
  rw [slice_add, List.drop_left' (length_slice ..), Nat.add_sub_cancel_left]

end Cells
