/-
# `Alex.Lib.Exchange` — sorting by exchange

    for i < n - 1
      for j from i + 1 to n - 1
        if key (a j) < key (a i), exchange a i and a j

After the inner loop the least of what is left is at `i` (`pass_least`), and all that has
happened is that cells from `i` to `n - 1` have changed places (`Moved`).  So in the end the
cells are those there were, in order (`sort_sorted`).
-/
import Mathlib.Logic.Equiv.Basic
import Mathlib.Order.Lattice

universe u v

namespace Exchange

variable {α : Type u} {β : Type v} [LinearOrder β] (key : α → β)

def compare (i : Nat) (a : Nat → α) (j : Nat) : Nat → α :=
  if key (a j) < key (a i) then Function.update (Function.update a i (a j)) j (a i) else a

def pass (n : Nat) (a : Nat → α) (i : Nat) : Nat → α :=
  (List.range' (i + 1) (n - (i + 1))).foldl (compare key i) a

def sort (n : Nat) (a : Nat → α) : Nat → α := (List.range (n - 1)).foldl (pass key n) a

/-! ## Cells that change places -/

/-- The cells of `b` from `lo` to `n - 1` are those of `a`, and the others are as they were. -/
def Moved (lo n : Nat) (a b : Nat → α) : Prop :=
  ∃ places : Equiv.Perm Nat, (∀ k, k < lo ∨ n ≤ k → places k = k) ∧ ∀ k, b k = a (places k)

section
variable {lo lo' n i j : Nat} {a b c : Nat → α}

theorem Moved.refl (lo n : Nat) (a : Nat → α) : Moved lo n a a :=
  ⟨Equiv.refl Nat, fun _ _ => rfl, fun _ => rfl⟩

theorem Moved.trans (h : Moved lo n a b) (h' : Moved lo n b c) : Moved lo n a c := by
  obtain ⟨places, hfixed, hb⟩ := h
  obtain ⟨places', hfixed', hc⟩ := h'
  refine ⟨places'.trans places, fun k hk => ?_, fun k => ?_⟩
  · rw [Equiv.trans_apply, hfixed' k hk, hfixed k hk]
  · rw [Equiv.trans_apply, hc, hb]

theorem Moved.mono (h : Moved lo n a b) (hle : lo' ≤ lo) : Moved lo' n a b := by
  obtain ⟨places, hfixed, hb⟩ := h
  exact ⟨places, fun k hk => hfixed k (by omega), hb⟩

theorem Moved.eq (h : Moved lo n a b) {k : Nat} (hk : k < lo ∨ n ≤ k) : b k = a k := by
  obtain ⟨places, hfixed, hb⟩ := h
  rw [hb, hfixed k hk]

theorem Moved.exists_place (h : Moved lo n a b) {k : Nat} (hlo : lo ≤ k) (hn : k < n) :
    ∃ k', lo ≤ k' ∧ k' < n ∧ b k = a k' := by
  obtain ⟨places, hfixed, hb⟩ := h
  refine ⟨places k, ?_⟩
  by_contra hout
  have hself : places (places k) = places k := hfixed _ (by
    by_contra hin
    exact hout ⟨by omega, by omega, hb k⟩)
  have hk := places.injective hself
  rw [hk] at hout
  exact hout ⟨hlo, hn, by rw [hb, hk]⟩

theorem moved_compare (hij : i < j) (hj : j < n) (a : Nat → α) :
    Moved i n a (compare key i a j) := by
  rw [compare]
  split
  · refine ⟨Equiv.swap i j, fun k hk => Equiv.swap_apply_of_ne_of_ne (by omega) (by omega),
      fun k => ?_⟩
    rcases eq_or_ne k j with rfl | hkj
    · rw [Function.update_self, Equiv.swap_apply_right]
    · rw [Function.update_of_ne hkj]
      rcases eq_or_ne k i with rfl | hki
      · rw [Function.update_self, Equiv.swap_apply_left]
      · rw [Function.update_of_ne hki, Equiv.swap_apply_of_ne_of_ne hki hkj]
  · exact .refl i n a

/-! ## The least of what is left -/

theorem compare_least (hij : i < j) (a : Nat → α) :
    key (compare key i a j i) ≤ key (a i) ∧
      key (compare key i a j i) ≤ key (compare key i a j j) ∧
      ∀ k, k ≠ i → k ≠ j → compare key i a j k = a k := by
  rw [compare]
  split
  · rename_i hlt
    have hi : Function.update (Function.update a i (a j)) j (a i) i = a j := by
      rw [Function.update_of_ne (by omega), Function.update_self]
    refine ⟨?_, ?_, fun k hki hkj => ?_⟩
    · rw [hi]
      exact hlt.le
    · rw [hi, Function.update_self]
      exact hlt.le
    · rw [Function.update_of_ne hkj, Function.update_of_ne hki]
  · rename_i hge
    exact ⟨le_rfl, not_lt.mp hge, fun _ _ _ => rfl⟩

/-- **Step.**  The inner loop, after `m` comparisons. -/
theorem foldl_compare (m : Nat) (hm : i + m < n) (a : Nat → α) :
    let b := (List.range' (i + 1) m).foldl (compare key i) a
    Moved i n a b ∧ ∀ k, i ≤ k → k ≤ i + m → key (b i) ≤ key (b k) := by
  induction m with
  | zero =>
      refine ⟨.refl i n a, fun k hlow hhigh => ?_⟩
      rw [show k = i by omega]
  | succ m ih =>
      obtain ⟨hmoved, hleast⟩ := ih (by omega)
      rw [List.range'_concat, List.foldl_append]
      generalize (List.range' (i + 1) m).foldl (compare key i) a = b at hmoved hleast
      have hj : i + 1 + 1 * m = i + m + 1 := by omega
      rw [hj]
      obtain ⟨hself, hother, hkeep⟩ := compare_least key (show i < i + m + 1 by omega) b
      refine ⟨hmoved.trans (moved_compare key (by omega) (by omega) b), fun k hlow hhigh => ?_⟩
      show key (compare key i b (i + m + 1) i) ≤ key (compare key i b (i + m + 1) k)
      rcases eq_or_ne k i with rfl | hki
      · exact le_rfl
      · rcases eq_or_ne k (i + m + 1) with rfl | hkj
        · exact hother
        · rw [hkeep k hki hkj]
          exact hself.trans (hleast k hlow (by omega))

theorem pass_least (hi : i < n) (a : Nat → α) :
    Moved i n a (pass key n a i) ∧
      ∀ k, i ≤ k → k < n → key (pass key n a i i) ≤ key (pass key n a i k) := by
  obtain ⟨hmoved, hleast⟩ := foldl_compare key (n - (i + 1)) (show i + (n - (i + 1)) < n by omega) a
  exact ⟨hmoved, fun k hlow hhigh => hleast k hlow (by omega)⟩

/-! ## In order -/

/-- **Step.**  The outer loop, after `m` passes. -/
theorem foldl_pass (m : Nat) (hm : m < n) (a : Nat → α) :
    let b := (List.range m).foldl (pass key n) a
    Moved 0 n a b ∧ ∀ k l, k < m → k ≤ l → l < n → key (b k) ≤ key (b l) := by
  induction m with
  | zero => exact ⟨.refl 0 n a, fun k l hk _ _ => absurd hk (Nat.not_lt_zero k)⟩
  | succ m ih =>
      obtain ⟨hmoved, hsorted⟩ := ih (by omega)
      rw [List.range_succ, List.foldl_append]
      generalize (List.range m).foldl (pass key n) a = b at hmoved hsorted
      obtain ⟨hpass, hleast⟩ := pass_least key (show m < n by omega) b
      refine ⟨hmoved.trans (hpass.mono (Nat.zero_le m)), fun k l hk hkl hl => ?_⟩
      show key (pass key n b m k) ≤ key (pass key n b m l)
      rcases Nat.lt_succ_iff_lt_or_eq.mp hk with hlt | rfl
      · rw [hpass.eq (.inl hlt)]
        rcases Nat.lt_or_ge l m with hlm | hml
        · rw [hpass.eq (.inl hlm)]
          exact hsorted k l hlt hkl hl
        · obtain ⟨l', hlow, hhigh, hl'⟩ := hpass.exists_place hml hl
          rw [hl']
          exact hsorted k l' hlt (by omega) hhigh
      · exact hleast l hkl hl

/-- **Sorted.**  The cells are those there were, in order. -/
theorem sort_sorted (n : Nat) (a : Nat → α) :
    Moved 0 n a (sort key n a) ∧
      ∀ k l, k ≤ l → l < n → key (sort key n a k) ≤ key (sort key n a l) := by
  rcases Nat.eq_zero_or_pos n with rfl | hpos
  · exact ⟨.refl 0 0 a, fun _ l _ hl => absurd hl (Nat.not_lt_zero l)⟩
  · obtain ⟨hmoved, hsorted⟩ := foldl_pass key (n - 1) (show n - 1 < n by omega) a
    refine ⟨hmoved, fun k l hkl hl => ?_⟩
    rcases eq_or_ne k l with rfl | hne
    · exact le_rfl
    · exact hsorted k l (by omega) hkl hl

end

end Exchange
