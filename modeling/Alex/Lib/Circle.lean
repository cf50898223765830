/-
# `Alex.Lib.Circle` — equal steps around a circle

On a circle of circumference `T` the integers `a` and `a + T` are the same place, and
`a / T` is the number of turns.  A step of `d < T` from `a` passes zero exactly if the
place where it ends is nearer to zero than the step is long:

    a ────────── T ──▶ a + d        (a + d) % T < d

So among steps of the same length, one after another, as many pass zero as turns have been
made (`countP_passes`).
-/
import Mathlib.Data.List.Basic

namespace Circle

/-- The step from `a` to `a + d` passes zero. -/
def passes (T d a : Int) : Bool := (a + d) % T < d

variable {T d : Int}

theorem div_add (hd : 0 ≤ d) (hdT : d < T) (a : Int) :
    (a + d) / T = a / T + if passes T d a then 1 else 0 := by
  have hT : T ≠ 0 := by omega
  have hnonneg := Int.emod_nonneg a hT
  have hlt := Int.emod_lt_of_pos a (show 0 < T by omega)
  have hsplit : a + d = a % T + d + T * (a / T) := by
    have h := Int.emod_add_mul_ediv a T
    omega
  have hdiv : (a + d) / T = (a % T + d) / T + a / T := by
    rw [hsplit, Int.add_mul_ediv_left _ _ hT]
  have hmod : (a + d) % T = (a % T + d) % T := by
    rw [hsplit, Int.add_mul_emod_self_left]
  rw [passes, hdiv, hmod]
  generalize a % T = r at hnonneg hlt
  rcases Int.lt_or_le (r + d) T with hshort | hlong
  · have hnot : ¬ r + d < d := by omega
    rw [Int.emod_eq_of_lt (by omega) hshort, Int.ediv_eq_zero_of_lt (by omega) hshort]
    simp [hnot]
  · have hback : r + d = r + d - T + T * 1 := by omega
    have hlow : 0 ≤ r + d - T := by omega
    have hhigh : r + d - T < T := by omega
    have hpass : r + d - T < d := by omega
    rw [hback, Int.add_mul_emod_self_left, Int.add_mul_ediv_left _ _ hT,
      Int.emod_eq_of_lt hlow hhigh, Int.ediv_eq_zero_of_lt hlow hhigh]
    simp only [hpass, decide_true, if_true]
    omega

theorem passes_iff (hd : 0 ≤ d) {a : Int} (ha : 0 ≤ a) (had : a + d < 2 * T) :
    passes T d a = true ↔ a < T ∧ T ≤ a + d := by
  rw [passes, decide_eq_true_eq]
  rcases Int.lt_or_le (a + d) T with hshort | hlong
  · rw [Int.emod_eq_of_lt (by omega) hshort]
    omega
  · have hback : a + d = a + d - T + T * 1 := by omega
    have hlow : 0 ≤ a + d - T := by omega
    have hhigh : a + d - T < T := by omega
    have hmod : (a + d) % T = a + d - T := by
      rw [hback, Int.add_mul_emod_self_left, Int.emod_eq_of_lt hlow hhigh]
      omega
    rw [hmod]
    omega

/-- **Turns.**  Among `n` steps, as many pass zero as turns have been made. -/
theorem countP_passes (hd : 0 ≤ d) (hdT : d < T) (a : Int) (n : Nat) :
    ((List.range n).countP fun k : Nat => passes T d (a + k * d) : Int) =
      (a + n * d) / T - a / T := by
  induction n with
  | zero => simp
  | succ n ih =>
      have hnext : a + (n + 1 : Nat) * d = a + n * d + d := by
        rw [Int.natCast_succ, Int.add_mul, Int.one_mul, Int.add_assoc]
      rw [List.range_succ, List.countP_append, Int.natCast_add, ih, hnext, div_add hd hdT,
        List.countP_singleton]
      split
      · simp only [Int.natCast_one]
        omega
      · simp only [Int.natCast_zero]
        omega

end Circle
