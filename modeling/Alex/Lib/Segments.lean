/-
# `Alex.Lib.Segments` — a list cut where marked elements begin

    . . | x . . | x . | x . . . | x .
    ───   ─────   ───   ───────   ───
    before      pieces            last

Every piece begins with a marked element and has no other.  What comes before the first
mark is no piece, and the piece at the end may not be complete.  `append_marked` and
`append_unmarked` are how the cut grows with the list.
-/
import Mathlib.Data.List.Basic

universe u

namespace Segments

variable {α : Type u} (marked : α → Bool)

/-- A marked element and those up to the next. -/
def Piece (xs : List α) : Prop :=
  ∃ first later, xs = first :: later ∧ marked first = true ∧ ∀ x ∈ later, marked x = false

/-- A list cut into pieces. -/
structure Cut (xs before : List α) (pieces : List (List α)) (last : List α) : Prop where
  whole : xs = before ++ pieces.flatten ++ last
  before_unmarked : ∀ x ∈ before, marked x = false
  pieces_piece : ∀ p ∈ pieces, Piece marked p
  last_piece : last = [] ∧ pieces = [] ∨ Piece marked last

/-- Where the next element goes. -/
def current (before last : List α) : List α := if last = [] then before else last

section
variable {marked} {xs before last : List α} {pieces : List (List α)} {a : α}

theorem Piece.ne_nil (h : Piece marked xs) : xs ≠ [] := by
  obtain ⟨first, later, rfl, -⟩ := h
  exact List.cons_ne_nil first later

theorem piece_singleton (ha : marked a = true) : Piece marked [a] :=
  ⟨a, [], rfl, ha, by simp⟩

theorem Piece.append_unmarked (h : Piece marked xs) (ha : marked a = false) :
    Piece marked (xs ++ [a]) := by
  obtain ⟨first, later, rfl, hfirst, hlater⟩ := h
  refine ⟨first, later ++ [a], rfl, hfirst, fun x hx => ?_⟩
  rcases List.mem_append.mp hx with hx | hx
  · exact hlater x hx
  · obtain rfl := List.mem_singleton.mp hx
    exact ha

theorem cut_nil : Cut marked [] [] [] [] :=
  ⟨rfl, by simp, by simp, .inl ⟨rfl, rfl⟩⟩

theorem Cut.append_marked (h : Cut marked xs before pieces last) (ha : marked a = true) :
    Cut marked (xs ++ [a]) before (if last = [] then pieces else pieces ++ [last]) [a] := by
  refine ⟨?_, h.before_unmarked, fun p hp => ?_, .inr (piece_singleton ha)⟩
  · rw [h.whole]
    split
    · rename_i hlast
      simp [hlast]
    · simp
  · split at hp
    · exact h.pieces_piece p hp
    · rename_i hlast
      rcases List.mem_append.mp hp with hp | hp
      · exact h.pieces_piece p hp
      · obtain rfl := List.mem_singleton.mp hp
        exact h.last_piece.resolve_left fun hnone => hlast hnone.1

theorem Cut.append_unmarked (h : Cut marked xs before pieces last) (ha : marked a = false) :
    Cut marked (xs ++ [a]) (if last = [] then before ++ [a] else before) pieces
      (if last = [] then [] else last ++ [a]) := by
  rcases h.last_piece with ⟨rfl, rfl⟩ | hpiece
  · refine ⟨?_, fun x hx => ?_, by simp, .inl ⟨rfl, rfl⟩⟩
    · rw [h.whole]
      simp
    · rcases List.mem_append.mp hx with hx | hx
      · exact h.before_unmarked x hx
      · obtain rfl := List.mem_singleton.mp hx
        exact ha
  · simp only [hpiece.ne_nil, if_false]
    refine ⟨?_, h.before_unmarked, h.pieces_piece, .inr (hpiece.append_unmarked ha)⟩
    rw [h.whole, List.append_assoc]

theorem Piece.countP (h : Piece marked xs) : xs.countP marked = 1 := by
  obtain ⟨first, later, rfl, hfirst, hlater⟩ := h
  rw [List.countP_cons, List.countP_eq_zero.mpr (by simpa using hlater)]
  simp [hfirst]

/-- There are as many marked elements as pieces, the last included. -/
theorem Cut.countP (h : Cut marked xs before pieces last) :
    xs.countP marked = pieces.length + if last = [] then 0 else 1 := by
  have hpieces : ∀ ps : List (List α), (∀ p ∈ ps, Piece marked p) →
      ps.flatten.countP marked = ps.length := by
    intro ps hps
    induction ps with
    | nil => rfl
    | cons p ps ih =>
        obtain ⟨hp, hmore⟩ := List.forall_mem_cons.mp hps
        rw [List.flatten_cons, List.countP_append, hp.countP, ih hmore, List.length_cons,
          Nat.add_comm]
  rw [h.whole, List.countP_append, List.countP_append, hpieces pieces h.pieces_piece,
    List.countP_eq_zero.mpr (by simpa using h.before_unmarked), Nat.zero_add]
  rcases h.last_piece with ⟨rfl, -⟩ | hlast
  · rfl
  · rw [hlast.countP, if_neg hlast.ne_nil]

end

end Segments
