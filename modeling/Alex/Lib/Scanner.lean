/-
# `Alex.Lib.Scanner` — records found in a stream by what may stand where

A scanner collects the elements of a record one after another.  An element that may not
stand where it would come throws away what has been collected, itself included, and the
search goes on behind it:

    accepts 0   x .              accepts 1   y
    stream      a x b x y r s t x …
    held        . x . x xy xyr …

`scan` goes through a list, `read` through a stream that comes in pieces: each wait says
how many elements are there, and no more are taken than the record still lacks.  So a
record that is complete is never followed by something taken and lost (`scan_short`),
and how the stream is cut does not matter:

    read_record     what `read` finds is what `scan` finds
    read_of_scan    and it finds it, if the waits do not end before the stream

A caller that wants to know whether the record follows at once upon what it had before
asks `rejects`.
-/
import Mathlib.Data.List.Basic

universe u v

/-- Records of `size` elements; `accepts i a` if `a` may stand at place `i`. -/
structure Scanner (α : Type u) where
  size : Nat
  accepts : Nat → α → Bool

namespace Scanner

variable {α : Type u} (S : Scanner α)

def push (held : List α) (a : α) : List α := if S.accepts held.length a then held ++ [a] else []

/-- All elements stand where they may. -/
def Fits (r : List α) : Prop := ∀ i, (h : i < r.length) → S.accepts i (r[i]) = true

structure IsRecord (r : List α) : Prop where
  length_eq : r.length = S.size
  fits : S.Fits r

/-- The first record in a list and the rest, or what is held at its end. -/
def scan (held : List α) : List α → List α ⊕ List α × List α
  | [] => .inl held
  | a :: as =>
      let held := S.push held a
      if held.length = S.size then .inr (held, as) else scan held as

section
variable {S} {held r xs ys rest : List α}

theorem fits_nil : S.Fits [] := fun _ h => absurd h (Nat.not_lt_zero _)

theorem fits_concat {a : α} : S.Fits (held ++ [a]) ↔ S.Fits held ∧ S.accepts held.length a := by
  constructor
  · intro h
    refine ⟨fun i hi => ?_, ?_⟩
    · have hfits := h i (by simp; omega)
      rwa [List.getElem_append_left hi] at hfits
    · have hfits := h held.length (by simp)
      simpa using hfits
  · rintro ⟨hheld, ha⟩ i hi
    by_cases hlt : i < held.length
    · rw [List.getElem_append_left hlt]
      exact hheld i hlt
    · obtain rfl : i = held.length := by
        simp at hi
        omega
      simpa using ha

theorem Fits.push (h : S.Fits held) (a : α) : S.Fits (S.push held a) := by
  rw [Scanner.push]
  split
  · rename_i ha
    exact fits_concat.mpr ⟨h, ha⟩
  · exact fits_nil

theorem exists_push (S : Scanner α) (held : List α) (a : α) :
    ∃ skipped, held ++ [a] = skipped ++ S.push held a := by
  rw [push]
  split
  · exact ⟨[], rfl⟩
  · exact ⟨held ++ [a], (List.append_nil _).symm⟩

theorem length_push_le (S : Scanner α) (held : List α) (a : α) :
    (S.push held a).length ≤ held.length + 1 := by
  rw [push]
  split <;> simp

/-! ## Scanning a list -/

theorem scan_append_of_inl {held' : List α} (h : S.scan held xs = .inl held') (ys : List α) :
    S.scan held (xs ++ ys) = S.scan held' ys := by
  induction xs generalizing held with
  | nil =>
      obtain rfl : held = held' := Sum.inl.inj h
      rfl
  | cons a as ih =>
      rw [scan] at h
      rw [List.cons_append, scan]
      split at h
      · exact absurd h (by simp)
      · rename_i hsize
        rw [if_neg hsize]
        exact ih h

theorem scan_append_of_inr (h : S.scan held xs = .inr (r, rest)) (ys : List α) :
    S.scan held (xs ++ ys) = .inr (r, rest ++ ys) := by
  induction xs generalizing held with
  | nil => exact absurd h (by simp [scan])
  | cons a as ih =>
      rw [scan] at h
      rw [List.cons_append, scan]
      split at h
      · rename_i hsize
        rw [if_pos hsize]
        obtain ⟨rfl, rfl⟩ := Prod.mk.inj (Sum.inr.inj h)
        rfl
      · rename_i hsize
        rw [if_neg hsize]
        exact ih h

/-- What is found is a record, and what follows it has not been touched. -/
theorem scan_sound (hfits : S.Fits held) (h : S.scan held xs = .inr (r, rest)) :
    S.IsRecord r ∧ ∃ skipped, held ++ xs = skipped ++ r ++ rest := by
  induction xs generalizing held with
  | nil => exact absurd h (by simp [scan])
  | cons a as ih =>
      obtain ⟨skipped, hskipped⟩ := S.exists_push held a
      have heq (tail : List α) : held ++ a :: tail = skipped ++ (S.push held a ++ tail) := by
        rw [← List.append_assoc, ← hskipped, List.append_assoc]
        rfl
      rw [scan] at h
      split at h
      · rename_i hsize
        obtain ⟨rfl, rfl⟩ := Prod.mk.inj (Sum.inr.inj h)
        refine ⟨⟨hsize, hfits.push a⟩, skipped, ?_⟩
        rw [heq, List.append_assoc]
      · obtain ⟨hrecord, more, hmore⟩ := ih (hfits.push a) h
        refine ⟨hrecord, skipped ++ more, ?_⟩
        rw [heq, hmore]
        simp only [List.append_assoc]

theorem scan_sound_inl {held' : List α} (hfits : S.Fits held) (hlt : held.length < S.size)
    (h : S.scan held xs = .inl held') :
    S.Fits held' ∧ held'.length < S.size ∧ ∃ skipped, held ++ xs = skipped ++ held' := by
  induction xs generalizing held with
  | nil =>
      obtain rfl : held = held' := Sum.inl.inj h
      exact ⟨hfits, hlt, [], List.append_nil _⟩
  | cons a as ih =>
      obtain ⟨skipped, hskipped⟩ := S.exists_push held a
      have hle := S.length_push_le held a
      rw [scan] at h
      split at h
      · exact absurd h (by simp)
      · rename_i hsize
        obtain ⟨hfits', hlt', more, hmore⟩ := ih (hfits.push a) (by omega) h
        refine ⟨hfits', hlt', skipped ++ more, ?_⟩
        rw [List.append_assoc, ← hmore, ← List.append_assoc, ← hskipped, List.append_assoc]
        rfl

/-- A record whose beginning is held is found. -/
theorem scan_record (h : S.IsRecord (held ++ xs)) (hxs : xs ≠ []) (ys : List α) :
    S.scan held (xs ++ ys) = .inr (held ++ xs, ys) := by
  induction xs generalizing held with
  | nil => exact absurd rfl hxs
  | cons a as ih =>
      have hassoc : held ++ a :: as = held ++ [a] ++ as := by simp
      have ha : S.accepts held.length a = true := by
        have hfits := h.fits held.length (by simp)
        simpa using hfits
      rw [List.cons_append, scan, push, if_pos ha]
      by_cases has : as = []
      · subst has
        have hsize : (held ++ [a]).length = S.size := h.length_eq
        simp only [hsize, if_true]
        rfl
      · rw [hassoc] at h ⊢
        have hsize : (held ++ [a]).length ≠ S.size := by
          have hlen := h.length_eq
          have hpos := List.length_pos_iff.mpr has
          rw [List.length_append] at hlen
          omega
        simp only [hsize, if_false]
        exact ih h has

/-- What cannot begin a record is skipped. -/
theorem scan_junk {junk : List α} (hsize : S.size ≠ 0) (h : ∀ a ∈ junk, S.accepts 0 a = false)
    (xs : List α) : S.scan [] (junk ++ xs) = S.scan [] xs := by
  induction junk with
  | nil => rfl
  | cons a junk ih =>
      rw [List.forall_mem_cons] at h
      have hpush : S.push [] a = [] := by
        rw [push, if_neg]
        simpa using h.1
      have hne : ¬ ([] : List α).length = S.size := fun heq => hsize heq.symm
      rw [List.cons_append, scan, hpush]
      simp only [hne, if_false]
      exact ih h.2

theorem scan_short (hlen : xs.length ≤ S.size - held.length)
    (h : S.scan held xs = .inr (r, rest)) : rest = [] := by
  induction xs generalizing held with
  | nil => exact absurd h (by simp [scan])
  | cons a as ih =>
      have hle := S.length_push_le held a
      rw [List.length_cons] at hlen
      rw [scan] at h
      split at h
      · rename_i hsize
        obtain ⟨rfl, rfl⟩ := Prod.mk.inj (Sum.inr.inj h)
        exact List.eq_nil_of_length_eq_zero (by omega)
      · exact ih (by omega) h

theorem exists_taken (h : S.scan held xs = .inr (r, rest)) :
    ∃ taken, xs = taken ++ rest ∧ S.scan held taken = .inr (r, []) := by
  induction xs generalizing held with
  | nil => exact absurd h (by simp [scan])
  | cons a as ih =>
      rw [scan] at h
      split at h
      · rename_i hsize
        obtain ⟨rfl, rfl⟩ := Prod.mk.inj (Sum.inr.inj h)
        refine ⟨[a], rfl, ?_⟩
        rw [scan, if_pos hsize]
      · rename_i hsize
        obtain ⟨taken, rfl, htaken⟩ := ih h
        refine ⟨a :: taken, rfl, ?_⟩
        rw [scan, if_neg hsize]
        exact htaken

end

/-! ## Elements thrown away -/

/-- An element comes that may not stand where it would. -/
def rejects (held : List α) : List α → Bool
  | [] => false
  | a :: as => !S.accepts held.length a || rejects (S.push held a) as

section
variable {S} {held r xs rest : List α}

theorem rejects_eq_false_iff (hfits : S.Fits held) :
    S.rejects held xs = false ↔ S.Fits (held ++ xs) := by
  induction xs generalizing held with
  | nil => simpa [rejects] using hfits
  | cons a as ih =>
      rw [rejects, List.append_cons]
      by_cases ha : S.accepts held.length a
      · have hpush : S.push held a = held ++ [a] := if_pos ha
        rw [hpush, ha]
        exact ih (fits_concat.mpr ⟨hfits, ha⟩)
      · refine iff_of_false (by simp [ha]) fun hall => ?_
        have hfits' := hall held.length (by simp)
        simp at hfits'
        exact ha hfits'

theorem eq_append_of_inl {held' : List α} (hrejects : S.rejects held xs = false)
    (h : S.scan held xs = .inl held') : held' = held ++ xs := by
  induction xs generalizing held with
  | nil =>
      obtain rfl : held = held' := Sum.inl.inj h
      exact (List.append_nil held).symm
  | cons a as ih =>
      rw [rejects, Bool.or_eq_false_iff] at hrejects
      have hpush : S.push held a = held ++ [a] := if_pos (by simpa using hrejects.1)
      rw [scan] at h
      rw [List.append_cons, ← hpush]
      split at h
      · exact absurd h (by simp)
      · exact ih hrejects.2 h

theorem append_eq_of_inr (hrejects : S.rejects held xs = false)
    (h : S.scan held xs = .inr (r, rest)) : held ++ xs = r ++ rest := by
  induction xs generalizing held with
  | nil => exact absurd h (by simp [scan])
  | cons a as ih =>
      rw [rejects, Bool.or_eq_false_iff] at hrejects
      have hpush : S.push held a = held ++ [a] := if_pos (by simpa using hrejects.1)
      rw [scan] at h
      rw [List.append_cons, ← hpush]
      split at h
      · obtain ⟨rfl, rfl⟩ := Prod.mk.inj (Sum.inr.inj h)
        rfl
      · exact ih hrejects.2 h

end

/-! ## Reading a stream in pieces -/

/-- What a reading comes to: a record, or an error, `none` if the waits have ended, with
what is held and what is left of the stream. -/
inductive Reading (α : Type u) (ε : Type v) where
  | record (r rest : List α)
  | stopped (error : Option ε) (held rest : List α)
  deriving Repr

/-- Each wait says how many elements are there, or fails. -/
def read {ε : Type v} (held stream : List α) : List (Except ε Nat) → Reading α ε
  | [] => .stopped none held stream
  | .error e :: _ => .stopped (some e) held stream
  | .ok n :: waits =>
      let n := min n (S.size - held.length)
      match S.scan held (stream.take n) with
      | .inl held => read held (stream.drop n) waits
      | .inr (r, _) => .record r (stream.drop n)

section
variable {S} {ε : Type v} {held stream r rest : List α} {waits : List (Except ε Nat)}

/-- What is found in pieces is what would be found at once. -/
theorem read_record (h : S.read held stream waits = .record r rest) :
    S.scan held stream = .inr (r, rest) := by
  induction waits generalizing held stream with
  | nil => exact absurd h (by simp [read])
  | cons w waits ih =>
      cases w with
      | error e => exact absurd h (by simp [read])
      | ok n =>
          rw [read] at h
          generalize hn : min n (S.size - held.length) = m at h
          cases hscan : S.scan held (stream.take m) with
          | inl held' =>
              rw [hscan] at h
              rw [← List.take_append_drop m stream, scan_append_of_inl hscan]
              exact ih h
          | inr pair =>
              obtain ⟨r', rest'⟩ := pair
              rw [hscan] at h
              obtain ⟨rfl, rfl⟩ := Reading.record.inj h
              have hshort : rest' = [] := by
                refine scan_short ?_ hscan
                have hle := List.length_take_le m stream
                omega
              rw [← List.take_append_drop m stream, scan_append_of_inr hscan, hshort]
              simp

theorem read_stopped {e : Option ε} {held' : List α}
    (h : S.read held stream waits = .stopped e held' rest) :
    ∃ taken, stream = taken ++ rest ∧ S.scan held taken = .inl held' := by
  induction waits generalizing held stream with
  | nil =>
      obtain ⟨-, rfl, rfl⟩ := Reading.stopped.inj h
      exact ⟨[], rfl, rfl⟩
  | cons w waits ih =>
      cases w with
      | error e =>
          obtain ⟨-, rfl, rfl⟩ := Reading.stopped.inj h
          exact ⟨[], rfl, rfl⟩
      | ok n =>
          rw [read] at h
          generalize min n (S.size - held.length) = m at h
          cases hscan : S.scan held (stream.take m) with
          | inl held'' =>
              rw [hscan] at h
              obtain ⟨taken, htaken, hinl⟩ := ih h
              refine ⟨stream.take m ++ taken, ?_, ?_⟩
              · rw [List.append_assoc, ← htaken, List.take_append_drop]
              · rw [scan_append_of_inl hscan, hinl]
          | inr pair =>
              rw [hscan] at h
              exact absurd h (by simp)

/-- As long as something comes at every wait, what there is to be found is found. -/
theorem read_of_scan (hlt : held.length < S.size) (hfits : S.Fits held)
    (hwaits : ∀ w ∈ waits, ∃ n, w = .ok n ∧ 0 < n) (hlen : stream.length ≤ waits.length)
    (h : S.scan held stream = .inr (r, rest)) : S.read held stream waits = .record r rest := by
  induction waits generalizing held stream with
  | nil =>
      obtain rfl : stream = [] := List.eq_nil_of_length_eq_zero (by simpa using hlen)
      exact absurd h (by simp [scan])
  | cons w waits ih =>
      obtain ⟨⟨n, rfl, hn⟩, hmore⟩ := List.forall_mem_cons.mp hwaits
      rw [read]
      generalize hm : min n (S.size - held.length) = m
      have hpos : 0 < m := by omega
      rw [← List.take_append_drop m stream] at h
      cases hscan : S.scan held (stream.take m) with
      | inl held' =>
          rw [scan_append_of_inl hscan] at h
          obtain ⟨hfits', hlt', -⟩ := scan_sound_inl hfits hlt hscan
          refine ih hlt' hfits' hmore ?_ h
          rw [List.length_drop]
          rw [List.length_cons] at hlen
          omega
      | inr pair =>
          obtain ⟨r', rest'⟩ := pair
          rw [scan_append_of_inr hscan] at h
          obtain ⟨rfl, rfl⟩ := Prod.mk.inj (Sum.inr.inj h)
          have hshort : rest' = [] := by
            refine scan_short ?_ hscan
            have hle := List.length_take_le m stream
            omega
          rw [hshort]
          rfl

end

end Scanner
