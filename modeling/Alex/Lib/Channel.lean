/-
# `Alex.Lib.Channel` — what is under way between two programs

A channel delivers what is put into it, in order.  It is kept as all that was ever sent
and the number of elements that have been taken out, so that sent, read and waiting
agree by construction:

    sent      a b c d e f g
    read      a b c
    waiting         d e f g

`Carries` is a channel of bytes that carries frames to a receiver which holds back what
does not fill one: some frames have arrived, the others are what is held back and what
is still waiting.
-/
import Mathlib.Data.List.Basic

universe u v

structure Channel (α : Type u) where
  sent : List α
  taken : Nat
  taken_le : taken ≤ sent.length

namespace Channel

variable {α : Type u}

def empty : Channel α := ⟨[], 0, Nat.le_refl 0⟩

/-- What has been taken out. -/
def read (c : Channel α) : List α := c.sent.take c.taken

/-- What has not. -/
def waiting (c : Channel α) : List α := c.sent.drop c.taken

/-- Some elements are sent. -/
def push (c : Channel α) (xs : List α) : Channel α where
  sent := c.sent ++ xs
  taken := c.taken
  taken_le := by
    rw [List.length_append]
    exact Nat.le_add_right_of_le c.taken_le

/-- Up to `n` elements are taken out. -/
def pop (c : Channel α) (n : Nat) : Channel α where
  sent := c.sent
  taken := min (c.taken + n) c.sent.length
  taken_le := Nat.min_le_right ..

theorem read_append_waiting (c : Channel α) : c.read ++ c.waiting = c.sent :=
  List.take_append_drop ..

@[simp] theorem sent_empty : (empty : Channel α).sent = [] := rfl

@[simp] theorem read_empty : (empty : Channel α).read = [] := rfl

@[simp] theorem waiting_empty : (empty : Channel α).waiting = [] := rfl

section
variable (c : Channel α) (xs : List α) (n : Nat)

@[simp] theorem sent_push : (c.push xs).sent = c.sent ++ xs := rfl

@[simp] theorem read_push : (c.push xs).read = c.read :=
  List.take_append_of_le_length c.taken_le

@[simp] theorem waiting_push : (c.push xs).waiting = c.waiting ++ xs :=
  List.drop_append_of_le_length c.taken_le

@[simp] theorem push_nil : c.push [] = c := by
  simp [push]

@[simp] theorem sent_pop : (c.pop n).sent = c.sent := rfl

@[simp] theorem waiting_pop : (c.pop n).waiting = c.waiting.drop n := by
  have hle := c.taken_le
  simp only [waiting, pop, List.drop_drop]
  rcases Nat.le_total (c.taken + n) c.sent.length with h | h
  · rw [Nat.min_eq_left h]
  · rw [Nat.min_eq_right h, List.drop_length, List.drop_of_length_le h]

@[simp] theorem read_pop : (c.pop n).read = c.read ++ c.waiting.take n := by
  have h : (c.pop n).read ++ (c.pop n).waiting = c.read ++ c.waiting.take n ++ c.waiting.drop n := by
    rw [read_append_waiting, List.append_assoc, List.take_append_drop, read_append_waiting]
    rfl
  rw [waiting_pop] at h
  exact List.append_cancel_right h

end

theorem read_pop_one {c : Channel α} {x : α} {xs : List α} (h : c.waiting = x :: xs) :
    (c.pop 1).read = c.read ++ [x] := by
  rw [read_pop, h]
  rfl

theorem mem_of_mem_read {c : Channel α} {x : α} (h : x ∈ c.read) : x ∈ c.sent :=
  List.mem_of_mem_take h

theorem mem_of_mem_waiting {c : Channel α} {x : α} (h : x ∈ c.waiting) : x ∈ c.sent :=
  List.mem_of_mem_drop h

/-! ## Frames -/

/-- The frames `arrived` have reached the receiver, which holds back `held`; the frames
`coming` have not. -/
structure Carries {β : Type v} (enc : β → List α) (c : Channel α) (held : List α)
    (arrived coming : List β) : Prop where
  sent_eq : c.sent = (arrived ++ coming).flatMap enc
  coming_eq : held ++ c.waiting = coming.flatMap enc

section
variable {β : Type v} {enc : β → List α} {c : Channel α} {held : List α} {arrived coming : List β}

theorem carries_empty : Carries enc empty [] [] [] := ⟨rfl, rfl⟩

theorem Carries.push (h : Carries enc c held arrived coming) (xs : List β) :
    Carries enc (c.push (xs.flatMap enc)) held arrived (coming ++ xs) where
  sent_eq := by
    have hall : (arrived ++ (coming ++ xs)).flatMap enc =
        (arrived ++ coming).flatMap enc ++ xs.flatMap enc := by
      rw [← List.append_assoc, List.flatMap_append]
    rw [sent_push, h.sent_eq, hall]
  coming_eq := by
    rw [waiting_push, ← List.append_assoc, h.coming_eq, List.flatMap_append]

theorem Carries.split (h : Carries enc c held arrived coming) (n : Nat) :
    held ++ (c.waiting.take n ++ (c.pop n).waiting) = coming.flatMap enc := by
  rw [waiting_pop, List.take_append_drop, h.coming_eq]

theorem Carries.hold (h : Carries enc c held arrived coming) {n : Nat} {held' : List α}
    (hrest : held' ++ (c.pop n).waiting = coming.flatMap enc) :
    Carries enc (c.pop n) held' arrived coming :=
  ⟨h.sent_eq, hrest⟩

theorem Carries.arrive {x : β} {later : List β} (h : Carries enc c held arrived (x :: later))
    {n : Nat} {held' : List α} (hrest : held' ++ (c.pop n).waiting = later.flatMap enc) :
    Carries enc (c.pop n) held' (arrived ++ [x]) later where
  sent_eq := by
    rw [sent_pop, h.sent_eq, List.append_assoc]
    rfl
  coming_eq := hrest

end

end Channel
