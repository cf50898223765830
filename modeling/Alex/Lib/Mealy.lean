/-
# `Alex.Lib.Mealy` — machines that answer every input, and their runs

A program that is called over and over, keeps state between the calls and
answers each call is a Mealy machine: `step s i` is the state after the call
and the answer to it.  A run feeds a list of inputs; the interleavings of a
concurrent program are runs too, an input naming the thread that moves.

The rules every proof about runs goes through:

    final_invariant     what each step preserves holds at the end of a run
    simulation          a step-wise relation gives equal answers, input by input

and one way of putting machines together, `cascade`: the answers of the first
are the inputs of the second.

Where the answers are lists of events, `trace` is the history of a run, with some
rules of its own:

    trace_invariant     a property of the state and the history
    final_collect       a part of the state that is what a step has set last
    final_follow        a part of the state that the history tells
    exists_projection   a part of the machine that runs by itself
-/
import Mathlib.Data.List.DropRight
import Mathlib.Data.List.Induction

universe u v w

/-- A machine with states `σ`, inputs `ι` and answers `ω`. -/
structure Mealy (σ : Type u) (ι : Type v) (ω : Type w) where
  step : σ → ι → σ × ω

namespace Mealy

variable {σ : Type u} {ι : Type v} {ω : Type w} (M : Mealy σ ι ω)

/-- The state after a list of inputs. -/
def final : σ → List ι → σ
  | s, [] => s
  | s, i :: is => final (M.step s i).1 is

/-- The answers to a list of inputs, one for each. -/
def outputs : σ → List ι → List ω
  | _, [] => []
  | s, i :: is => (M.step s i).2 :: outputs (M.step s i).1 is

@[simp] theorem final_nil (s : σ) : M.final s [] = s := rfl

@[simp] theorem final_cons (s : σ) (i : ι) (is : List ι) :
    M.final s (i :: is) = M.final (M.step s i).1 is := rfl

@[simp] theorem outputs_nil (s : σ) : M.outputs s [] = [] := rfl

@[simp] theorem outputs_cons (s : σ) (i : ι) (is : List ι) :
    M.outputs s (i :: is) = (M.step s i).2 :: M.outputs (M.step s i).1 is := rfl

theorem final_append (s : σ) (is js : List ι) :
    M.final s (is ++ js) = M.final (M.final s is) js := by
  induction is generalizing s with
  | nil => rfl
  | cons i is ih => exact ih _

theorem outputs_append (s : σ) (is js : List ι) :
    M.outputs s (is ++ js) = M.outputs s is ++ M.outputs (M.final s is) js := by
  induction is generalizing s with
  | nil => rfl
  | cons i is ih => simp only [List.cons_append, outputs_cons, final_cons, ih]

@[simp] theorem length_outputs (s : σ) (is : List ι) :
    (M.outputs s is).length = is.length := by
  induction is generalizing s with
  | nil => rfl
  | cons i is ih => simp only [outputs_cons, List.length_cons, ih]

theorem outputs_getElem? (s : σ) (is : List ι) (k : Nat) :
    (M.outputs s is)[k]? = is[k]?.map fun i => (M.step (M.final s (is.take k)) i).2 := by
  induction is generalizing s k with
  | nil => simp
  | cons i is ih =>
      cases k with
      | zero => simp
      | succ k => simpa using ih (M.step s i).1 k

theorem outputs_take (s : σ) (is : List ι) (k : Nat) :
    M.outputs s (is.take k) = (M.outputs s is).take k := by
  induction is generalizing s k with
  | nil => simp
  | cons i is ih =>
      cases k with
      | zero => rfl
      | succ k => simp only [List.take_succ_cons, outputs_cons, ih]

/-! ## The rules -/

/-- What every step on an admitted input preserves holds at the end of a run. -/
theorem final_invariant {I : σ → Prop} {P : ι → Prop}
    (hstep : ∀ s i, P i → I s → I (M.step s i).1) :
    ∀ {s : σ} {is : List ι}, (∀ i ∈ is, P i) → I s → I (M.final s is) := by
  intro s is
  induction is generalizing s with
  | nil => exact fun _ h => h
  | cons i is ih =>
      intro hP h
      exact ih (fun j hj => hP j (List.mem_cons_of_mem _ hj))
        (hstep s i (hP i List.mem_cons_self) h)

theorem final_invariant_of_outputs {I : σ → Prop} {Q : ω → Prop}
    (hstep : ∀ s i, Q (M.step s i).2 → I s → I (M.step s i).1) :
    ∀ {s : σ} {is : List ι}, (∀ o ∈ M.outputs s is, Q o) → I s → I (M.final s is) := by
  intro s is
  induction is generalizing s with
  | nil => exact fun _ h => h
  | cons i is ih =>
      intro hQ h
      exact ih (fun o ho => hQ o (List.mem_cons_of_mem _ ho))
        (hstep s i (hQ _ List.mem_cons_self) h)

/-- Two machines whose states stay related give the same answers. -/
theorem simulation {τ : Type*} {A : Mealy τ ι ω} {R : σ → τ → Prop} {P : ι → Prop}
    (hstep : ∀ s a i, P i → R s a →
      R (M.step s i).1 (A.step a i).1 ∧ (M.step s i).2 = (A.step a i).2) :
    ∀ {s : σ} {a : τ} {is : List ι}, (∀ i ∈ is, P i) → R s a →
      R (M.final s is) (A.final a is) ∧ M.outputs s is = A.outputs a is := by
  intro s a is
  induction is generalizing s a with
  | nil => exact fun _ h => ⟨h, rfl⟩
  | cons i is ih =>
      intro hP h
      obtain ⟨hR, ho⟩ := hstep s a i (hP i List.mem_cons_self) h
      obtain ⟨hF, hO⟩ := ih (fun j hj => hP j (List.mem_cons_of_mem _ hj)) hR
      exact ⟨hF, by simp only [outputs_cons, ho, hO]⟩

/-! ## Machines in a row -/

/-- The answers of one machine are the inputs of another. -/
def cascade {τ : Type*} {ν : Type*} (N : Mealy τ ω ν) : Mealy (σ × τ) ι ν where
  step s i :=
    let (s₁, o) := M.step s.1 i
    let (s₂, o) := N.step s.2 o
    ((s₁, s₂), o)

theorem outputs_cascade {τ : Type*} {ν : Type*} (N : Mealy τ ω ν) (s : σ) (t : τ)
    (is : List ι) : (M.cascade N).outputs (s, t) is = N.outputs t (M.outputs s is) := by
  induction is generalizing s t with
  | nil => rfl
  | cons i is ih =>
      show _ :: (M.cascade N).outputs ((M.step s i).1, (N.step t (M.step s i).2).1) is = _
      rw [ih]
      rfl

theorem final_cascade {τ : Type*} {ν : Type*} (N : Mealy τ ω ν) (s : σ) (t : τ)
    (is : List ι) :
    (M.cascade N).final (s, t) is = (M.final s is, N.final t (M.outputs s is)) := by
  induction is generalizing s t with
  | nil => rfl
  | cons i is ih =>
      show (M.cascade N).final ((M.step s i).1, (N.step t (M.step s i).2).1) is = _
      rw [ih]
      rfl

/-! ## Histories -/

section
variable {ε : Type*} (M : Mealy σ ι (List ε))

/-- The events of a run. -/
def trace (s : σ) (is : List ι) : List ε := (M.outputs s is).flatten

theorem trace_cons (s : σ) (i : ι) (is : List ι) :
    M.trace s (i :: is) = (M.step s i).2 ++ M.trace (M.step s i).1 is := rfl

theorem trace_append (s : σ) (is js : List ι) :
    M.trace s (is ++ js) = M.trace s is ++ M.trace (M.final s is) js := by
  rw [trace, outputs_append, List.flatten_append]
  rfl

theorem trace_concat (s : σ) (is : List ι) (i : ι) :
    M.trace s (is ++ [i]) = M.trace s is ++ (M.step (M.final s is) i).2 := by
  rw [trace_append]
  exact congrArg _ (List.append_nil _)

theorem trace_of_fixed {s : σ} (h : ∀ i, M.step s i = (s, [])) (is : List ι) :
    M.trace s is = [] := by
  induction is with
  | nil => rfl
  | cons i is ih =>
      rw [trace_cons, h i]
      exact ih

theorem final_concat (s : σ) (is : List ι) (i : ι) :
    M.final s (is ++ [i]) = (M.step (M.final s is) i).1 :=
  M.final_append s is [i]

/-- A property of the state and of the history, preserved by every step, holds at
the end of a run. -/
theorem trace_invariant {I : σ → List ε → Prop}
    (hstep : ∀ s h i, I s h → I (M.step s i).1 (h ++ (M.step s i).2)) {s : σ} (is : List ι)
    (h₀ : I s []) : I (M.final s is) (M.trace s is) := by
  induction is using List.reverseRecOn with
  | nil => exact h₀
  | append_singleton is i ih =>
      rw [final_concat, trace_concat]
      exact hstep _ _ i ih

/-- What the steps of a run have of some kind, in order. -/
def collect {α : Type*} (f : σ → ι → Option α) : σ → List ι → List α
  | _, [] => []
  | s, i :: is => (f s i).toList ++ collect f (M.step s i).1 is

theorem collect_append {α : Type*} (f : σ → ι → Option α) (s : σ) (is js : List ι) :
    M.collect f s (is ++ js) = M.collect f s is ++ M.collect f (M.final s is) js := by
  induction is generalizing s with
  | nil => rfl
  | cons i is ih =>
      show (f s i).toList ++ M.collect f (M.step s i).1 (is ++ js) = _
      rw [ih, ← List.append_assoc]
      rfl

theorem collect_concat {α : Type*} (f : σ → ι → Option α) (s : σ) (is : List ι) (i : ι) :
    M.collect f s (is ++ [i]) = M.collect f s is ++ (f (M.final s is) i).toList := by
  rw [collect_append]
  exact congrArg _ (List.append_nil _)

theorem collect_of_none {α : Type*} {f : σ → ι → Option α} {is : List ι}
    (h : ∀ i ∈ is, ∀ s, f s i = none) (s : σ) : M.collect f s is = [] := by
  induction is generalizing s with
  | nil => rfl
  | cons i is ih =>
      show (f s i).toList ++ M.collect f (M.step s i).1 is = []
      rw [h i List.mem_cons_self, ih fun j hj => h j (List.mem_cons_of_mem _ hj)]
      rfl

theorem final_collect {α : Type*} {f : σ → ι → Option α} {g : σ → α}
    (hstep : ∀ s i, g (M.step s i).1 = (f s i).getD (g s)) (s : σ) (is : List ι) :
    g (M.final s is) = (M.collect f s is).getLast?.getD (g s) := by
  induction is using List.reverseRecOn with
  | nil => rfl
  | append_singleton is i ih =>
      rw [final_concat, hstep, ih, collect_concat]
      cases f (M.final s is) i with
      | none => rw [Option.toList_none, List.append_nil, Option.getD_none]
      | some a => rw [Option.toList_some, List.getLast?_concat, Option.getD_some, Option.getD_some]

/-- What each step does to a part of the state, if its events tell, the history
tells of a run. -/
theorem final_follow {τ : Type*} {f : σ → τ} {follow : τ → ε → τ}
    (hstep : ∀ s i, f (M.step s i).1 = (M.step s i).2.foldl follow (f s)) (s : σ)
    (is : List ι) : f (M.final s is) = (M.trace s is).foldl follow (f s) := by
  induction is using List.reverseRecOn with
  | nil => rfl
  | append_singleton is i ih => rw [final_concat, trace_concat, hstep, ih, List.foldl_append]

/-- A part of the machine that runs by itself: if each step is some run of the part, which
gives those of the events that are its own, a run is. -/
theorem exists_projection {τ : Type*} {κ : Type*} {ε' : Type*} (N : Mealy τ κ (List ε'))
    (f : σ → τ) (g : ε → Option ε')
    (hstep : ∀ s i, ∃ js, f (M.step s i).1 = N.final (f s) js ∧
      (M.step s i).2.filterMap g = N.trace (f s) js) (s : σ) (is : List ι) :
    ∃ js, f (M.final s is) = N.final (f s) js ∧
      (M.trace s is).filterMap g = N.trace (f s) js := by
  induction is using List.reverseRecOn with
  | nil => exact ⟨[], rfl, rfl⟩
  | append_singleton is i ih =>
      obtain ⟨js, hfinal, htrace⟩ := ih
      obtain ⟨ks, hfinal', htrace'⟩ := hstep (M.final s is) i
      rw [hfinal] at hfinal' htrace'
      refine ⟨js ++ ks, ?_, ?_⟩
      · rw [final_concat, hfinal', final_append]
      · rw [trace_concat, List.filterMap_append, htrace, htrace', trace_append]

end

/-- Following a history in which some events overwrite a value and the others leave
it is looking at the last of those events. -/
theorem foldl_overwrite {ε : Type*} {τ : Type*} {follow : τ → ε → τ} {p : ε → Bool} {g : ε → τ}
    (hp : ∀ x e, p e = true → follow x e = g e) (hn : ∀ x e, p e = false → follow x e = x)
    (x : τ) (events : List ε) :
    events.foldl follow x = ((events.filter p).getLast?.map g).getD x := by
  induction events using List.reverseRecOn with
  | nil => rfl
  | append_singleton events e ih =>
      rw [List.foldl_append, ih, List.foldl_cons, List.foldl_nil, List.filter_append]
      cases he : p e with
      | true =>
          rw [hp _ e he, List.filter_cons_of_pos he, List.filter_nil, List.getLast?_concat]
          rfl
      | false =>
          have hne : ¬ p e = true := fun h => nomatch he.symm.trans h
          rw [hn _ e he, List.filter_cons_of_neg hne, List.filter_nil, List.append_nil]

/-- How often an event has occurred since another occurred last. -/
def countSince {ε : Type*} [DecidableEq ε] (reset e : ε) (history : List ε) : Nat :=
  (history.rtakeWhile fun x => x ≠ reset).count e

theorem countSince_concat {ε : Type*} [DecidableEq ε] (reset e : ε) (history : List ε) (x : ε) :
    countSince reset e (history ++ [x]) =
      if x = reset then 0
      else if x = e then countSince reset e history + 1
      else countSince reset e history := by
  rw [countSince, List.rtakeWhile_concat]
  by_cases hreset : x = reset
  · rw [if_pos hreset, if_neg (by simpa using hreset)]
    rfl
  · rw [if_neg hreset, if_pos (by simpa using hreset), List.count_append, List.count_singleton,
      ← countSince]
    by_cases he : x = e
    · rw [if_pos he, if_pos (by simpa using he)]
    · rw [if_neg he, if_neg (by simpa using he), Nat.add_zero]

end Mealy
