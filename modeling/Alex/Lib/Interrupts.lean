/-
# `Alex.Lib.Interrupts` — a program that is interrupted between two statements

A program that runs over and over on a processor with interrupts works on variables
that the handlers assign too.  A handler runs to its end, and comes between any two
statements of the program.  `Program` is what is left to be done, statement by
statement, and `interruptible` the machine of both:

    input     step
    inl i     handler i
    inr k     the next statement; after the last, the program begins anew, with input k

What has to be shown of the program is shown of its statements (`Every`), and its
interleavings need no further look:

    interruptible_invariant     what handlers and statements keep holds in every run
    interruptible_weighs        events that balance in the program balance in every run
    interruptible_run           without interrupts the program is the function `run`
-/
import Mathlib.Algebra.Order.Ring.Int
import Alex.Lib.Mealy

universe u v w x

/-- What is left of a program.  A statement assigns to the state, may be an event, and
decides by the state it meets how the program goes on. -/
inductive Program (σ : Type u) (ε : Type v) where
  | done
  | act (assign : σ → σ) (event : σ → Option ε) (next : σ → Program σ ε)

namespace Program

variable {σ : Type u} {ε : Type v}

/-- One statement. -/
def stmt (assign : σ → σ) (event : Option ε) : Program σ ε :=
  act assign (fun _ => event) fun _ => done

/-- An expression is evaluated for what follows. -/
def eval {α : Type*} (e : σ → α) (p : α → Program σ ε) : Program σ ε :=
  act id (fun _ => none) fun s => p (e s)

/-- Expressions are evaluated one after another. -/
def evals {α : Type*} : List (σ → α) → (List α → Program σ ε) → Program σ ε
  | [], p => p []
  | e :: es, p => eval e fun a => evals es fun as => p (a :: as)

/-- `if(c) p else q` -/
def ite (c : σ → Prop) [DecidablePred c] (p q : Program σ ε) : Program σ ε :=
  eval (fun s => decide (c s)) fun b => if b then p else q

/-- `p; q` -/
def seq : Program σ ε → Program σ ε → Program σ ε
  | done, q => q
  | act f e next, q => act f e fun s => (next s).seq q

/-- Programs one after another. -/
def block : List (Program σ ε) → Program σ ε
  | [] => done
  | p :: ps => p.seq (block ps)

/-! ## Without interrupts -/

/-- The state after a program that is left alone, and its events. -/
def run : Program σ ε → σ → σ × List ε
  | done, s => (s, [])
  | act f e next, s => (((next s).run (f s)).1, (e s).toList ++ ((next s).run (f s)).2)

@[simp] theorem run_done (s : σ) : (done : Program σ ε).run s = (s, []) := rfl

@[simp] theorem run_stmt (f : σ → σ) (e : Option ε) (s : σ) :
    (stmt f e).run s = (f s, e.toList) := by
  rw [stmt, run, run_done, List.append_nil]

@[simp] theorem run_eval {α : Type*} (e : σ → α) (p : α → Program σ ε) (s : σ) :
    (eval e p).run s = (p (e s)).run s := rfl

@[simp] theorem run_evals {α : Type*} (es : List (σ → α)) (p : List α → Program σ ε) (s : σ) :
    (evals es p).run s = (p (es.map fun e => e s)).run s := by
  induction es generalizing p with
  | nil => rfl
  | cons e es ih =>
      rw [evals, run_eval, ih]
      rfl

theorem run_ite (c : σ → Prop) [DecidablePred c] (p q : Program σ ε) (s : σ) :
    (ite c p q).run s = if c s then p.run s else q.run s := by
  rw [ite, run_eval]
  by_cases hc : c s
  · rw [if_pos hc, decide_eq_true hc, if_pos rfl]
  · rw [if_neg hc, decide_eq_false hc, if_neg Bool.false_ne_true]

theorem run_seq (p q : Program σ ε) (s : σ) :
    (p.seq q).run s = ((q.run (p.run s).1).1, (p.run s).2 ++ (q.run (p.run s).1).2) := by
  induction p generalizing s with
  | done => rfl
  | act f e next ih => simp only [seq, run, ih, List.append_assoc]

@[simp] theorem run_block_nil (s : σ) : (block [] : Program σ ε).run s = (s, []) := rfl

@[simp] theorem run_block_cons (p : Program σ ε) (ps : List (Program σ ε)) (s : σ) :
    (block (p :: ps)).run s =
      (((block ps).run (p.run s).1).1, (p.run s).2 ++ ((block ps).run (p.run s).1).2) :=
  run_seq p (block ps) s

/-! ## Every statement -/

/-- Each statement the program may come to has a property. -/
def Every (P : (σ → σ) → (σ → Option ε) → Prop) : Program σ ε → Prop
  | done => True
  | act f e next => P f e ∧ ∀ s, (next s).Every P

section
variable {P : (σ → σ) → (σ → Option ε) → Prop}

theorem every_stmt {f : σ → σ} {e : Option ε} (h : P f fun _ => e) : (stmt f e).Every P :=
  ⟨h, fun _ => trivial⟩

theorem every_eval {α : Type*} {e : σ → α} {p : α → Program σ ε} (hid : P id fun _ => none)
    (h : ∀ a, (p a).Every P) : (eval e p).Every P :=
  ⟨hid, fun s => h (e s)⟩

theorem every_evals {α : Type*} {es : List (σ → α)} {p : List α → Program σ ε}
    (hid : P id fun _ => none) (h : ∀ as, (p as).Every P) : (evals es p).Every P := by
  induction es generalizing p with
  | nil => exact h []
  | cons e es ih => exact every_eval hid fun a => ih fun as => h (a :: as)

theorem every_ite {c : σ → Prop} [DecidablePred c] {p q : Program σ ε} (hid : P id fun _ => none)
    (hp : p.Every P) (hq : q.Every P) : (ite c p q).Every P := by
  refine every_eval hid fun b => ?_
  cases b with
  | true => exact hp
  | false => exact hq

theorem Every.seq {p q : Program σ ε} (hp : p.Every P) (hq : q.Every P) : (p.seq q).Every P := by
  induction p with
  | done => exact hq
  | act f e next ih => exact ⟨hp.1, fun s => ih s (hp.2 s)⟩

theorem every_block {ps : List (Program σ ε)} (h : ∀ p ∈ ps, p.Every P) : (block ps).Every P := by
  induction ps with
  | nil => trivial
  | cons p ps ih =>
      exact (h p List.mem_cons_self).seq (ih fun q hq => h q (List.mem_cons_of_mem p hq))

theorem Every.mono {Q : (σ → σ) → (σ → Option ε) → Prop} (h : ∀ f e, P f e → Q f e)
    {p : Program σ ε} (hp : p.Every P) : p.Every Q := by
  induction p with
  | done => trivial
  | act f e next ih => exact ⟨h f e hp.1, fun s => ih s (hp.2 s)⟩

end

/-! ## Balance -/

/-- What a possible event weighs. -/
def weigh (w : ε → Int) (e : Option ε) : Int := (e.map w).getD 0

/-- Whatever way the program takes, its events weigh so much. -/
def Weighs (w : ε → Int) : Int → Program σ ε → Prop
  | k, done => k = 0
  | k, act _ e next => ∀ s, (next s).Weighs w (k - weigh w (e s))

section
variable {w : ε → Int}

theorem weighs_stmt {f : σ → σ} {e : Option ε} : (stmt f e : Program σ ε).Weighs w (weigh w e) :=
  fun _ => Int.sub_self _

theorem weighs_zero {p : Program σ ε} (h : p.Every fun _ e => ∀ s, weigh w (e s) = 0) :
    p.Weighs w 0 := by
  induction p with
  | done => rfl
  | act f e next ih =>
      intro s
      rw [h.1 s, Int.sub_zero]
      exact ih s (h.2 s)

theorem Weighs.seq {p q : Program σ ε} {k l : Int} (hp : p.Weighs w k) (hq : q.Weighs w l) :
    (p.seq q).Weighs w (k + l) := by
  induction p generalizing k with
  | done =>
      obtain rfl : k = 0 := hp
      rw [Int.zero_add]
      exact hq
  | act f e next ih =>
      intro s
      have hrest := ih s (hp s)
      have hsum : k - weigh w (e s) + l = k + l - weigh w (e s) := by omega
      rw [hsum] at hrest
      exact hrest

end

end Program

/-! ## Interrupts -/

/-- A program on its way, and the state. -/
structure Interrupted (σ : Type u) (ε : Type v) where
  state : σ
  rest : Program σ ε

section
variable {σ : Type u} {ε : Type v} {ι : Type w} {κ : Type x}

/-- A program that is repeated, and handlers. -/
def interruptible (handler : ι → σ → σ × Option ε) (body : κ → Program σ ε) :
    Mealy (Interrupted σ ε) (ι ⊕ κ) (List ε) where
  step s input :=
    match input, s.rest with
    | .inl i, _ => (⟨(handler i s.state).1, s.rest⟩, (handler i s.state).2.toList)
    | .inr k, .done => (⟨s.state, body k⟩, [])
    | .inr _, .act f e next => (⟨f s.state, next s.state⟩, (e s.state).toList)

variable {handler : ι → σ → σ × Option ε} {body : κ → Program σ ε}

/-- **Run.**  What every handler and every statement keeps holds after any run. -/
theorem interruptible_invariant {I : σ → List ε → Prop}
    (hhandler : ∀ i s h, I s h → I (handler i s).1 (h ++ (handler i s).2.toList))
    (hbody : ∀ k, (body k).Every fun f e => ∀ s h, I s h → I (f s) (h ++ (e s).toList))
    {s : σ} (h₀ : I s []) (inputs : List (ι ⊕ κ)) :
    let M := interruptible handler body
    I (M.final ⟨s, .done⟩ inputs).state (M.trace ⟨s, .done⟩ inputs) := by
  intro M
  -- the statements that are left keep it as well
  have hrun := @Mealy.trace_invariant _ _ _ M (fun t h => I t.state h ∧
    t.rest.Every fun f e => ∀ s h, I s h → I (f s) (h ++ (e s).toList)) ?_ ⟨s, .done⟩ inputs
    ⟨h₀, trivial⟩
  · exact hrun.1
  · rintro ⟨t, rest⟩ h input ⟨hI, hrest⟩
    cases input with
    | inl i => exact ⟨hhandler i t h hI, hrest⟩
    | inr k =>
        cases rest with
        | done =>
            refine ⟨?_, hbody k⟩
            show I t (h ++ [])
            rw [List.append_nil]
            exact hI
        | act f e next => exact ⟨hrest.1 t h hI, hrest.2 t⟩

/-- **Run.**  If the handlers' events weigh nothing and those of the program nothing
altogether, then nothing does what has happened whenever the program is through. -/
theorem interruptible_weighs {w : ε → Int}
    (hhandler : ∀ i s, Program.weigh w (handler i s).2 = 0) (hbody : ∀ k, (body k).Weighs w 0)
    {s : σ} {inputs : List (ι ⊕ κ)} (hdone :
      ((interruptible handler body).final ⟨s, .done⟩ inputs).rest = .done) :
    (((interruptible handler body).trace ⟨s, .done⟩ inputs).map w).sum = 0 := by
  have hsum (h : List ε) (e : Option ε) :
      ((h ++ e.toList).map w).sum = (h.map w).sum + Program.weigh w e := by
    cases e with
    | none => simp [Program.weigh]
    | some e => simp [Program.weigh]
  -- what has happened and what is left weigh nothing together
  have hrun := @Mealy.trace_invariant _ _ _ (interruptible handler body)
    (fun t h => t.rest.Weighs w (-(h.map w).sum)) ?_ ⟨s, .done⟩ inputs rfl
  · rw [hdone] at hrun
    exact Int.neg_eq_zero.mp hrun
  · rintro ⟨t, rest⟩ h input hrest
    cases input with
    | inl i =>
        show rest.Weighs w (-((h ++ (handler i t).2.toList).map w).sum)
        rw [hsum, hhandler, Int.add_zero]
        exact hrest
    | inr k =>
        cases rest with
        | done =>
            have hzero : -(h.map w).sum = 0 := hrest
            show (body k).Weighs w (-((h ++ []).map w).sum)
            rw [List.append_nil, hzero]
            exact hbody k
        | act f e next =>
            show (next t).Weighs w (-((h ++ (e t).toList).map w).sum)
            rw [hsum, Int.neg_add]
            exact hrest t

theorem interruptible_finish (p : Program σ ε) (s : σ) (k : κ) :
    ∃ n, (interruptible handler body).final ⟨s, p⟩ (List.replicate n (.inr k)) =
        ⟨(p.run s).1, .done⟩ ∧
      (interruptible handler body).trace ⟨s, p⟩ (List.replicate n (.inr k)) = (p.run s).2 := by
  induction p generalizing s with
  | done => exact ⟨0, rfl, rfl⟩
  | act f e next ih =>
      obtain ⟨n, hfinal, htrace⟩ := ih s (f s)
      refine ⟨n + 1, hfinal, ?_⟩
      rw [List.replicate_succ, Mealy.trace_cons]
      exact congrArg ((e s).toList ++ ·) htrace

/-- Left alone, the program is its function `run`. -/
theorem interruptible_run (s : σ) (k : κ) :
    ∃ n, (interruptible handler body).final ⟨s, .done⟩ (List.replicate n (.inr k)) =
        ⟨((body k).run s).1, .done⟩ ∧
      (interruptible handler body).trace ⟨s, .done⟩ (List.replicate n (.inr k)) =
        ((body k).run s).2 := by
  obtain ⟨n, hfinal, htrace⟩ := @interruptible_finish _ _ _ _ handler body (body k) s k
  exact ⟨n + 1, hfinal, htrace⟩

end
