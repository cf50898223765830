/-
# `Alex.Keyboard` — the laptop's keyboard loop

`writerThread` in `tls-alex-client.cpp` reads its commands from a terminal.  Three
functions take characters from the same stream, and what one leaves behind is what the
next one meets:

    scanf("%c", &ch)       one character, whatever it is
    flushInput()           up to the next newline
    scanf("%d %d", …)      white space, newlines too, and up to two numbers

None of the results is looked at.  At the end of the input `ch`, and after something that
is no number `params`, hold what the stack holds.

A pass of the loop that has used up what was typed waits for more, unless the input has
ended.
-/
import Alex.Client
import Alex.Lib.Mealy

namespace Alex

/-! ## Reading -/

namespace Terminal

/-- `'\n'` -/
def newline : UInt8 := 10

/-- `EOF`, as the `char c` of `flushInput` holds it. -/
def eofChar : UInt8 := 255

/-- `scanf("%c", &ch)`: it leaves `ch` alone at the end. -/
def scanChar (ch : UInt8) : List UInt8 → UInt8 × List UInt8
  | [] => (ch, [])
  | c :: rest => (c, rest)

/-- `flushInput()`: what it leaves, and whether it came to the end. -/
def flushInput : List UInt8 → List UInt8 × Bool
  | [] => ([], true)
  | c :: rest => if c = newline ∨ c = eofChar then (rest, false) else flushInput rest

/-- `isspace(c)` -/
def isSpace (c : UInt8) : Bool := c = 32 || 9 ≤ c && c ≤ 13

/-- `isdigit(c)` -/
def isDigit (c : UInt8) : Bool := 48 ≤ c && c ≤ 57

def scanSign : List UInt8 → Bool × List UInt8
  | [] => (false, [])
  | c :: rest => if c = 45 then (true, rest) else if c = 43 then (false, rest) else (false, c :: rest)

def scanDigits (input : List UInt8) : Option UInt32 × List UInt8 :=
  if input.takeWhile isDigit = [] then (none, input)
  else (some (.ofNat ((input.takeWhile isDigit).foldl (fun n d => 10 * n + (d.toNat - 48)) 0)),
    input.dropWhile isDigit)

/-- `scanf("%d", …)`: the number, if there is one, and what is left.  A number that does
not fit, for which C promises nothing, is reduced. -/
def scanInt (input : List UInt8) : Option UInt32 × List UInt8 :=
  let (negative, rest) := scanSign (input.dropWhile isSpace)
  let (value, rest) := scanDigits rest
  (value.map fun n => if negative then 0 - n else n, rest)

/-- `scanf("%d %d", &params[0], &params[1])` -/
def scanInts (params : Params) (input : List UInt8) : Params × List UInt8 :=
  match scanInt input with
  | (none, rest) => (params, rest)
  | (some p0, rest) =>
      match scanInt rest with
      | (none, rest) => (⟨p0, params.p1⟩, rest)
      | (some p1, rest) => (⟨p0, p1⟩, rest)

/-- `getParams(params)`: `params`, what is left, and whether it came to the end. -/
def getParams (params : Params) (input : List UInt8) : Params × List UInt8 × Bool :=
  let (params, rest) := scanInts params input
  let (rest, ended) := flushInput rest
  (params, rest, ended)

/-! ### What is left behind -/

theorem flushInput_suffix (input : List UInt8) : (flushInput input).1 <:+ input := by
  induction input with
  | nil => exact List.suffix_rfl
  | cons c rest ih =>
      rw [flushInput]
      split
      · exact List.suffix_cons c rest
      · exact ih.trans (List.suffix_cons c rest)

theorem scanSign_suffix (input : List UInt8) : (scanSign input).2 <:+ input := by
  cases input with
  | nil => exact List.suffix_rfl
  | cons c rest =>
      rw [scanSign]
      split
      · exact List.suffix_cons c rest
      · split
        · exact List.suffix_cons c rest
        · exact List.suffix_rfl

theorem scanDigits_suffix (input : List UInt8) : (scanDigits input).2 <:+ input := by
  rw [scanDigits]
  split
  · exact List.suffix_rfl
  · exact List.dropWhile_suffix isDigit

theorem scanInt_suffix (input : List UInt8) : (scanInt input).2 <:+ input :=
  (scanDigits_suffix _).trans ((scanSign_suffix _).trans (List.dropWhile_suffix isSpace))

theorem scanInts_suffix (params : Params) (input : List UInt8) :
    (scanInts params input).2 <:+ input := by
  have hfirst := scanInt_suffix input
  rw [scanInts]
  split
  · rename_i rest heq
    rw [heq] at hfirst
    exact hfirst
  · rename_i p0 rest heq
    rw [heq] at hfirst
    have hsecond := scanInt_suffix rest
    split
    · rename_i rest' heq'
      rw [heq'] at hsecond
      exact hsecond.trans hfirst
    · rename_i p1 rest' heq'
      rw [heq'] at hsecond
      exact hsecond.trans hfirst

theorem getParams_suffix (params : Params) (input : List UInt8) :
    (getParams params input).2.1 <:+ input :=
  (flushInput_suffix _).trans (scanInts_suffix params input)

end Terminal

/-! ## The loop -/

/-- What the stack holds where `ch` and `params` are. -/
structure Locals where
  ch : UInt8
  params : Params

/-- The terminal, and `quit`. -/
structure Keyboard where
  /-- what was typed and has not been read -/
  rest : List UInt8
  /-- no more will be typed -/
  closed : Bool
  quit : Bool

/-- What a pass of the loop does: `sendData` is called with a letter and its parameters,
or `quit` is set.  With either stands how many characters were left when `ch` was read. -/
inductive Typed where
  | sent (left : Nat) (ch : UInt8) (params : Params)
  | quit (left : Nat)
  deriving DecidableEq, Repr

/-- The letters with which `getParams` is called. -/
def isMove (ch : UInt8) : Bool :=
  match Char.ofUInt8 ch with
  | 'f' | 'F' | 'b' | 'B' => true
  | _ => false

/-- The end of a pass: `switch(ch)`. -/
def Keyboard.obey (s : Keyboard) (left : Nat) (ch : UInt8) (scanned : Params)
    (rest : List UInt8) : Keyboard × List Typed :=
  match writerThread ch scanned with
  | .send ch params => ({ s with rest := rest }, [.sent left ch params])
  | .quit => ({ s with rest := rest, quit := true }, [.quit left])
  | .badCommand => ({ s with rest := rest }, [])

/-- What a pass reads: `ch`, `params`, what it leaves, and whether it came to the end. -/
def readCommand (locals : Locals) (input : List UInt8) :
    UInt8 × Params × List UInt8 × Bool :=
  let (ch, rest) := Terminal.scanChar locals.ch input
  let (rest, ended) := Terminal.flushInput rest
  if isMove ch then
    let (params, rest, again) := Terminal.getParams locals.params rest
    (ch, params, rest, ended || again)
  else (ch, locals.params, rest, ended)

/-- A pass of the loop in `writerThread`.  One that waits has not happened yet. -/
def writerLoop : Mealy Keyboard Locals (List Typed) where
  step s locals :=
    if s.quit then (s, [])
    else
      let (ch, params, rest, ended) := readCommand locals s.rest
      if ended && !s.closed then (s, [])
      else s.obey s.rest.length ch params rest

theorem readCommand_cons (locals : Locals) (c : UInt8) (input : List UInt8) :
    readCommand locals (c :: input) =
      if isMove c then
        (c, (Terminal.getParams locals.params (Terminal.flushInput input).1).1,
          (Terminal.getParams locals.params (Terminal.flushInput input).1).2.1,
          (Terminal.flushInput input).2 ||
            (Terminal.getParams locals.params (Terminal.flushInput input).1).2.2)
      else (c, locals.params, Terminal.flushInput input) := rfl

theorem readCommand_nil (locals : Locals) :
    readCommand locals [] = (locals.ch, locals.params, [], true) := by
  have hboth : readCommand locals [] =
      if isMove locals.ch then (locals.ch, locals.params, [], true)
      else (locals.ch, locals.params, [], true) := rfl
  rw [hboth, ite_self]

theorem readCommand_suffix (locals : Locals) (c : UInt8) (input : List UInt8) :
    (readCommand locals (c :: input)).2.2.1 <:+ input := by
  have hflush := Terminal.flushInput_suffix input
  rw [readCommand_cons]
  split
  · exact (Terminal.getParams_suffix _ _).trans hflush
  · exact hflush

/-! ## Letters -/

def isCommand (ch : UInt8) : Bool :=
  match Char.ofUInt8 ch with
  | 'f' | 'F' | 'b' | 'B' | 'l' | 'L' | 'r' | 'R' | 'z' | 'Z' | 'x' | 'X'
  | 's' | 'S' | 'c' | 'C' | 'g' | 'G' => true
  | _ => false

def isQuit (ch : UInt8) : Bool :=
  match Char.ofUInt8 ch with
  | 'q' | 'Q' => true
  | _ => false

theorem writerThread_of_isQuit {ch : UInt8} (h : isQuit ch = true) (scanned : Params) :
    writerThread ch scanned = .quit := by
  rw [isQuit] at h
  rw [writerThread]
  split at h
  · rename_i heq
    rw [heq]
    rfl
  · rename_i heq
    rw [heq]
    rfl
  · exact nomatch h

theorem writerThread_of_isCommand {ch : UInt8} (h : isCommand ch = true) (scanned : Params) :
    ∃ params, writerThread ch scanned = .send ch params := by
  rw [isCommand] at h
  rw [writerThread]
  split at h
  all_goals
    first
    | exact absurd h Bool.false_ne_true
    | rename_i heq
      rw [heq]
      exact ⟨_, rfl⟩

theorem writerThread_of_neither {ch : UInt8} (hq : isQuit ch = false)
    (hc : isCommand ch = false) (scanned : Params) : writerThread ch scanned = .badCommand := by
  rw [isCommand] at hc
  rw [isQuit] at hq
  rw [writerThread]
  split <;> simp_all

theorem writerThread_of_isMove {ch : UInt8} (h : isMove ch = true) (scanned : Params) :
    writerThread ch scanned = .send ch scanned := by
  rw [isMove] at h
  rw [writerThread]
  split at h
  all_goals
    first
    | exact absurd h Bool.false_ne_true
    | rename_i heq
      rw [heq]
      rfl

theorem isCommand_of_isMove {ch : UInt8} (h : isMove ch = true) :
    isCommand ch = true ∧ isQuit ch = false := by
  rw [isMove] at h
  rw [isCommand, isQuit]
  split at h
  all_goals
    first
    | exact absurd h Bool.false_ne_true
    | rename_i heq
      rw [heq]
      exact ⟨rfl, rfl⟩

theorem letter_of_isCommand {ch : UInt8} (h : isCommand ch = true ∨ isQuit ch = true) :
    66 ≤ ch.toNat := by
  have hcode (c : Char) (heq : Char.ofUInt8 ch = c) : ch.toNat = c.toNat := congrArg Char.toNat heq
  rcases h with h | h
  · rw [isCommand] at h
    split at h
    all_goals
      first
      | exact absurd h Bool.false_ne_true
      | rename_i heq
        rw [hcode _ heq]
        decide
  · rw [isQuit] at h
    split at h
    all_goals
      first
      | exact absurd h Bool.false_ne_true
      | rename_i heq
        rw [hcode _ heq]
        decide

/-! ## Passes -/

section
variable {s : Keyboard} {locals : Locals}

theorem writerLoop_quit (h : s.quit = true) : writerLoop.step s locals = (s, []) :=
  if_pos h

theorem writerLoop_wait (hclosed : s.closed = false)
    (h : (readCommand locals s.rest).2.2.2 = true) : writerLoop.step s locals = (s, []) := by
  have hwaits : ((readCommand locals s.rest).2.2.2 && !s.closed) = true := by
    rw [h, hclosed]
    rfl
  show (if s.quit = true then (s, []) else _) = _
  split
  · rfl
  · exact if_pos hwaits

theorem writerLoop_pass (hquit : s.quit = false)
    (h : (readCommand locals s.rest).2.2.2 = false ∨ s.closed = true) :
    writerLoop.step s locals = s.obey s.rest.length (readCommand locals s.rest).1
      (readCommand locals s.rest).2.1 (readCommand locals s.rest).2.2.1 := by
  have hgoes : ¬ ((readCommand locals s.rest).2.2.2 && !s.closed) = true := by
    rcases h with h | h
    · rw [h]
      exact Bool.false_ne_true
    · rw [h, Bool.not_true, Bool.and_false]
      exact Bool.false_ne_true
  exact (if_neg (ne_true_of_eq_false hquit)).trans (if_neg hgoes)

end

/-- How many characters were left when the letter was read. -/
def Typed.left : Typed → Nat
  | .sent left _ _ => left
  | .quit left => left

namespace Keyboard

theorem rest_obey (s : Keyboard) (left : Nat) (ch : UInt8) (scanned : Params)
    (rest : List UInt8) : (s.obey left ch scanned rest).1.rest = rest := by
  rw [obey]
  split <;> rfl

theorem left_obey (s : Keyboard) (left : Nat) (ch : UInt8) (scanned : Params)
    (rest : List UInt8) : ∀ e ∈ (s.obey left ch scanned rest).2, e.left = left := by
  intro e he
  rw [obey] at he
  split at he
  · rw [List.mem_singleton.mp he]
    rfl
  · rw [List.mem_singleton.mp he]
    rfl
  · exact absurd he List.not_mem_nil

end Keyboard

/-- **Step.**  A pass answers with where it began, and never goes back. -/
theorem writerLoop_left (s : Keyboard) (locals : Locals) :
    (writerLoop.step s locals).1.rest <:+ s.rest ∧
      ∀ e ∈ (writerLoop.step s locals).2, e.left = s.rest.length := by
  have hstays : writerLoop.step s locals = (s, []) →
      (writerLoop.step s locals).1.rest <:+ s.rest ∧
        ∀ e ∈ (writerLoop.step s locals).2, e.left = s.rest.length := by
    intro h
    rw [h]
    exact ⟨List.suffix_rfl, fun e he => absurd he List.not_mem_nil⟩
  have hreads : (readCommand locals s.rest).2.2.1 <:+ s.rest := by
    cases s.rest with
    | nil => simp [readCommand_nil]
    | cons c input => exact (readCommand_suffix locals c input).trans (List.suffix_cons c input)
  cases hquit : s.quit with
  | true => exact hstays (writerLoop_quit hquit)
  | false =>
      by_cases h : (readCommand locals s.rest).2.2.2 = false ∨ s.closed = true
      · rw [writerLoop_pass hquit h, s.rest_obey]
        exact ⟨hreads, s.left_obey _ _ _ _⟩
      · obtain ⟨hended, hclosed⟩ := not_or.mp h
        exact hstays (writerLoop_wait (Bool.not_eq_true _ ▸ hclosed) (Bool.not_eq_false _ ▸ hended))

theorem writerLoop_left_le (s : Keyboard) (stack : List Locals) :
    ∀ e ∈ writerLoop.trace s stack, e.left ≤ s.rest.length := by
  induction stack generalizing s with
  | nil => exact fun e he => absurd he List.not_mem_nil
  | cons locals stack ih =>
      obtain ⟨hsuffix, hleft⟩ := writerLoop_left s locals
      intro e he
      rw [writerLoop.trace_cons] at he
      rcases List.mem_append.mp he with he | he
      · exact Nat.le_of_eq (hleft e he)
      · exact Nat.le_trans (ih _ e he) hsuffix.length_le

end Alex
