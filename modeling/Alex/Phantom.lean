/-
# `Alex.Phantom` — commands that nobody typed

Neither result of `scanf` is looked at in `writerThread`.  What a pass sends when a scan
fails is what the stack holds:

    no character is left           the letter
    no number, or only one         the parameters

The first happens in every pass once the input has ended, the second with every
parameter line that is not two numbers.  So only a complete input is safe: one in which
each `f` and each `b` has its numbers, and `q` comes before the end.
-/
import Alex.Keyboard

namespace Alex

/-- All is typed. -/
def Keyboard.given (input : List UInt8) : Keyboard where
  rest := input
  closed := true
  quit := false

/-- The letter that is sent was read from the input, where the pass began, and with `f` and
`b` two numbers behind it. -/
def Genuine (input : List UInt8) : Typed → Prop
  | .sent left ch params =>
      ∃ after, ch :: after <:+ input ∧ left = (ch :: after).length ∧
        (isMove ch = true → ∃ p0 p1 between rest,
          Terminal.scanInt (Terminal.flushInput after).1 = (some p0, between) ∧
            Terminal.scanInt between = (some p1, rest) ∧ params = ⟨p0, p1⟩)
  | .quit _ => True

/-- Each `f` and each `b` that is read has its two numbers, and `q` is read before the
end. -/
inductive Complete : List UInt8 → Prop
  | quit {c : UInt8} {input : List UInt8} : isQuit c = true → Complete (c :: input)
  | move {c : UInt8} {input between rest : List UInt8} {p0 p1 : UInt32} : isMove c = true →
      Terminal.scanInt (Terminal.flushInput input).1 = (some p0, between) →
      Terminal.scanInt between = (some p1, rest) →
      Complete (Terminal.flushInput rest).1 → Complete (c :: input)
  | other {c : UInt8} {input : List UInt8} : isMove c = false →
      Complete (Terminal.flushInput input).1 → Complete (c :: input)

/-! ## Genuine commands -/

theorem Genuine.mono {rest input : List UInt8} {e : Typed} (h : Genuine rest e)
    (hsuffix : rest <:+ input) : Genuine input e := by
  cases e with
  | quit left => trivial
  | sent left ch params =>
      obtain ⟨after, hafter, hleft, hparams⟩ := h
      exact ⟨after, hafter.trans hsuffix, hleft, hparams⟩

theorem Genuine.of_left_le {rest input : List UInt8} {e : Typed} (h : Genuine input e)
    (hsuffix : rest <:+ input) (hleft : e.left ≤ rest.length) : Genuine rest e := by
  cases e with
  | quit left => trivial
  | sent left ch params =>
      obtain ⟨after, hafter, heq, hparams⟩ := h
      rw [Typed.left, heq] at hleft
      exact ⟨after, List.suffix_of_suffix_length_le hafter hsuffix hleft, heq, hparams⟩

theorem Genuine.head {c ch : UInt8} {input : List UInt8} {params : Params}
    (h : Genuine (c :: input) (.sent (c :: input).length ch params)) :
    isMove c = true → ∃ p0 p1 between rest,
      Terminal.scanInt (Terminal.flushInput input).1 = (some p0, between) ∧
        Terminal.scanInt between = (some p1, rest) ∧ params = ⟨p0, p1⟩ := by
  obtain ⟨after, hafter, hleft, hparams⟩ := h
  obtain ⟨rfl, rfl⟩ := List.cons_eq_cons.mp (hafter.eq_of_length hleft.symm)
  exact hparams

/-! ## Passes to the end -/

theorem step_given (c : UInt8) (input : List UInt8) (locals : Locals) :
    writerLoop.step (.given (c :: input)) locals =
      (Keyboard.given (c :: input)).obey (c :: input).length
        (readCommand locals (c :: input)).1 (readCommand locals (c :: input)).2.1
        (readCommand locals (c :: input)).2.2.1 :=
  writerLoop_pass rfl (.inr rfl)

section
variable {c : UInt8} {input : List UInt8}

theorem trace_quit (h : isQuit c = true) (locals : Locals) (stack : List Locals) :
    ∃ left, writerLoop.trace (.given (c :: input)) (locals :: stack) = [.quit left] := by
  have hch : (readCommand locals (c :: input)).1 = c := by
    rw [readCommand_cons]
    split <;> rfl
  refine ⟨(c :: input).length, ?_⟩
  rw [writerLoop.trace_cons, step_given, hch, Keyboard.obey, writerThread_of_isQuit h]
  exact congrArg _ (writerLoop.trace_of_fixed (fun _ => writerLoop_quit rfl) stack)

theorem trace_move (h : isMove c = true) (locals : Locals) (stack : List Locals)
    {params : Params} {rest : List UInt8} {ended : Bool}
    (hparams : Terminal.getParams locals.params (Terminal.flushInput input).1 =
      (params, rest, ended)) :
    writerLoop.trace (.given (c :: input)) (locals :: stack) =
      .sent (c :: input).length c params :: writerLoop.trace (.given rest) stack := by
  rw [writerLoop.trace_cons, step_given, readCommand_cons, if_pos h, hparams, Keyboard.obey,
    writerThread_of_isMove h]
  rfl

theorem trace_other (hm : isMove c = false) (hq : isQuit c = false) (locals : Locals)
    (stack : List Locals) :
    ∃ events, (∀ e ∈ events, ∃ params, e = .sent (c :: input).length c params) ∧
      writerLoop.trace (.given (c :: input)) (locals :: stack) =
        events ++ writerLoop.trace (.given (Terminal.flushInput input).1) stack := by
  rw [writerLoop.trace_cons, step_given, readCommand_cons, if_neg (ne_true_of_eq_false hm),
    Keyboard.obey]
  cases hc : isCommand c with
  | true =>
      obtain ⟨params, hsend⟩ := writerThread_of_isCommand hc locals.params
      rw [hsend]
      exact ⟨_, fun e he => ⟨params, List.mem_singleton.mp he⟩, rfl⟩
  | false =>
      rw [writerThread_of_neither hq hc]
      exact ⟨[], fun e he => absurd he List.not_mem_nil, rfl⟩

end

theorem getParams_eq {input between rest : List UInt8} {p0 p1 : UInt32}
    (h0 : Terminal.scanInt input = (some p0, between))
    (h1 : Terminal.scanInt between = (some p1, rest)) (params : Params) :
    Terminal.getParams params input =
      (⟨p0, p1⟩, (Terminal.flushInput rest).1, (Terminal.flushInput rest).2) := by
  rw [Terminal.getParams, Terminal.scanInts, h0]
  simp only [h1]

theorem suffix_of_scans {input between rest : List UInt8} {p0 p1 : UInt32}
    (h0 : Terminal.scanInt (Terminal.flushInput input).1 = (some p0, between))
    (h1 : Terminal.scanInt between = (some p1, rest)) :
    (Terminal.flushInput rest).1 <:+ input := by
  have hflush := Terminal.flushInput_suffix input
  have hfirst := Terminal.scanInt_suffix (Terminal.flushInput input).1
  have hsecond := Terminal.scanInt_suffix between
  rw [h0] at hfirst
  rw [h1] at hsecond
  exact (Terminal.flushInput_suffix rest).trans (hsecond.trans (hfirst.trans hflush))

/-! ## Complete inputs -/

/-- All that is sent is genuine. -/
def OnlyGenuine (input : List UInt8) : Prop :=
  ∀ stack : List Locals, ∀ e ∈ writerLoop.trace (.given input) stack, Genuine input e

/-- Of a complete input each pass sends what it has read. -/
theorem Complete.onlyGenuine {input : List UInt8} (h : Complete input) : OnlyGenuine input := by
  induction h with
  | quit hq =>
      intro stack e he
      cases stack with
      | nil => exact absurd he List.not_mem_nil
      | cons locals stack =>
          obtain ⟨left, htrace⟩ := trace_quit hq locals stack
          rw [htrace] at he
          rw [List.mem_singleton.mp he]
          trivial
  | @move c input between rest p0 p1 hm h0 h1 _ ih =>
      intro stack e he
      cases stack with
      | nil => exact absurd he List.not_mem_nil
      | cons locals stack =>
          rw [trace_move hm locals stack (getParams_eq h0 h1 locals.params)] at he
          rcases List.mem_cons.mp he with rfl | he
          · exact ⟨input, List.suffix_rfl, rfl, fun _ => ⟨p0, p1, between, rest, h0, h1, rfl⟩⟩
          · exact (ih stack e he).mono ((suffix_of_scans h0 h1).trans (List.suffix_cons c input))
  | @other c input hm _ ih =>
      intro stack e he
      cases stack with
      | nil => exact absurd he List.not_mem_nil
      | cons locals stack =>
          cases hq : isQuit c with
          | true =>
              obtain ⟨left, htrace⟩ := trace_quit hq locals stack
              rw [htrace] at he
              rw [List.mem_singleton.mp he]
              trivial
          | false =>
              obtain ⟨events, hevents, htrace⟩ := @trace_other c input hm hq locals stack
              rw [htrace] at he
              rcases List.mem_append.mp he with he | he
              · obtain ⟨params, rfl⟩ := hevents e he
                exact ⟨input, List.suffix_rfl, rfl, fun hm' => absurd hm' (ne_true_of_eq_false hm)⟩
              · exact (ih stack e he).mono
                  ((Terminal.flushInput_suffix input).trans (List.suffix_cons c input))

theorem OnlyGenuine.rest {input rest : List UInt8} (h : OnlyGenuine input)
    (hsuffix : rest <:+ input) (hpass : ∀ stack : List Locals, ∃ locals events,
      writerLoop.trace (.given input) (locals :: stack) =
        events ++ writerLoop.trace (.given rest) stack) : OnlyGenuine rest := by
  intro stack e he
  obtain ⟨locals, events, htrace⟩ := hpass stack
  have hmem : e ∈ writerLoop.trace (.given input) (locals :: stack) := by
    rw [htrace]
    exact List.mem_append_right _ he
  exact (h (locals :: stack) e hmem).of_left_le hsuffix
    (writerLoop_left_le (.given rest) stack e he)

theorem not_genuine_zero (input : List UInt8) (ch : UInt8) (params : Params) :
    ¬ Genuine input (.sent 0 ch params) := by
  rintro ⟨after, -, hleft, -⟩
  exact nomatch hleft

/-- At the end of the input a letter is sent that nobody typed. -/
theorem not_onlyGenuine_nil : ¬ OnlyGenuine [] := by
  intro h
  have htrace : writerLoop.trace (.given []) [⟨115, ⟨0, 0⟩⟩] = [.sent 0 115 ⟨0, 0⟩] := rfl
  refine not_genuine_zero [] 115 ⟨0, 0⟩ (h [⟨115, ⟨0, 0⟩⟩] _ ?_)
  rw [htrace]
  exact List.mem_cons_self

theorem OnlyGenuine.scans {c : UInt8} {input : List UInt8} (h : OnlyGenuine (c :: input))
    (hm : isMove c = true) : ∃ p0 p1 between rest,
      Terminal.scanInt (Terminal.flushInput input).1 = (some p0, between) ∧
        Terminal.scanInt between = (some p1, rest) := by
  have hmem := @trace_move c input hm ⟨0, ⟨0, 0⟩⟩ [] _ _ _ rfl
  have hgenuine := h [⟨0, ⟨0, 0⟩⟩] _ (by rw [hmem]; exact List.mem_cons_self)
  obtain ⟨p0, p1, between, rest, h0, h1, -⟩ := hgenuine.head hm
  exact ⟨p0, p1, between, rest, h0, h1⟩

theorem OnlyGenuine.complete {input : List UInt8} (h : OnlyGenuine input) : Complete input := by
  -- each pass leaves less of the input
  induction hn : input.length using Nat.strongRecOn generalizing input with
  | ind n ih =>
      cases input with
      | nil => exact absurd h not_onlyGenuine_nil
      | cons c input =>
          have hshorter {rest : List UInt8} (hsuffix : rest <:+ input) : rest.length < n := by
            have hle := hsuffix.length_le
            rw [List.length_cons] at hn
            omega
          cases hm : isMove c with
          | true =>
              obtain ⟨p0, p1, between, rest, h0, h1⟩ := h.scans hm
              have hsuffix := suffix_of_scans h0 h1
              have hrest := h.rest (hsuffix.trans (List.suffix_cons c input)) fun stack =>
                ⟨⟨0, ⟨0, 0⟩⟩, [_], trace_move hm ⟨0, ⟨0, 0⟩⟩ stack (getParams_eq h0 h1 _)⟩
              exact .move hm h0 h1 (ih _ (hshorter hsuffix) hrest rfl)
          | false =>
              cases hq : isQuit c with
              | true => exact .quit hq
              | false =>
                  have hsuffix := Terminal.flushInput_suffix input
                  have hrest := h.rest (hsuffix.trans (List.suffix_cons c input)) fun stack => by
                    obtain ⟨events, -, htrace⟩ :=
                      @trace_other c input hm hq ⟨0, ⟨0, 0⟩⟩ stack
                    exact ⟨_, events, htrace⟩
                  exact .other hm (ih _ (hshorter hsuffix) hrest rfl)

/-- **No phantom commands.**  Whatever the stack holds, each command is one that was typed,
with `f` and `b` the two numbers that were typed behind it, exactly if the input is
complete. -/
theorem genuine_iff (input : List UInt8) :
    (∀ stack : List Locals, ∀ e ∈ writerLoop.trace (.given input) stack, Genuine input e) ↔
      Complete input :=
  ⟨OnlyGenuine.complete, Complete.onlyGenuine⟩

/-- STOP, and the input ends: the next pass finds the letter still there. -/
theorem stop_repeated :
    .sent 0 115 ⟨0, 0⟩ ∈ writerLoop.trace (.given [115, Terminal.newline])
        [⟨0, ⟨0, 0⟩⟩, ⟨115, ⟨0, 0⟩⟩] ∧
      ¬ Genuine [115, Terminal.newline] (.sent 0 115 ⟨0, 0⟩) := by
  have htrace : writerLoop.trace (.given [115, Terminal.newline])
      [⟨0, ⟨0, 0⟩⟩, ⟨115, ⟨0, 0⟩⟩] = [.sent 2 115 ⟨0, 0⟩, .sent 0 115 ⟨0, 0⟩] := rfl
  rw [htrace]
  exact ⟨List.mem_cons_of_mem _ List.mem_cons_self, not_genuine_zero _ _ _⟩

end Alex
