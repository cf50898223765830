/-
# `Alex.Lines` — an empty line swallows the next

What is typed is a sequence of lines.  A pass of the keyboard loop reads the first
character of one and throws the rest of it away, with the newline:

    "s"            scanf takes `s`, flushInput the newline
    "f", "50 75"   scanf takes `f`, flushInput the newline, getParams the second line
    "", "s"        scanf takes the newline, flushInput the second line
    "s", 255, "g"  scanf takes `s`, flushInput the byte 255, scanf the `g`

So the line behind an empty line is not read, and if that is empty too it swallows none.
Behind an odd number of empty lines a command is lost; it may be the STOP.  Where the
byte 255 stands in a line, at which `flushInput` stops as at the end of the input, the
next pass begins in the line: a letter there is sent that no line starts with, and
nothing there makes the newline one more empty line.  `behind` tells how the loop leaves
a line, and `Unswallowed` what must hold for every line to be heard, and nothing else.
-/
import Alex.Scanf

namespace Alex

open Terminal (newline eofChar flushInput)

/-! ## Lines -/

structure Line where
  bytes : List UInt8
  newline_notMem : newline ∉ bytes

/-- The characters of lines, each with its newline. -/
def Line.typed : List Line → List UInt8
  | [] => []
  | l :: lines => l.bytes ++ newline :: typed lines

/-! ## What should be sent -/

/-- Each line that starts with `f` or `b` is followed by its parameters. -/
inductive Typable : List Line → Prop
  | nil : Typable []
  | move {line params : Line} {lines : List Line} {ch : UInt8} :
      line.bytes.head? = some ch → isMove ch = true → Terminal.TwoIntegers params.bytes →
      Typable lines → Typable (line :: params :: lines)
  | other {line : Line} {lines : List Line} :
      (∀ ch, line.bytes.head? = some ch → isMove ch = false) → Typable lines →
      Typable (line :: lines)

/-- A letter and the number of characters left when it was read, which tells where it
stood.  No letter stands for quitting. -/
def Typed.heard : Typed → Nat × Option UInt8
  | .sent left ch _ => (left, some ch)
  | .quit left => (left, none)

/-- The first characters that are commands, up to the first that quits.  Parameters begin
with no such character. -/
def spoken : List Line → List (Nat × Option UInt8)
  | [] => []
  | line :: lines =>
      match line.bytes.head? with
      | none => spoken lines
      | some ch =>
          if isQuit ch then [((Line.typed (line :: lines)).length, none)]
          else if isCommand ch then
            ((Line.typed (line :: lines)).length, some ch) :: spoken lines
          else spoken lines

/-! ## How a line is left -/

/-- In the middle of a line the loop reads a letter, or it comes to the next line: to its
first character, or, having taken the newline for a letter, to throw it away. -/
inductive Behind where
  | letter (ch : UInt8) (rest : List UInt8)
  | line (swallowed : Bool)

/-- How the loop leaves a line of which these characters are left, in `flushInput` or
about to read one. -/
def behind : Bool → List UInt8 → Behind
  | flushing, [] => .line !flushing
  | true, c :: cs => behind (c ≠ eofChar) cs
  | false, c :: cs => if isCommand c || isQuit c then .letter c cs else behind true cs

/-- What `flushInput` leaves of a line, if it stops there. -/
def afterStop : List UInt8 → Option (List UInt8)
  | [] => none
  | c :: cs => if c = eofChar then some cs else afterStop cs

/-- How it leaves a line that begins with `ch`.  Behind a movement `getParams` goes on
where `flushInput` has stopped. -/
def readLine (ch : UInt8) (cs : List UInt8) : Behind :=
  if isMove ch then
    match (afterStop cs).bind Terminal.unscanned with
    | none => .line false
    | some rest => behind true rest
  else behind true cs

/-- `getParams`, called with this behind the letter, still waits for numbers. -/
def Waits (rest : List UInt8) (lines : List Line) : Prop :=
  (Terminal.getParams ⟨0, 0⟩ (flushInput (rest ++ newline :: Line.typed lines)).1).2.2 = true

/-- Up to the first line that quits, each that starts with a command is read from its
start and no letter inside a line is read, unless it is one that still waits for its
numbers. -/
def Unswallowed : Bool → List Line → Prop
  | _, [] => True
  | swallowed, line :: lines =>
      match line.bytes with
      | [] => Unswallowed (!swallowed) lines
      | ch :: cs =>
          if isQuit ch then swallowed = false
          else (isCommand ch = true → swallowed = false) ∧
            match if swallowed then behind true (ch :: cs) else readLine ch cs with
            | .letter c rest => isMove c = true ∧ Waits rest lines
            | .line s => Unswallowed s lines

/-- What is left to ask of the lines behind. -/
def Behind.Goes (lines : List Line) : Behind → Prop
  | .letter c rest => isMove c = true ∧ Waits rest lines
  | .line s => Unswallowed s lines

section
variable {line : Line} {lines : List Line} {ch : UInt8} {cs : List UInt8}

theorem unswallowed_nil (h : line.bytes = []) (swallowed : Bool) :
    Unswallowed swallowed (line :: lines) ↔ Unswallowed (!swallowed) lines := by
  rw [Unswallowed, h]

theorem unswallowed_true (h : line.bytes = ch :: cs) :
    Unswallowed true (line :: lines) ↔
      isQuit ch = false ∧ isCommand ch = false ∧ (behind true (ch :: cs)).Goes lines := by
  rw [Unswallowed, h]
  cases hq : isQuit ch <;> cases hc : isCommand ch <;> simp [hq, hc, Behind.Goes.eq_def]

theorem unswallowed_false (h : line.bytes = ch :: cs) :
    Unswallowed false (line :: lines) ↔ isQuit ch = true ∨ (readLine ch cs).Goes lines := by
  rw [Unswallowed, h]
  cases hq : isQuit ch <;> simp [hq, Behind.Goes.eq_def]

end

/-! ## What is sent -/

/-- A terminal at which someone sits. -/
def Keyboard.typing (rest : List UInt8) : Keyboard where
  rest := rest
  closed := false
  quit := false

/-- What is heard of the passes of a run. -/
def heard (s : Keyboard) (stack : List Locals) : List (Nat × Option UInt8) :=
  (writerLoop.trace s stack).map Typed.heard

theorem heard_cons (s : Keyboard) (locals : Locals) (stack : List Locals) :
    heard s (locals :: stack) =
      (writerLoop.step s locals).2.map Typed.heard ++ heard (writerLoop.step s locals).1 stack := by
  rw [heard, writerLoop.trace_cons, List.map_append]
  rfl

theorem heard_of_stays {s : Keyboard} (h : ∀ locals, writerLoop.step s locals = (s, []))
    (stack : List Locals) : heard s stack = [] :=
  congrArg _ (writerLoop.trace_of_fixed h stack)

theorem fst_le_of_mem_heard {s : Keyboard} {stack : List Locals} {x : Nat × Option UInt8}
    (h : x ∈ heard s stack) : x.1 ≤ s.rest.length := by
  obtain ⟨e, he, rfl⟩ := List.mem_map.mp h
  have hleft : e.heard.1 = e.left := by
    cases e <;> rfl
  rw [hleft]
  exact writerLoop_left_le s stack e he

section
variable {rest input : List UInt8} {locals : Locals} {ch : UInt8} {scanned : Params}
  (hread : readCommand locals input = (ch, scanned, rest, false))
include hread

theorem step_typing : writerLoop.step (.typing input) locals =
    (Keyboard.typing input).obey input.length ch scanned rest := by
  have hends : (readCommand locals (Keyboard.typing input).rest).2.2.2 = false := by
    rw [Keyboard.typing, hread]
  rw [writerLoop_pass rfl (.inl hends)]
  show (Keyboard.typing input).obey input.length _ _ _ = _
  rw [Keyboard.typing, hread]

theorem heard_quit (hq : isQuit ch = true) (stack : List Locals) :
    heard (.typing input) (locals :: stack) = [(input.length, none)] := by
  rw [heard_cons, step_typing hread, Keyboard.obey, writerThread_of_isQuit hq]
  exact congrArg _ (heard_of_stays (fun _ => writerLoop_quit rfl) stack)

theorem heard_command (hc : isCommand ch = true) (stack : List Locals) :
    heard (.typing input) (locals :: stack) =
      (input.length, some ch) :: heard (.typing rest) stack := by
  obtain ⟨params, hsend⟩ := writerThread_of_isCommand hc scanned
  rw [heard_cons, step_typing hread, Keyboard.obey, hsend]
  rfl

theorem heard_neither (hq : isQuit ch = false) (hc : isCommand ch = false)
    (stack : List Locals) : heard (.typing input) (locals :: stack) = heard (.typing rest) stack := by
  rw [heard_cons, step_typing hread, Keyboard.obey, writerThread_of_neither hq hc]
  rfl

end

theorem heard_waits {input : List UInt8}
    (hread : ∀ locals, (readCommand locals input).2.2.2 = true) (stack : List Locals) :
    heard (.typing input) stack = [] :=
  heard_of_stays (fun locals => writerLoop_wait rfl (hread locals)) stack

/-! ## Where a pass ends -/

theorem flushInput_stop {cs : List UInt8} (h : newline ∉ cs) (rest : List UInt8) :
    flushInput (cs ++ newline :: rest) =
      (((afterStop cs).map (· ++ newline :: rest)).getD rest, false) := by
  induction cs with
  | nil => exact Terminal.flushInput_line (fun b hb => absurd hb List.not_mem_nil) rest
  | cons c cs ih =>
      have hc : c ≠ newline := fun e => h (e ▸ List.mem_cons_self)
      rw [List.cons_append, afterStop]
      by_cases he : c = eofChar
      · rw [flushInput, if_pos (.inr he), if_pos he]
        rfl
      · rw [Terminal.flushInput_cons_of_ne hc he, if_neg he]
        exact ih fun hm => h (List.mem_cons_of_mem _ hm)

theorem afterStop_suffix {cs u : List UInt8} (h : afterStop cs = some u) : u <:+ cs := by
  induction cs with
  | nil => exact nomatch h
  | cons c cs ih =>
      rw [afterStop] at h
      split at h
      · cases h
        exact List.suffix_cons c u
      · exact (ih h).trans (List.suffix_cons c cs)

theorem length_flushInput_cons (c : UInt8) (rest : List UInt8) :
    (flushInput (c :: rest)).1.length ≤ rest.length := by
  rw [flushInput]
  split
  · exact Nat.le_refl _
  · exact (Terminal.flushInput_suffix rest).length_le

theorem getParams_snd (params params' : Params) (input : List UInt8) :
    (Terminal.getParams params input).2 = (Terminal.getParams params' input).2 := by
  show flushInput (Terminal.scanInts params input).2 = flushInput (Terminal.scanInts params' input).2
  rw [Terminal.scanInts_snd, Terminal.scanInts_snd]

theorem readCommand_other {ch : UInt8} (hm : isMove ch = false) {cs : List UInt8}
    (h : newline ∉ cs) (rest : List UInt8) (locals : Locals) :
    readCommand locals (ch :: (cs ++ newline :: rest)) =
      (ch, locals.params, (flushInput (cs ++ newline :: rest)).1, false) := by
  rw [readCommand_cons, if_neg (ne_true_of_eq_false hm), flushInput_stop h]

theorem readCommand_move {ch : UInt8} (hm : isMove ch = true) {input between rest : List UInt8}
    (hflush : flushInput input = (between, false))
    (hscan : ∀ params, flushInput (Terminal.scanInts params between).2 = (rest, false))
    (locals : Locals) :
    ∃ scanned, readCommand locals (ch :: input) = (ch, scanned, rest, false) := by
  refine ⟨(Terminal.scanInts locals.params between).1, ?_⟩
  rw [readCommand_cons, if_pos hm, hflush, Terminal.getParams]
  simp only [hscan, Bool.or_false]

/-! ## What is heard of lines -/

/-- Of this input, what lines say is heard exactly if `ok`. -/
def HeardIff (input : List UInt8) (lines : List Line) (ok : Prop) : Prop :=
  ∀ stack : List Locals, input.length ≤ stack.length →
    (heard (.typing input) stack = spoken lines ↔ ok)

theorem HeardIff.of_iff {input : List UInt8} {lines : List Line} {ok ok' : Prop}
    (h : HeardIff input lines ok) (hok : ok ↔ ok') : HeardIff input lines ok' :=
  fun stack hstack => (h stack hstack).trans hok

theorem HeardIff.neither {ch : UInt8} {input rest : List UInt8} {lines lines' : List Line}
    {ok : Prop} (h : HeardIff rest lines ok) (hlen : rest.length ≤ input.length)
    (hread : ∀ locals, ∃ scanned, readCommand locals (ch :: input) = (ch, scanned, rest, false))
    (hq : isQuit ch = false) (hc : isCommand ch = false) (hspoken : spoken lines' = spoken lines) :
    HeardIff (ch :: input) lines' ok := by
  intro stack hstack
  cases stack with
  | nil => exact absurd hstack (Nat.not_succ_le_zero _)
  | cons locals stack =>
      obtain ⟨scanned, hscanned⟩ := hread locals
      rw [heard_neither hscanned hq hc, hspoken]
      exact h stack (hlen.trans (Nat.le_of_succ_le_succ hstack))

theorem HeardIff.command {ch : UInt8} {input rest : List UInt8} {lines lines' : List Line}
    {ok : Prop} (h : HeardIff rest lines ok) (hlen : rest.length ≤ input.length)
    (hread : ∀ locals, ∃ scanned, readCommand locals (ch :: input) = (ch, scanned, rest, false))
    (hc : isCommand ch = true)
    (hspoken : spoken lines' = ((ch :: input).length, some ch) :: spoken lines) :
    HeardIff (ch :: input) lines' ok := by
  intro stack hstack
  cases stack with
  | nil => exact absurd hstack (Nat.not_succ_le_zero _)
  | cons locals stack =>
      obtain ⟨scanned, hscanned⟩ := hread locals
      rw [heard_command hscanned hc, hspoken, List.cons_inj_right]
      exact h stack (hlen.trans (Nat.le_of_succ_le_succ hstack))

section
variable {line : Line} {lines : List Line} {ch : UInt8} {cs : List UInt8}

theorem le_of_mem_spoken {x : Nat × Option UInt8} (h : x ∈ spoken lines) :
    x.1 ≤ (Line.typed lines).length := by
  induction lines with
  | nil => exact absurd h List.not_mem_nil
  | cons line lines ih =>
      have hle : (Line.typed lines).length ≤ (Line.typed (line :: lines)).length := by
        rw [Line.typed, List.length_append, List.length_cons]
        omega
      rw [spoken] at h
      split at h
      · exact (ih h).trans hle
      · split at h
        · exact Nat.le_of_eq (congrArg Prod.fst (List.mem_singleton.mp h))
        · split at h
          · rcases List.mem_cons.mp h with rfl | h
            · exact Nat.le_refl _
            · exact (ih h).trans hle
          · exact (ih h).trans hle

theorem spoken_nil (h : line.bytes = []) : spoken (line :: lines) = spoken lines := by
  simp [spoken, h]

theorem spoken_cons (h : line.bytes = ch :: cs) : spoken (line :: lines) =
    if isQuit ch then [((Line.typed (line :: lines)).length, none)]
    else if isCommand ch then ((Line.typed (line :: lines)).length, some ch) :: spoken lines
    else spoken lines := by
  simp [spoken, h]

theorem typed_cons (h : line.bytes = ch :: cs) (lines : List Line) :
    Line.typed (line :: lines) = ch :: (cs ++ newline :: Line.typed lines) := by
  rw [Line.typed, h]
  rfl

theorem notMem_of_cons (h : line.bytes = ch :: cs) : newline ∉ cs :=
  fun hm => line.newline_notMem (h ▸ List.mem_cons_of_mem _ hm)

/-! ## In the middle of a line -/

theorem getLast?_typed (hne : lines ≠ []) : (Line.typed lines).getLast? = some newline := by
  induction lines with
  | nil => exact absurd rfl hne
  | cons line lines ih =>
      cases lines with
      | nil => exact List.getLast?_concat
      | cons line' lines =>
          rw [Line.typed, List.getLast?_append, List.getLast?_cons, ih (List.cons_ne_nil _ _)]
          rfl

theorem spoken_of_lt (h : ∀ b ∈ Line.typed lines, b.toNat < 66) : spoken lines = [] := by
  induction lines with
  | nil => rfl
  | cons line lines ih =>
      have ih := ih fun b hb => h b (List.mem_append_right _ (List.mem_cons_of_mem _ hb))
      cases hbytes : line.bytes with
      | nil => rw [spoken_nil hbytes, ih]
      | cons ch cs =>
          have hlt := h ch (by rw [typed_cons hbytes]; exact List.mem_cons_self)
          have hq : ¬ isQuit ch = true := fun hq =>
            absurd (letter_of_isCommand (.inr hq)) (Nat.not_le.mpr hlt)
          have hc : ¬ isCommand ch = true := fun hc =>
            absurd (letter_of_isCommand (.inl hc)) (Nat.not_le.mpr hlt)
          rw [spoken_cons hbytes, if_neg hq, if_neg hc, ih]

/-- If `getParams` waits for numbers, no letter stands behind: the scan has used up all
there was. -/
theorem spoken_of_waits (hcs : newline ∉ cs) (h : Waits cs lines) : spoken lines = [] := by
  obtain ⟨before, hbefore⟩ : ∃ before,
      (flushInput (cs ++ newline :: Line.typed lines)).1 = before ++ Line.typed lines := by
    rw [flushInput_stop hcs]
    cases afterStop cs with
    | none => exact ⟨[], rfl⟩
    | some u => exact ⟨u ++ [newline], List.append_cons ..⟩
  rw [Waits, hbefore] at h
  by_cases hne : lines = []
  · rw [hne]
    rfl
  · obtain ⟨used, hused, hlt⟩ := Terminal.scanInts_used ⟨0, 0⟩ (before ++ Line.typed lines)
    have hrest : newline ∉ (Terminal.scanInts ⟨0, 0⟩ (before ++ Line.typed lines)).2 :=
      Terminal.newline_notMem_of_flushInput h
    generalize (Terminal.scanInts ⟨0, 0⟩ (before ++ Line.typed lines)).2 = rest at hused hrest
    have hlast := congrArg List.getLast? hused
    rw [List.getLast?_append, getLast?_typed hne, List.getLast?_append] at hlast
    obtain rfl : rest = [] := by
      by_contra hrest'
      rw [List.getLast?_eq_some_getLast hrest'] at hlast
      exact hrest (List.mem_of_getLast? ((List.getLast?_eq_some_getLast hrest').trans hlast.symm))
    refine spoken_of_lt fun b hb => hlt b ?_
    rw [List.append_nil] at hused
    rw [← hused]
    exact List.mem_append_right _ hb

theorem heardIff_letter (hc : (isCommand ch || isQuit ch) = true) (hcs : newline ∉ cs) :
    HeardIff (ch :: (cs ++ newline :: Line.typed lines)) lines
      ((Behind.letter ch cs).Goes lines) := by
  intro stack hstack
  have hne (said : Option UInt8) (more : List (Nat × Option UInt8)) :
      ((ch :: (cs ++ newline :: Line.typed lines)).length, said) :: more ≠ spoken lines := by
    intro h
    have hle := @le_of_mem_spoken lines _ (h ▸ List.mem_cons_self)
    simp only [List.length_cons, List.length_append] at hle
    omega
  cases stack with
  | nil => exact absurd hstack (Nat.not_succ_le_zero _)
  | cons locals stack =>
      cases hm : isMove ch with
      | false =>
          have hread := readCommand_other hm hcs (Line.typed lines) locals
          refine iff_of_false ?_ fun h => Bool.false_ne_true (hm.symm.trans h.1)
          cases hq : isQuit ch with
          | true =>
              rw [heard_quit hread hq]
              exact hne _ _
          | false =>
              rw [hq, Bool.or_false] at hc
              rw [heard_command hread hc]
              exact hne _ _
      | true =>
          have hended (locals : Locals) :
              (readCommand locals (ch :: (cs ++ newline :: Line.typed lines))).2.2.2 =
                (Terminal.getParams ⟨0, 0⟩ (flushInput (cs ++ newline :: Line.typed lines)).1).2.2 := by
            rw [readCommand_cons, if_pos hm, getParams_snd ⟨0, 0⟩ locals.params]
            show ((flushInput _).2 || _) = _
            rw [flushInput_stop hcs, Bool.false_or]
          by_cases hw : Waits cs lines
          · rw [heard_waits (fun locals => (hended locals).trans hw), spoken_of_waits hcs hw]
            exact iff_of_true rfl ⟨hm, hw⟩
          · refine iff_of_false ?_ fun h => hw h.2
            have hread : readCommand locals (ch :: (cs ++ newline :: Line.typed lines)) =
                (ch, (readCommand locals (ch :: (cs ++ newline :: Line.typed lines))).2.1,
                  (readCommand locals (ch :: (cs ++ newline :: Line.typed lines))).2.2.1, false) := by
              have hletter :
                  (readCommand locals (ch :: (cs ++ newline :: Line.typed lines))).1 = ch := by
                rw [readCommand_cons, if_pos hm]
              refine Prod.ext hletter (Prod.ext rfl (Prod.ext rfl ?_))
              exact (hended locals).trans (Bool.eq_false_iff.mpr hw)
            rw [heard_command hread (isCommand_of_isMove hm).1]
            exact hne _ _

theorem heardIff_behind (h₀ : HeardIff (Line.typed lines) lines (Unswallowed false lines))
    (h₁ : HeardIff (newline :: Line.typed lines) lines (Unswallowed true lines))
    {u : List UInt8} (hu : newline ∉ u) :
    HeardIff (flushInput (u ++ newline :: Line.typed lines)).1 lines ((behind true u).Goes lines) ∧
      HeardIff (u ++ newline :: Line.typed lines) lines ((behind false u).Goes lines) := by
  induction u with
  | nil =>
      rw [flushInput_stop hu]
      exact ⟨h₀, h₁⟩
  | cons c u ih =>
      have hc : c ≠ newline := fun e => hu (e ▸ List.mem_cons_self)
      have hu' : newline ∉ u := fun hm => hu (List.mem_cons_of_mem _ hm)
      obtain ⟨hflush, hread⟩ := ih hu'
      constructor
      · by_cases he : c = eofChar
        · subst he
          exact hread
        · rw [List.cons_append, Terminal.flushInput_cons_of_ne hc he, behind, decide_eq_true he]
          exact hflush
      · rw [behind]
        split
        · rename_i hletter
          exact heardIff_letter hletter hu'
        · rename_i hletter
          obtain ⟨hcommand, hquit⟩ := Bool.or_eq_false_iff.mp (Bool.eq_false_iff.mpr hletter)
          have hm : isMove c = false := by
            by_contra hm
            exact nomatch (isCommand_of_isMove (Bool.not_eq_false _ ▸ hm)).1.symm.trans hcommand
          exact hflush.neither (Terminal.flushInput_suffix _).length_le
            (fun locals => ⟨_, readCommand_other hm hu' _ locals⟩) hquit hcommand rfl

/-! ## From line to line -/

theorem heardIff_start (hm : ∀ ch, line.bytes.head? = some ch → isMove ch = false)
    (h₀ : HeardIff (Line.typed lines) lines (Unswallowed false lines))
    (h₁ : HeardIff (newline :: Line.typed lines) lines (Unswallowed true lines)) :
    HeardIff (Line.typed (line :: lines)) (line :: lines) (Unswallowed false (line :: lines)) := by
  cases hbytes : line.bytes with
  | nil =>
      have htyped : Line.typed (line :: lines) = newline :: Line.typed lines := by
        rw [Line.typed, hbytes]
        rfl
      intro stack hstack
      rw [htyped] at hstack ⊢
      rw [unswallowed_nil hbytes, spoken_nil hbytes]
      exact h₁ stack hstack
  | cons ch cs =>
      have hm := hm ch (by rw [hbytes]; rfl)
      have hcs := notMem_of_cons hbytes
      have hflush := (heardIff_behind h₀ h₁ hcs).1
      have hlen := (Terminal.flushInput_suffix (cs ++ newline :: Line.typed lines)).length_le
      have hread (locals : Locals) := readCommand_other hm hcs (Line.typed lines) locals
      have hgoes : readLine ch cs = behind true cs := if_neg (ne_true_of_eq_false hm)
      have hspoken := @spoken_cons line lines ch cs hbytes
      rw [typed_cons hbytes] at hspoken ⊢
      cases hq : isQuit ch with
      | true =>
          rw [hq, if_pos rfl] at hspoken
          refine HeardIff.of_iff (fun stack hstack => ?_)
            ((unswallowed_false hbytes).trans (or_iff_left_of_imp fun _ => hq)).symm
          cases stack with
          | nil => exact absurd hstack (Nat.not_succ_le_zero _)
          | cons locals stack =>
              rw [heard_quit (hread locals) hq, hspoken]
              exact iff_of_true rfl hq
      | false =>
          rw [hq, if_neg Bool.false_ne_true] at hspoken
          refine HeardIff.of_iff ?_ ((unswallowed_false hbytes).trans
            (or_iff_right (ne_true_of_eq_false hq))).symm
          rw [hgoes]
          cases hc : isCommand ch with
          | true =>
              rw [hc, if_pos rfl] at hspoken
              exact hflush.command hlen (fun locals => ⟨_, hread locals⟩) hc hspoken
          | false =>
              rw [hc, if_neg Bool.false_ne_true] at hspoken
              exact hflush.neither hlen (fun locals => ⟨_, hread locals⟩) hq hc hspoken

/-- **An empty line** takes the next with it, or as much as `flushInput` does. -/
theorem heardIff_swallowed
    (h₀ : HeardIff (Line.typed lines) lines (Unswallowed false lines))
    (h₁ : HeardIff (newline :: Line.typed lines) lines (Unswallowed true lines)) :
    HeardIff (newline :: Line.typed (line :: lines)) (line :: lines)
      (Unswallowed true (line :: lines)) := by
  have hline := line.newline_notMem
  have hread (locals : Locals) :
      readCommand locals (newline :: Line.typed (line :: lines)) =
        (newline, locals.params, (flushInput (Line.typed (line :: lines))).1, false) :=
    readCommand_other rfl hline _ locals
  have hlen := (Terminal.flushInput_suffix (Line.typed (line :: lines))).length_le
  have hflush : HeardIff (flushInput (Line.typed (line :: lines))).1 lines
      ((behind true line.bytes).Goes lines) := (heardIff_behind h₀ h₁ hline).1
  cases hbytes : line.bytes with
  | nil =>
      rw [hbytes] at hflush
      exact (hflush.neither hlen (fun locals => ⟨_, hread locals⟩) rfl rfl
        (spoken_nil hbytes)).of_iff (unswallowed_nil hbytes true).symm
  | cons ch cs =>
      have hspoken := @spoken_cons line lines ch cs hbytes
      by_cases hletter : isQuit ch = false ∧ isCommand ch = false
      · rw [hletter.1, hletter.2] at hspoken
        rw [hbytes] at hflush
        refine (hflush.neither hlen (fun locals => ⟨_, hread locals⟩) rfl rfl hspoken).of_iff ?_
        rw [unswallowed_true hbytes, and_iff_right hletter.1, and_iff_right hletter.2]
      · -- what the line says was read at no position that is left
        refine fun stack hstack => iff_of_false (fun h => ?_) fun h =>
          hletter ⟨((unswallowed_true hbytes).mp h).1, ((unswallowed_true hbytes).mp h).2.1⟩
        obtain ⟨said, hmem⟩ : ∃ said,
            ((Line.typed (line :: lines)).length, said) ∈ spoken (line :: lines) := by
          rw [hspoken]
          cases hq : isQuit ch with
          | true => exact ⟨none, List.mem_cons_self⟩
          | false =>
              cases hc : isCommand ch with
              | true => exact ⟨some ch, List.mem_cons_self⟩
              | false => exact absurd ⟨hq, hc⟩ hletter
        cases stack with
        | nil => exact absurd hstack (Nat.not_succ_le_zero _)
        | cons locals stack =>
            rw [← h, heard_neither (hread locals) rfl rfl] at hmem
            have hle := fst_le_of_mem_heard hmem
            rw [Keyboard.typing, typed_cons hbytes, List.length_cons] at hle
            exact absurd (hle.trans (length_flushInput_cons ..)) (Nat.not_succ_le_self _)

theorem silent_of_twoIntegers {params : Line} (hp : Terminal.TwoIntegers params.bytes) :
    (∀ b ∈ params.bytes, b ≠ newline ∧ b ≠ eofChar) ∧
      (∀ ch, params.bytes.head? = some ch → isMove ch = false) ∧
      spoken (params :: lines) = spoken lines ∧
      (Unswallowed false (params :: lines) ↔ Unswallowed false lines) := by
  have hlt := hp.lt_of_mem
  have hletter (c : UInt8) (hc : c ∈ params.bytes) : isCommand c = false ∧ isQuit c = false := by
    constructor
    · by_contra h
      exact absurd (letter_of_isCommand (.inl (Bool.not_eq_false _ ▸ h))) (Nat.not_le.mpr (hlt c hc))
    · by_contra h
      exact absurd (letter_of_isCommand (.inr (Bool.not_eq_false _ ▸ h))) (Nat.not_le.mpr (hlt c hc))
  have hstop (c : UInt8) (hc : c ∈ params.bytes) : c ≠ eofChar := by
    rintro rfl
    exact absurd (hlt _ hc) (by decide)
  have hmove (c : UInt8) (hc : c ∈ params.bytes) : isMove c = false := by
    by_contra h
    have hcommand := (isCommand_of_isMove (Bool.not_eq_false _ ▸ h)).1
    exact nomatch hcommand.symm.trans (hletter c hc).1
  refine ⟨fun b hb => ⟨fun e => params.newline_notMem (e ▸ hb), hstop b hb⟩,
    fun ch h => hmove ch (List.mem_of_mem_head? h), ?_⟩
  cases hbytes : params.bytes with
  | nil => exact absurd hbytes hp.ne_nil
  | cons c w =>
      have hc : c ∈ params.bytes := hbytes ▸ List.mem_cons_self
      have hbehind : behind true w = .line false := by
        have hw : ∀ b ∈ w, b ≠ eofChar := fun b hb => hstop b (hbytes ▸ List.mem_cons_of_mem _ hb)
        clear hbytes
        induction w with
        | nil => rfl
        | cons b w ih =>
            rw [behind, decide_eq_true (hw b List.mem_cons_self)]
            exact ih fun d hd => hw d (List.mem_cons_of_mem _ hd)
      constructor
      · rw [spoken_cons hbytes, (hletter c hc).1, (hletter c hc).2]
        rfl
      · rw [unswallowed_false hbytes, readLine, if_neg (ne_true_of_eq_false (hmove c hc)), hbehind,
          (hletter c hc).2]
        exact or_iff_right Bool.false_ne_true

theorem heardIff_move {params : Line} (hbytes : line.bytes = ch :: cs) (hm : isMove ch = true)
    (hp : Terminal.TwoIntegers params.bytes)
    (h₀ : HeardIff (Line.typed lines) lines (Unswallowed false lines))
    (hp₀ : HeardIff (Line.typed (params :: lines)) (params :: lines)
      (Unswallowed false (params :: lines)))
    (hp₁ : HeardIff (newline :: Line.typed (params :: lines)) (params :: lines)
      (Unswallowed true (params :: lines))) :
    HeardIff (Line.typed (line :: params :: lines)) (line :: params :: lines)
      (Unswallowed false (line :: params :: lines)) := by
  obtain ⟨hcommand, hquit⟩ := isCommand_of_isMove hm
  obtain ⟨hline, -, hsaid, hsilent⟩ := @silent_of_twoIntegers lines params hp
  have hcs := notMem_of_cons hbytes
  have hspoken := @spoken_cons line (params :: lines) ch cs hbytes
  rw [hquit, hcommand, if_neg Bool.false_ne_true, if_pos rfl] at hspoken
  have hP : Line.typed (params :: lines) = params.bytes ++ newline :: Line.typed lines := rfl
  -- the scan ends in the line of parameters, and `flushInput` takes the rest
  have hends {gap : List UInt8} (hgap : gap <:+ params.bytes) :
      flushInput (gap ++ newline :: Line.typed lines) = (Line.typed lines, false) :=
    Terminal.flushInput_line (fun b hb => hline b (hgap.subset hb)) _
  have hnext : HeardIff (Line.typed lines) (params :: lines)
      (Unswallowed false (params :: lines)) := by
    intro stack hstack
    rw [hsaid, hsilent]
    exact h₀ stack hstack
  obtain ⟨between, rest, hflush, hscan, hlen, hrest⟩ : ∃ between rest,
      flushInput (cs ++ newline :: Line.typed (params :: lines)) = (between, false) ∧
      (∀ params, flushInput (Terminal.scanInts params between).2 = (rest, false)) ∧
      rest.length ≤ (cs ++ newline :: Line.typed (params :: lines)).length ∧
      HeardIff rest (params :: lines) ((readLine ch cs).Goes (params :: lines)) := by
    rw [readLine, if_pos hm, flushInput_stop hcs]
    have hlong : (Line.typed lines).length ≤
        (cs ++ newline :: Line.typed (params :: lines)).length := by
      rw [hP]
      simp only [List.length_append, List.length_cons]
      omega
    cases hu : afterStop cs with
    | none =>
        obtain ⟨-, gap, hgap, hline⟩ := hp.scanned (Line.typed lines)
        refine ⟨_, _, rfl, fun p => ?_, hlong, hnext⟩
        rw [Option.map_none, Option.getD_none, hP, hline, hends hgap]
    | some u =>
        have hsuffix := afterStop_suffix hu
        rcases Terminal.unscanned_iff u with ⟨w, hw, hwu, hscan⟩ | ⟨hnone, hscan⟩
        · have hw' : newline ∉ w := fun hm => hcs ((hwu.trans hsuffix).subset hm)
          refine ⟨_, (flushInput (w ++ newline :: Line.typed (params :: lines))).1, rfl,
            fun p => ?_, ?_, ?_⟩
          · rw [Option.map_some, Option.getD_some, hscan, flushInput_stop hw']
          · have h₁ := (Terminal.flushInput_suffix
              (w ++ newline :: Line.typed (params :: lines))).length_le
            have h₂ := (hwu.trans hsuffix).length_le
            rw [List.length_append] at h₁ ⊢
            omega
          · rw [Option.bind_some, hw]
            exact (heardIff_behind hp₀ hp₁ hw').1
        · refine ⟨_, _, rfl, fun p => ?_, hlong, ?_⟩
          · obtain ⟨gap, hgap, hline⟩ := hscan p _ hp (Line.typed lines)
            rw [Option.map_some, Option.getD_some, hP, hline, hends hgap]
          · rw [Option.bind_some, hnone]
            exact hnext
  refine HeardIff.of_iff ?_ ((unswallowed_false hbytes).trans
    (or_iff_right (ne_true_of_eq_false hquit))).symm
  rw [typed_cons hbytes] at hspoken ⊢
  exact hrest.command hlen (readCommand_move hm hflush hscan) hcommand hspoken

end

theorem heardIff_typed {lines : List Line} (h : Typable lines) :
    HeardIff (Line.typed lines) lines (Unswallowed false lines) ∧
      HeardIff (newline :: Line.typed lines) lines (Unswallowed true lines) := by
  induction h with
  | nil =>
      constructor
      · refine fun stack _ => iff_of_true (heard_waits (fun locals => ?_) stack) trivial
        rw [Line.typed, readCommand_nil]
      · exact fun stack _ => iff_of_true (heard_waits (fun _ => rfl) stack) trivial
  | @move line params lines ch hhead hm hp _ ih =>
      obtain ⟨-, hother, -⟩ := @silent_of_twoIntegers lines params hp
      have hp₀ := heardIff_start hother ih.1 ih.2
      have hp₁ := @heardIff_swallowed params lines ih.1 ih.2
      obtain ⟨cs, hbytes⟩ := List.head?_eq_some_iff.mp hhead
      exact ⟨heardIff_move hbytes hm hp ih.1 hp₀ hp₁, heardIff_swallowed hp₀ hp₁⟩
  | @other line lines hm _ ih => exact ⟨heardIff_start hm ih.1 ih.2, heardIff_swallowed ih.1 ih.2⟩

/-- **Lines.**  The commands passed to `sendData` are the first characters of the lines, in
order and up to the first that quits, exactly if each of these is read from its start and no
other letter is read. -/
theorem lines_heard_iff {lines : List Line} (h : Typable lines) {stack : List Locals}
    (hstack : (Line.typed lines).length ≤ stack.length) :
    heard (.typing (Line.typed lines)) stack = spoken lines ↔ Unswallowed false lines :=
  (heardIff_typed h).1 stack hstack

/-- `s` -/
def Line.stop : Line := ⟨[115], by decide⟩

def Line.empty : Line := ⟨[], by decide⟩

theorem typable_stop : Typable [.stop] := by
  refine .other (fun ch h => ?_) .nil
  cases h
  rfl

/-- STOP alone. -/
theorem lines_heard_iff_stop :
    heard (.typing (Line.typed [.stop])) [⟨0, ⟨0, 0⟩⟩, ⟨0, ⟨0, 0⟩⟩] = spoken [.stop] ↔
      Unswallowed false [.stop] :=
  lines_heard_iff typable_stop (by decide)

/-- STOP behind an empty line is not heard. -/
theorem stop_swallowed :
    Typable [.empty, .stop] ∧
      heard (.typing (Line.typed [.empty, .stop])) [⟨0, ⟨0, 0⟩⟩, ⟨0, ⟨0, 0⟩⟩, ⟨0, ⟨0, 0⟩⟩] ≠
        spoken [.empty, .stop] := by
  refine ⟨.other (fun ch h => nomatch h) typable_stop, fun h => ?_⟩
  exact absurd h (by decide)

end Alex
