/-
# `Alex.Ticks` — every edge is booked, and booked once

Each tick counter stands for an encoder and a direction:

                  forward             backward            left                    right
    left wheel    leftForwardTicks    leftReverseTicks    leftReverseTicksTurns   leftForwardTicksTurns
    right wheel   rightForwardTicks   rightReverseTicks   rightForwardTicksTurns  rightReverseTicksTurns

In a turn one wheel goes backward and the other forward, so that there the names of the
two rows differ.

The edges come wherever the program is, also between two assignments of
`clearCounters()`.  Each counter therefore has a last clear of its own, the assignment
that has cleared it last; and each COMMAND_CLEAR_STATS clears each counter, once.
-/
import Alex.Statements
import Alex.Stops

namespace Alex

/-! ## What the counters stand for -/

/-- The encoder whose edges a counter counts. -/
def Counter.encoder : Counter → Encoder
  | .leftForwardTicks | .leftReverseTicks | .leftForwardTicksTurns | .leftReverseTicksTurns =>
      .left
  | .rightForwardTicks | .rightReverseTicks | .rightForwardTicksTurns
  | .rightReverseTicksTurns => .right

def Counter.dir : Counter → TDirection
  | .leftForwardTicks | .rightForwardTicks => .forward
  | .leftReverseTicks | .rightReverseTicks => .backward
  | .leftReverseTicksTurns | .rightForwardTicksTurns => .left
  | .leftForwardTicksTurns | .rightReverseTicksTurns => .right

/-- The edges a counter is to show: those of its encoder in its direction since it was
cleared last. -/
def Counter.edges (c : Counter) (history : List Happening) : Nat :=
  Mealy.countSince (.cleared c) (.edge c.encoder c.dir) history

def Happening.isMovement : Happening → Bool
  | .did e => e.isMovement
  | .edge _ _ | .cleared _ => false

def Happening.isClear : Happening → Bool
  | .did e => e.isClear
  | .edge _ _ | .cleared _ => false

theorem Counter.eq_of_encoder_dir {c c' : Counter} (he : c.encoder = c'.encoder)
    (hd : c.dir = c'.dir) : c = c' := by
  revert he hd
  cases c <;> cases c' <;> decide

theorem exists_counter (encoder : Encoder) {dir : TDirection} (h : dir ≠ .stop) :
    ∃ c : Counter, c.encoder = encoder ∧ c.dir = dir := by
  cases encoder with
  | left =>
      cases dir with
      | forward => exact ⟨.leftForwardTicks, rfl, rfl⟩
      | backward => exact ⟨.leftReverseTicks, rfl, rfl⟩
      | left => exact ⟨.leftReverseTicksTurns, rfl, rfl⟩
      | right => exact ⟨.leftForwardTicksTurns, rfl, rfl⟩
      | stop => exact absurd rfl h
  | right =>
      cases dir with
      | forward => exact ⟨.rightForwardTicks, rfl, rfl⟩
      | backward => exact ⟨.rightReverseTicks, rfl, rfl⟩
      | left => exact ⟨.rightForwardTicksTurns, rfl, rfl⟩
      | right => exact ⟨.rightReverseTicksTurns, rfl, rfl⟩
      | stop => exact absurd rfl h

theorem get_clear (r : Robot) (c c' : Counter) :
    c'.get (c.clear r) = if c = c' then 0 else c'.get r := by
  cases c <;> cases c' <;> rfl

theorem dir_clear (r : Robot) (c : Counter) : (c.clear r).dir = r.dir := by
  cases c <;> rfl

theorem get_congr {r r' : Robot} (h : r'.ticks = r.ticks) (c : Counter) :
    c.get r' = c.get r := by
  simp only [Robot.ticks, Robot.status, List.take_succ_cons, List.take_zero, List.cons.injEq,
    and_true] at h
  cases c <;> simp only [Counter.get, h]

/-! ## What an edge does -/

/-- **Step.**  An edge adds one to the counter that stands for it, and to no other. -/
theorem get_isr (encoder : Encoder) (s : Firmware) (c : Counter) :
    c.get (isr encoder s).1.robot =
      if c.encoder = encoder ∧ c.dir = s.robot.dir then c.get s.robot + 1
      else c.get s.robot := by
  cases encoder with
  | left =>
      show c.get s.robot.leftISR = _
      rw [Robot.leftISR]
      cases s.robot.dir <;> cases c <;> rfl
  | right =>
      show c.get s.robot.rightISR = _
      rw [Robot.rightISR]
      cases s.robot.dir <;> cases c <;> rfl

theorem dir_isr (encoder : Encoder) (s : Firmware) :
    (isr encoder s).1.robot.dir = s.robot.dir := by
  cases encoder with
  | left => exact (s.robot.leftISR_frame .stop).1
  | right => exact (s.robot.rightISR_frame .stop).1

theorem event_isr (encoder : Encoder) (s : Firmware) :
    (isr encoder s).2 = some (.edge encoder s.robot.dir) := by
  cases encoder <;> rfl

/-! ## What a statement does -/

/-- A statement that touches no counter: it leads no robot back to STOP, and what is done
with it is no clearing, and no movement unless the robot then has a direction. -/
structure Quiet (f : Firmware → Firmware) (e : Firmware → Option Happening) : Prop where
  counters : ∀ s, ∀ c : Counter, c.get (f s).robot = c.get s.robot
  dir : ∀ s, s.robot.dir ≠ .stop → (f s).robot.dir ≠ .stop
  event : ∀ s x, e s = some x → ∃ did, x = .did did ∧ did.isClear = false ∧
    (did.isMovement = true → (f s).robot.dir ≠ .stop)

theorem quiet_id : Quiet id fun _ => none where
  counters _ _ := rfl
  dir _ h := h
  event _ _ h := nomatch h

theorem quiet_assign {f : Robot → Robot} (hticks : ∀ r, (f r).ticks = r.ticks)
    (hdir : ∀ r, (f r).dir = r.dir) : (assign f).Every Quiet :=
  Program.every_stmt
    { counters := fun s => get_congr (hticks s.robot)
      dir := fun s h => (hdir s.robot).trans_ne h
      event := fun _ _ h => nomatch h }

theorem quiet_doing {e : Event} (hc : e.isClear = false) (hm : e.isMovement = false) :
    (doing e).Every Quiet :=
  Program.every_stmt
    { counters := fun _ _ => rfl
      dir := fun _ h => h
      event := fun _ _ h =>
        ⟨e, (Option.some.inj h).symm, hc, fun h => nomatch hm.symm.trans h⟩ }

theorem quiet_assignDir (e : Event) (hc : e.isClear = false) {dir : TDirection}
    (hdir : dir ≠ .stop) : (assignDoing e fun r => { r with dir := dir }).Every Quiet :=
  Program.every_stmt
    { counters := fun _ c => by cases c <;> rfl
      dir := fun _ _ => hdir
      event := fun _ _ h => ⟨e, (Option.some.inj h).symm, hc, fun _ => hdir⟩ }

theorem quiet_analogWrite (port : MotorPin) (val : Nat) : (analogWriteCode port val).Every Quiet :=
  quiet_assign (fun _ => rfl) fun _ => rfl

theorem quiet_test {c : Robot → Prop} [DecidablePred c] {p q : Code} (hp : p.Every Quiet)
    (hq : q.Every Quiet) : (test c p q).Every Quiet :=
  Program.every_ite quiet_id hp hq

theorem quiet_movement {f g : Robot → Robot} {e : Event} {dir : TDirection}
    {p₁ p₂ p₃ p₄ : MotorPin} {v₁ v₂ v₃ v₄ : Nat} (hc : e.isClear = false) (hdir : dir ≠ .stop)
    (hf : (assign f).Every Quiet) (hg : (assign g).Every Quiet) :
    (Program.block [assign f, assign g, assignDoing e fun r => { r with dir := dir },
      analogWriteCode p₁ v₁, analogWriteCode p₂ v₂, analogWriteCode p₃ v₃,
      analogWriteCode p₄ v₄]).Every Quiet := by
  refine Program.every_block fun p hp => ?_
  simp only [List.mem_cons, List.not_mem_nil, or_false] at hp
  rcases hp with rfl | rfl | rfl | rfl | rfl | rfl | rfl
  · exact hf
  · exact hg
  · exact quiet_assignDir e hc hdir
  all_goals exact quiet_analogWrite ..

theorem quiet_forward (p0 p1 : UInt32) : (forwardCode p0 p1).Every Quiet :=
  quiet_movement rfl TDirection.noConfusion (quiet_assign (fun _ => rfl) fun _ => rfl)
    (quiet_assign (fun _ => rfl) fun _ => rfl)

theorem quiet_reverse (p0 p1 : UInt32) : (reverseCode p0 p1).Every Quiet :=
  quiet_movement rfl TDirection.noConfusion (quiet_assign (fun _ => rfl) fun _ => rfl)
    (quiet_assign (fun _ => rfl) fun _ => rfl)

theorem quiet_left (p0 p1 : UInt32) : (leftCode p0 p1).Every Quiet :=
  quiet_movement rfl TDirection.noConfusion (quiet_assign (fun _ => rfl) fun _ => rfl)
    (quiet_assign (fun _ => rfl) fun _ => rfl)

theorem quiet_right (p0 p1 : UInt32) : (rightCode p0 p1).Every Quiet :=
  quiet_movement rfl TDirection.noConfusion (quiet_assign (fun _ => rfl) fun _ => rfl)
    (quiet_assign (fun _ => rfl) fun _ => rfl)

theorem quiet_stop : stopCode.Every Quiet := by
  refine Program.every_block fun p hp => ?_
  simp only [List.mem_cons, List.not_mem_nil, or_false] at hp
  rcases hp with rfl | rfl | rfl | rfl <;> exact quiet_analogWrite ..

theorem quiet_readColor (redLight greenLight : UInt16) :
    (readColorCode redLight greenLight).Every Quiet := by
  refine Program.every_block fun p hp => ?_
  simp only [List.mem_cons, List.not_mem_nil, or_false] at hp
  rcases hp with rfl | rfl <;> exact quiet_assign (fun _ => rfl) fun _ => rfl

theorem quiet_endMove (dir : TDirection) : (endMove dir).Every Quiet := by
  refine Program.every_block fun p hp => ?_
  simp only [List.mem_cons, List.not_mem_nil, or_false] at hp
  rcases hp with rfl | rfl | rfl | rfl
  · exact quiet_doing rfl rfl
  · exact quiet_assign (fun _ => rfl) fun _ => rfl
  · exact quiet_assign (fun _ => rfl) fun _ => rfl
  · exact quiet_stop

theorem quiet_endTurn (dir : TDirection) : (endTurn dir).Every Quiet := by
  refine Program.every_block fun p hp => ?_
  simp only [List.mem_cons, List.not_mem_nil, or_false] at hp
  rcases hp with rfl | rfl | rfl | rfl
  · exact quiet_doing rfl rfl
  · exact quiet_stop
  · exact quiet_assign (fun _ => rfl) fun _ => rfl
  · exact quiet_assign (fun _ => rfl) fun _ => rfl

theorem quiet_check : checkCode.Every Quiet := by
  have hdone : (Program.done : Code).Every Quiet := trivial
  refine Program.every_block fun p hp => ?_
  simp only [List.mem_cons, List.not_mem_nil, or_false] at hp
  rcases hp with rfl | rfl | rfl
  · exact quiet_test (quiet_test (quiet_test (quiet_endMove _) hdone)
      (quiet_test (quiet_test (quiet_endMove _) hdone) hdone)) hdone
  · exact quiet_test (quiet_test (quiet_test (quiet_endTurn _) hdone)
      (quiet_test (quiet_test (quiet_endTurn _) hdone)
        (quiet_test (quiet_endMove _) hdone))) hdone
  · exact quiet_test (quiet_doing rfl rfl) hdone

theorem quiet_handleCommand {input : LoopInput} {command : TPacket}
    (h : TCommandType.ofCode? command.command ≠ some .clearStats) :
    (handleCommandCode input command).Every Quiet := by
  have hok : (doing (.sent (sendOK input.first))).Every Quiet := quiet_doing rfl rfl
  have hmovement {p : Code} (hp : p.Every Quiet) :
      (Program.block [doing (.sent (sendOK input.first)), p]).Every Quiet :=
    hok.seq (hp.seq trivial)
  rw [handleCommandCode]
  cases hcode : TCommandType.ofCode? command.command with
  | none => exact quiet_doing rfl rfl
  | some c =>
      cases c with
      | forward => exact hmovement (quiet_forward ..)
      | reverse => exact hmovement (quiet_reverse ..)
      | turnLeft => exact hmovement (quiet_left ..)
      | turnRight => exact hmovement (quiet_right ..)
      | stop =>
          exact hok.seq (quiet_stop.seq ((quiet_readColor ..).seq
            ((quiet_doing rfl rfl).seq trivial)))
      | getStats =>
          exact (Program.every_evals quiet_id fun _ => quiet_doing rfl rfl).seq
            ((quiet_doing rfl rfl).seq ((quiet_doing rfl rfl).seq trivial))
      | clearStats => exact absurd hcode h

/-! ## The books -/

/-- Each counter shows its edges modulo 2³², and a robot that has been told to move has a
direction. -/
structure Booked (s : Firmware) (history : List Happening) : Prop where
  counters : ∀ c : Counter, (c.get s.robot).toNat = c.edges history % 2 ^ 32
  moving : (∃ x ∈ history, x.isMovement = true) → s.robot.dir ≠ .stop

section
variable (c : Counter) (history : List Happening)

@[simp] theorem edges_did (e : Event) : c.edges (history ++ [.did e]) = c.edges history := by
  rw [Counter.edges, Mealy.countSince_concat, if_neg Happening.noConfusion,
    if_neg Happening.noConfusion]
  rfl

@[simp] theorem edges_cleared (c' : Counter) :
    c.edges (history ++ [.cleared c']) = if c' = c then 0 else c.edges history := by
  simp only [Counter.edges, Mealy.countSince_concat, Happening.cleared.injEq, reduceCtorEq,
    if_false]

@[simp] theorem edges_edge (encoder : Encoder) (dir : TDirection) :
    c.edges (history ++ [.edge encoder dir]) =
      if c.encoder = encoder ∧ c.dir = dir then c.edges history + 1 else c.edges history := by
  simp only [Counter.edges, Mealy.countSince_concat, Happening.edge.injEq, reduceCtorEq,
    if_false, eq_comm]

end

theorem exists_movement_concat {history : List Happening} {x : Happening} :
    (∃ y ∈ history ++ [x], y.isMovement = true) ↔
      (∃ y ∈ history, y.isMovement = true) ∨ x.isMovement = true := by
  simp only [List.mem_append, List.mem_singleton]
  constructor
  · rintro ⟨y, hy | rfl, hmove⟩
    · exact .inl ⟨y, hy, hmove⟩
    · exact .inr hmove
  · rintro (⟨y, hy, hmove⟩ | hmove)
    · exact ⟨y, .inl hy, hmove⟩
    · exact ⟨x, .inr rfl, hmove⟩

theorem Booked.isr {s : Firmware} {history : List Happening} (h : Booked s history)
    (encoder : Encoder) :
    Booked (isr encoder s).1 (history ++ (isr encoder s).2.toList) := by
  rw [event_isr]
  refine ⟨fun c => ?_, fun hmove => ?_⟩
  · rw [get_isr, Option.toList_some, edges_edge]
    split
    · rw [UInt32.toNat_add, h.counters]
      exact Nat.mod_add_mod ..
    · exact h.counters c
  · rw [Option.toList_some, exists_movement_concat] at hmove
    rw [dir_isr]
    exact h.moving (hmove.resolve_right Bool.false_ne_true)

/-- What a statement has to do for the books. -/
def KeepsBooks (f : Firmware → Firmware) (e : Firmware → Option Happening) : Prop :=
  ∀ s history, Booked s history → Booked (f s) (history ++ (e s).toList)

theorem Quiet.keepsBooks {f : Firmware → Firmware} {e : Firmware → Option Happening}
    (h : Quiet f e) : KeepsBooks f e := by
  intro s history hb
  cases he : e s with
  | none =>
      rw [Option.toList_none, List.append_nil]
      refine ⟨fun c => ?_, fun hmove => h.dir s (hb.moving hmove)⟩
      rw [h.counters]
      exact hb.counters c
  | some x =>
      obtain ⟨did, rfl, -, hdir⟩ := h.event s x he
      rw [Option.toList_some]
      refine ⟨fun c => ?_, fun hmove => ?_⟩
      · rw [h.counters, edges_did]
        exact hb.counters c
      · rcases exists_movement_concat.mp hmove with hmove | hmove
        · exact h.dir s (hb.moving hmove)
        · exact hdir hmove

theorem keepsBooks_clear (c : Counter) : (clearCode c).Every KeepsBooks := by
  refine Program.every_stmt fun s history hb => ⟨fun c' => ?_, fun hmove => ?_⟩
  · rw [Option.toList_some, edges_cleared]
    show (c'.get (c.clear s.robot)).toNat = _
    rw [get_clear]
    split
    · rfl
    · exact hb.counters c'
  · rw [Option.toList_some, exists_movement_concat] at hmove
    show (c.clear s.robot).dir ≠ .stop
    rw [dir_clear]
    exact hb.moving (hmove.resolve_right Bool.false_ne_true)

theorem keepsBooks_cleared (p0 p1 : UInt32) :
    (doing (.handled .clearStats p0 p1)).Every KeepsBooks := by
  refine Program.every_stmt fun s history hb => ⟨fun c => ?_, fun hmove => ?_⟩
  · rw [Option.toList_some, edges_did]
    exact hb.counters c
  · rw [Option.toList_some, exists_movement_concat] at hmove
    exact hb.moving (hmove.resolve_right Bool.false_ne_true)

theorem keepsBooks_of_quiet {p : Code} (h : p.Every Quiet) : p.Every KeepsBooks :=
  h.mono fun _ _ hq => hq.keepsBooks

theorem keepsBooks_clearCounters : clearCountersCode.Every KeepsBooks := by
  refine Program.every_block fun p hp => ?_
  simp only [List.mem_cons, List.not_mem_nil, or_false] at hp
  rcases hp with rfl | rfl | rfl | rfl | rfl | rfl | rfl | rfl | rfl | rfl | rfl
  iterate 8 exact keepsBooks_clear _
  all_goals exact keepsBooks_of_quiet (quiet_assign (fun _ => rfl) fun _ => rfl)

/-! ## Clearing -/

/-- What a happening weighs for a counter: that it is cleared against that it should be. -/
def Counter.weight (c : Counter) : Happening → Int
  | .cleared c' => if c' = c then 1 else 0
  | .did e => if e.isClear then -1 else 0
  | .edge _ _ => 0

theorem sum_weight (c : Counter) (history : List Happening) :
    (history.map c.weight).sum =
      history.count (.cleared c) - history.countP Happening.isClear := by
  induction history with
  | nil => rfl
  | cons x history ih =>
      rw [List.map_cons, List.sum_cons, ih, List.count_cons, List.countP_cons]
      cases x with
      | edge encoder dir => simp [Counter.weight, Happening.isClear]
      | cleared c' =>
          by_cases hc : c' = c
          · simp [Counter.weight, Happening.isClear, hc]
            omega
          · simp [Counter.weight, Happening.isClear, hc]
      | did e =>
          cases he : e.isClear with
          | true =>
              simp [Counter.weight, Happening.isClear, he]
              omega
          | false => simp [Counter.weight, Happening.isClear, he]

theorem weighs_of_quiet (c : Counter) {p : Code} (h : p.Every Quiet) : p.Weighs c.weight 0 := by
  refine Program.weighs_zero (h.mono fun f e hq s => ?_)
  cases he : e s with
  | none => rfl
  | some x =>
      obtain ⟨did, rfl, hclear, -⟩ := hq.event s x he
      show (if did.isClear then -1 else 0 : Int) = 0
      rw [hclear]
      rfl

theorem weighs_clearCounters (c : Counter) : clearCountersCode.Weighs c.weight 1 := by
  have hclear (c' : Counter) : (clearCode c').Weighs c.weight (if c' = c then 1 else 0) :=
    @Program.weighs_stmt _ _ c.weight _ (some (.cleared c'))
  have hassign {f : Robot → Robot} : (assign f).Weighs c.weight 0 :=
    @Program.weighs_stmt _ _ c.weight _ none
  have hcode : clearCountersCode.Weighs c.weight _ :=
    (hclear _).seq ((hclear _).seq ((hclear _).seq ((hclear _).seq ((hclear _).seq
      ((hclear _).seq ((hclear _).seq ((hclear _).seq
        (hassign.seq (hassign.seq (hassign.seq rfl))))))))))
  cases c <;> exact hcode

/-- COMMAND_CLEAR_STATS keeps the books, and clears what it should. -/
theorem clearStats_books (first : Stack) (p0 p1 : UInt32) (c : Counter) :
    (Program.block [clearCountersCode, doing (.sent (sendOK first)),
        doing (.handled .clearStats p0 p1)]).Every KeepsBooks ∧
      (Program.block [clearCountersCode, doing (.sent (sendOK first)),
        doing (.handled .clearStats p0 p1)]).Weighs c.weight 0 := by
  have hok : (doing (.sent (sendOK first))).Every Quiet := quiet_doing rfl rfl
  have hhandled : (doing (.handled .clearStats p0 p1)).Weighs c.weight (-1) :=
    @Program.weighs_stmt _ _ c.weight _ (some (.did (.handled .clearStats p0 p1)))
  constructor
  · exact keepsBooks_clearCounters.seq ((keepsBooks_of_quiet hok).seq
      ((keepsBooks_cleared p0 p1).seq trivial))
  · have hdone : (Program.block [] : Code).Weighs c.weight 0 := rfl
    have hcode := (weighs_clearCounters c).seq
      ((weighs_of_quiet c hok).seq (hhandled.seq hdone))
    exact hcode

theorem react_books (input : LoopInput) (result : TResult) (packet : TPacket) (c : Counter) :
    (reactCode input result packet).Every KeepsBooks ∧
      (reactCode input result packet).Weighs c.weight 0 := by
  have hbooks {p : Code} (h : p.Every Quiet) : p.Every KeepsBooks ∧ p.Weighs c.weight 0 :=
    ⟨keepsBooks_of_quiet h, weighs_of_quiet c h⟩
  have hdone : (Program.done : Code).Every Quiet := trivial
  cases result with
  | packetOk =>
      rw [reactCode, handlePacketCode]
      cases TPacketType.ofCode? packet.packetType with
      | none => exact hbooks hdone
      | some t =>
          cases t with
          | command =>
              by_cases hclear : TCommandType.ofCode? packet.command = some .clearStats
              · show (handleCommandCode input packet).Every KeepsBooks ∧
                  (handleCommandCode input packet).Weighs c.weight 0
                rw [handleCommandCode, hclear]
                exact clearStats_books ..
              · exact hbooks (quiet_handleCommand hclear)
          | response => exact hbooks hdone
          | error => exact hbooks hdone
          | message => exact hbooks hdone
          | hello => exact hbooks hdone
  | packetBad => exact hbooks (quiet_doing rfl rfl)
  | packetChecksumBad => exact hbooks (quiet_doing rfl rfl)
  | packetIncomplete => exact hbooks hdone
  | packetComplete => exact hbooks hdone

/-- **Step.**  Each statement of `loop()` keeps the books, and a call of it clears each
counter as often as it handles COMMAND_CLEAR_STATS. -/
theorem loop_books (input : LoopInput) (c : Counter) :
    (loopCode input).Every KeepsBooks ∧ (loopCode input).Weighs c.weight 0 := by
  have hread : Quiet (fun s => { s with uart := (s.readPacket input).1 }) fun _ => none :=
    { counters := fun _ _ => rfl
      dir := fun _ h => h
      event := fun _ _ h => nomatch h }
  constructor
  · exact ⟨hread.keepsBooks, fun s =>
      (react_books input _ _ c).1.seq (keepsBooks_of_quiet quiet_check)⟩
  · intro s
    exact (react_books input _ _ c).2.seq (weighs_of_quiet c quiet_check)

/-- **Tick accounting.**  Wherever `loop()` is interrupted, each counter shows, modulo 2³²,
the edges of its encoder in its direction since it was cleared last; between two calls of
`loop()` it has been cleared as often as COMMAND_CLEAR_STATS has been handled; and once a
movement has been handled, an edge adds one to one counter of its encoder and leaves the
seven others. -/
theorem tick_accounting (vincentCirc : ℚ) (leftover privateMem buffer packet : Nat → UInt8)
    (moments : List (Encoder ⊕ LoopInput)) :
    let start := Firmware.initial vincentCirc leftover privateMem buffer packet
    let s := interrupted.final ⟨start, .done⟩ moments
    let history := interrupted.trace ⟨start, .done⟩ moments
    (∀ c : Counter, (c.get s.state.robot).toNat = c.edges history % 2 ^ 32) ∧
      (s.rest = .done →
        ∀ c : Counter, history.count (.cleared c) = history.countP Happening.isClear) ∧
      ((∃ x ∈ history, x.isMovement = true) → ∀ encoder, ∃ c : Counter, c.encoder = encoder ∧
        ∀ c' : Counter, c'.get (isr encoder s.state).1.robot =
          if c' = c then c'.get s.state.robot + 1 else c'.get s.state.robot) := by
  intro start s history
  have hstart : Booked start [] := by
    refine ⟨fun c => ?_, fun ⟨_, h, _⟩ => absurd h List.not_mem_nil⟩
    cases c <;> rfl
  have hbooked : Booked s.state history :=
    interruptible_invariant (fun encoder _ _ h => h.isr encoder)
      (fun input => (loop_books input .leftForwardTicks).1) hstart moments
  refine ⟨hbooked.counters, fun hdone c => ?_, fun hmove encoder => ?_⟩
  · have hhandler (encoder : Encoder) (s : Firmware) :
        Program.weigh c.weight (isr encoder s).2 = 0 := by
      rw [event_isr]
      rfl
    have hsum := interruptible_weighs hhandler (fun input => (loop_books input c).2) hdone
    have hcount := (sum_weight c history).symm.trans hsum
    omega
  · obtain ⟨c, hencoder, hdir⟩ := exists_counter encoder (hbooked.moving hmove)
    refine ⟨c, hencoder, fun c' => ?_⟩
    rw [get_isr]
    by_cases hc : c' = c
    · rw [if_pos hc, if_pos (by rw [hc]; exact ⟨hencoder, hdir⟩)]
    · rw [if_neg hc, if_neg]
      rintro ⟨hencoder', hdir'⟩
      exact hc (Counter.eq_of_encoder_dir (hencoder'.trans hencoder.symm) (hdir'.trans hdir.symm))

end Alex
