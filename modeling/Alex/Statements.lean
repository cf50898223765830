/-
# `Alex.Statements` — `loop()`, statement by statement

In `Alex.Firmware` a call of `loop()` is one step, and the encoders interrupt between
the calls.  On the board they interrupt wherever `loop()` is.  Here is the same program
as a sequence of statements, in the order of the source, and `interrupted` is the
machine in which an edge of an encoder comes between any two of them.

A statement is atomic, an assignment to four bytes included, and an interrupt handler
is, since the processor does not interrupt it.

Left alone, the statements of `loop()` do what `Firmware.loop` does (`run_loop`), so
each run of `firmware` is a run of `interrupted` (`interrupted_of_firmware`).
-/
import Alex.Firmware
import Alex.Lib.Interrupts

namespace Alex

/-! ## Encoders and counters -/

/-- INT0 is the left encoder's, INT1 the right one's. -/
inductive Encoder where
  | left | right
  deriving DecidableEq, Repr

inductive Counter where
  | leftForwardTicks | rightForwardTicks | leftReverseTicks | rightReverseTicks
  | leftForwardTicksTurns | rightForwardTicksTurns | leftReverseTicksTurns
  | rightReverseTicksTurns
  deriving DecidableEq, Repr

def Counter.get (r : Robot) : Counter → UInt32
  | .leftForwardTicks => r.leftForwardTicks
  | .rightForwardTicks => r.rightForwardTicks
  | .leftReverseTicks => r.leftReverseTicks
  | .rightReverseTicks => r.rightReverseTicks
  | .leftForwardTicksTurns => r.leftForwardTicksTurns
  | .rightForwardTicksTurns => r.rightForwardTicksTurns
  | .leftReverseTicksTurns => r.leftReverseTicksTurns
  | .rightReverseTicksTurns => r.rightReverseTicksTurns

def Counter.clear (r : Robot) : Counter → Robot
  | .leftForwardTicks => { r with leftForwardTicks := 0 }
  | .rightForwardTicks => { r with rightForwardTicks := 0 }
  | .leftReverseTicks => { r with leftReverseTicks := 0 }
  | .rightReverseTicks => { r with rightReverseTicks := 0 }
  | .leftForwardTicksTurns => { r with leftForwardTicksTurns := 0 }
  | .rightForwardTicksTurns => { r with rightForwardTicksTurns := 0 }
  | .leftReverseTicksTurns => { r with leftReverseTicksTurns := 0 }
  | .rightReverseTicksTurns => { r with rightReverseTicksTurns := 0 }

/-- What happens while the program is on its way. -/
inductive Happening where
  | edge (encoder : Encoder) (dir : TDirection)
  | cleared (counter : Counter)
  | did (event : Event)
  deriving DecidableEq, Repr

def Happening.event? : Happening → Option Event
  | .did e => some e
  | .edge _ _ | .cleared _ => none

/-! ## The functions -/

abbrev Code := Program Firmware Happening

def assign (f : Robot → Robot) : Code := .stmt (fun s => { s with robot := f s.robot }) none

/-- An assignment with which something is done. -/
def assignDoing (e : Event) (f : Robot → Robot) : Code :=
  .stmt (fun s => { s with robot := f s.robot }) (some (.did e))

def doing (e : Event) : Code := .stmt id (some (.did e))

/-- `if(c) p else q`, with a condition on the robot's variables. -/
def test (c : Robot → Prop) [DecidablePred c] (p q : Code) : Code :=
  .ite (fun s => c s.robot) p q

def analogWriteCode (port : MotorPin) (val : Nat) : Code :=
  assign fun r => { r with motors := r.motors.analogWriteBareMetal port val }

/-- `forward(p0, p1)`.  The movement is handled when the robot has its direction. -/
def forwardCode (p0 p1 : UInt32) : Code :=
  .block [
    assign fun r => { r with deltaDist := Robot.distance p0.toNat },
    assign fun r => { r with newDist := r.forwardDist + r.deltaDist },
    assignDoing (.handled .forward p0 p1) fun r => { r with dir := .forward },
    analogWriteCode .LF (pwmVal p1.toNat),
    analogWriteCode .RF ⌊(0.9 * pwmVal p1.toNat : ℚ)⌋₊,
    analogWriteCode .LR 0,
    analogWriteCode .RR 0]

def reverseCode (p0 p1 : UInt32) : Code :=
  .block [
    assign fun r => { r with deltaDist := Robot.distance p0.toNat },
    assign fun r => { r with newDist := r.reverseDist + r.deltaDist },
    assignDoing (.handled .reverse p0 p1) fun r => { r with dir := .backward },
    analogWriteCode .LR (pwmVal p1.toNat),
    analogWriteCode .RR ⌊(0.9 * pwmVal p1.toNat : ℚ)⌋₊,
    analogWriteCode .LF 0,
    analogWriteCode .RF 0]

def leftCode (p0 p1 : UInt32) : Code :=
  .block [
    assign fun r => { r with deltaTicks := Robot.turn r.vincentCirc p0.toNat },
    assign fun r => { r with targetTicks := r.rightForwardTicksTurns + r.deltaTicks },
    assignDoing (.handled .turnLeft p0 p1) fun r => { r with dir := .left },
    analogWriteCode .LR (pwmVal p1.toNat),
    analogWriteCode .RF ⌊(1.4 * pwmVal p1.toNat : ℚ)⌋₊,
    analogWriteCode .LF 0,
    analogWriteCode .RR 0]

def rightCode (p0 p1 : UInt32) : Code :=
  .block [
    assign fun r => { r with deltaTicks := Robot.turn r.vincentCirc p0.toNat },
    assign fun r => { r with targetTicks := r.leftForwardTicksTurns + r.deltaTicks },
    assignDoing (.handled .turnRight p0 p1) fun r => { r with dir := .right },
    analogWriteCode .RR (pwmVal p1.toNat),
    analogWriteCode .LF ⌊(1.3 * pwmVal p1.toNat : ℚ)⌋₊,
    analogWriteCode .LR 0,
    analogWriteCode .RF 0]

def stopCode : Code :=
  .block [analogWriteCode .LF 0, analogWriteCode .LR 0, analogWriteCode .RF 0,
    analogWriteCode .RR 0]

def readColorCode (redLight greenLight : UInt16) : Code :=
  .block [
    assign fun r => { r with colorValue := dontKnow },
    assign fun r => { r with colorValue := if redLight > greenLight then red else green }]

/-- An assignment of `clearCounters()`. -/
def clearCode (c : Counter) : Code :=
  .stmt (fun s => { s with robot := c.clear s.robot }) (some (.cleared c))

def clearCountersCode : Code :=
  .block [
    clearCode .leftForwardTicks,
    clearCode .rightForwardTicks,
    clearCode .leftForwardTicksTurns,
    clearCode .rightForwardTicksTurns,
    clearCode .leftReverseTicksTurns,
    clearCode .rightReverseTicksTurns,
    clearCode .leftReverseTicks,
    clearCode .rightReverseTicks,
    assign fun r => { r with forwardDist := 0 },
    assign fun r => { r with reverseDist := 0 },
    assign fun r => { r with colorValue := dontKnow }]

/-- The variables `sendStatus()` reads, one after another. -/
def statusVariables : List (Firmware → UInt32) :=
  [(·.robot.leftForwardTicks), (·.robot.rightForwardTicks), (·.robot.leftReverseTicks),
    (·.robot.rightReverseTicks), (·.robot.leftForwardTicksTurns),
    (·.robot.rightForwardTicksTurns), (·.robot.leftReverseTicksTurns),
    (·.robot.rightReverseTicksTurns), (·.robot.forwardDist), (·.robot.reverseDist),
    (·.robot.colorValue)]

def sendStatusCode (stack : Stack) : Code :=
  .evals statusVariables fun words => doing (.sent (sendResponse stack { stack.packet with
    packetType := TPacketType.response.code
    command := TResponseType.status.code
    params := fun i => words[i.val]?.getD (stack.packet.params i) }))

/-! ## The loop -/

def handleCommandCode (input : LoopInput) (command : TPacket) : Code :=
  let p0 := command.params 0
  let p1 := command.params 1
  let ok := doing (.sent (sendOK input.first))
  match TCommandType.ofCode? command.command with
  | some .forward => .block [ok, forwardCode p0 p1]
  | some .reverse => .block [ok, reverseCode p0 p1]
  | some .turnLeft => .block [ok, leftCode p0 p1]
  | some .turnRight => .block [ok, rightCode p0 p1]
  | some .stop =>
      .block [ok, stopCode, readColorCode input.redLight input.greenLight,
        doing (.handled .stop p0 p1)]
  | some .getStats =>
      .block [sendStatusCode input.first, doing (.sent (sendOK input.second)),
        doing (.handled .getStats p0 p1)]
  | some .clearStats => .block [clearCountersCode, ok, doing (.handled .clearStats p0 p1)]
  | none => doing (.sent (sendBadCommand input.first))

def handlePacketCode (input : LoopInput) (packet : TPacket) : Code :=
  match TPacketType.ofCode? packet.packetType with
  | some .command => handleCommandCode input packet
  | some .response | some .error | some .message | some .hello | none => .done

/-- The part of `loop()` that looks at what `readPacket` returned. -/
def reactCode (input : LoopInput) (result : TResult) (recvPacket : TPacket) : Code :=
  match result with
  | .packetOk => handlePacketCode input recvPacket
  | .packetBad => doing (.sent (sendBadPacket input.first))
  | .packetChecksumBad => doing (.sent (sendBadChecksum input.first))
  | .packetIncomplete | .packetComplete => .done

/-- `deltaDist=0; newDist=0; stop();` -/
def endMove (dir : TDirection) : Code :=
  .block [
    doing (.autoStop dir),
    assign fun r => { r with deltaDist := 0 },
    assign fun r => { r with newDist := 0 },
    stopCode]

/-- `stop(); deltaTicks=0; targetTicks=0;` -/
def endTurn (dir : TDirection) : Code :=
  .block [
    doing (.autoStop dir),
    stopCode,
    assign fun r => { r with deltaTicks := 0 },
    assign fun r => { r with targetTicks := 0 }]

/-- `if(deltaDist > 0) { … }` in `loop()`. -/
def finishMoveCode : Code :=
  test (fun r => r.deltaDist > 0)
    (test (fun r => r.dir = .forward)
      (test (fun r => r.forwardDist ≥ r.newDist) (endMove .forward) .done)
      (test (fun r => r.dir = .backward)
        (test (fun r => r.reverseDist ≥ r.newDist) (endMove .backward) .done)
        .done))
    .done

/-- `if(targetTicks > 0) { … }` in `loop()`. -/
def finishTurnCode : Code :=
  test (fun r => r.targetTicks > 0)
    (test (fun r => r.dir = .left)
      (test (fun r => r.rightForwardTicksTurns ≥ r.targetTicks) (endTurn .left) .done)
      (test (fun r => r.dir = .right)
        (test (fun r => r.leftForwardTicksTurns ≥ r.targetTicks) (endTurn .right) .done)
        (test (fun r => r.dir = .stop) (endMove .stop) .done)))
    .done

/-- The end of `loop()`. -/
def checkCode : Code :=
  .block [finishMoveCode, finishTurnCode, test (fun r => r.dir = .stop) (doing .idle) .done]

/-- `readPacket(&recvPacket)`, called in `loop()`. -/
def Firmware.readPacket (s : Firmware) (input : LoopInput) : Uart × TResult :=
  Alex.readPacket { s.uart with packet := ⟨input.recvPacket, s.uart.packet.stored⟩ }
    input.buffer input.bytes

/-- `loop()`.  No interrupt touches what `readPacket` works on: it is one statement. -/
def loopCode (input : LoopInput) : Code :=
  .act (fun s => { s with uart := (s.readPacket input).1 }) (fun _ => none) fun s =>
    (reactCode input (s.readPacket input).2 (.ofMemory (s.readPacket input).1.packet.get)).seq
      checkCode

/-- `ISR(INT0_vect)` and `ISR(INT1_vect)` -/
def isr (encoder : Encoder) (s : Firmware) : Firmware × Option Happening :=
  match encoder with
  | .left => ({ s with robot := s.robot.leftISR }, some (.edge .left s.robot.dir))
  | .right => ({ s with robot := s.robot.rightISR }, some (.edge .right s.robot.dir))

/-- The firmware after `setup()`, one interrupt or statement at a time. -/
def interrupted : Mealy (Interrupted Firmware Happening) (Encoder ⊕ LoopInput)
    (List Happening) :=
  interruptible isr loopCode

/-! ## Left alone -/

/-- Left alone, the code does to the robot what a function says, and reports it. -/
def Does (p : Code) (f : Robot → Robot × List Event) : Prop :=
  ∀ s, (p.run s).1 = { s with robot := (f s.robot).1 } ∧
    (p.run s).2.filterMap Happening.event? = (f s.robot).2

theorem Does.seq {p q : Code} {f g : Robot → Robot × List Event} (hp : Does p f)
    (hq : Does q g) :
    Does (p.seq q) fun r => ((g (f r).1).1, (f r).2 ++ (g (f r).1).2) := by
  intro s
  obtain ⟨hstate, hevents⟩ := hp s
  obtain ⟨hstate', hevents'⟩ := hq { s with robot := (f s.robot).1 }
  rw [Program.run_seq, List.filterMap_append, hstate, hevents, hstate', hevents']
  exact ⟨rfl, rfl⟩

theorem does_done : Does .done fun r => (r, []) := fun _ => ⟨rfl, rfl⟩

theorem does_doing (e : Event) : Does (doing e) fun r => (r, [e]) := fun _ => ⟨rfl, rfl⟩

theorem does_test {c : Robot → Prop} [DecidablePred c] {p q : Code}
    {f g : Robot → Robot × List Event} (hp : Does p f) (hq : Does q g) :
    Does (test c p q) fun r => if c r then f r else g r := by
  intro s
  beta_reduce
  rw [test, Program.run_ite]
  by_cases hc : c s.robot
  · rw [if_pos hc, if_pos hc]
    exact hp s
  · rw [if_neg hc, if_neg hc]
    exact hq s

theorem does_forward (p0 p1 : UInt32) :
    Does (forwardCode p0 p1) fun r =>
      (r.forward p0.toNat p1.toNat, [.handled .forward p0 p1]) :=
  fun _ => ⟨rfl, rfl⟩

theorem does_reverse (p0 p1 : UInt32) :
    Does (reverseCode p0 p1) fun r =>
      (r.reverse p0.toNat p1.toNat, [.handled .reverse p0 p1]) :=
  fun _ => ⟨rfl, rfl⟩

theorem does_left (p0 p1 : UInt32) :
    Does (leftCode p0 p1) fun r => (r.left p0.toNat p1.toNat, [.handled .turnLeft p0 p1]) :=
  fun _ => ⟨rfl, rfl⟩

theorem does_right (p0 p1 : UInt32) :
    Does (rightCode p0 p1) fun r => (r.right p0.toNat p1.toNat, [.handled .turnRight p0 p1]) :=
  fun _ => ⟨rfl, rfl⟩

theorem does_stop : Does stopCode fun r => (r.stop, []) := fun _ => ⟨rfl, rfl⟩

theorem does_readColor (redLight greenLight : UInt16) :
    Does (readColorCode redLight greenLight) fun r => (r.readColor redLight greenLight, []) :=
  fun _ => ⟨rfl, rfl⟩

theorem does_clearCounters : Does clearCountersCode fun r => (r.clearCounters, []) := by
  intro s
  simp only [clearCountersCode, clearCode, assign, Program.run_block_cons,
    Program.run_block_nil, Program.run_stmt, Counter.clear, Robot.clearCounters]
  exact ⟨trivial, rfl⟩

theorem does_sendStatus (stack : Stack) :
    Does (sendStatusCode stack) fun r => (r, [.sent (sendStatus stack r)]) := by
  intro s
  rw [sendStatusCode, Program.run_evals]
  exact ⟨rfl, rfl⟩

theorem does_handleCommand (input : LoopInput) (command : TPacket) :
    Does (handleCommandCode input command) fun r => r.handleCommand input command := by
  intro s
  beta_reduce
  rw [handleCommandCode, Robot.handleCommand]
  have hok : Does (doing (.sent (sendOK input.first))) fun r =>
      (r, [.sent (sendOK input.first)]) := does_doing _
  cases TCommandType.ofCode? command.command with
  | none => exact does_doing _ s
  | some c =>
      cases c with
      | forward => exact (hok.seq ((does_forward _ _).seq does_done)) s
      | reverse => exact (hok.seq ((does_reverse _ _).seq does_done)) s
      | turnLeft => exact (hok.seq ((does_left _ _).seq does_done)) s
      | turnRight => exact (hok.seq ((does_right _ _).seq does_done)) s
      | stop =>
          exact (hok.seq (does_stop.seq ((does_readColor _ _).seq
            ((does_doing _).seq does_done)))) s
      | getStats =>
          exact ((does_sendStatus _).seq ((does_doing _).seq ((does_doing _).seq does_done))) s
      | clearStats =>
          exact (does_clearCounters.seq (hok.seq ((does_doing _).seq does_done))) s

theorem does_react (input : LoopInput) (result : TResult) (packet : TPacket) :
    Does (reactCode input result packet) fun r => r.react input result packet := by
  cases result with
  | packetOk =>
      intro s
      beta_reduce
      rw [reactCode, handlePacketCode, Robot.react, Robot.handlePacket]
      cases TPacketType.ofCode? packet.packetType with
      | none => exact does_done s
      | some t =>
          cases t with
          | command => exact does_handleCommand input packet s
          | response => exact does_done s
          | error => exact does_done s
          | message => exact does_done s
          | hello => exact does_done s
  | packetBad => exact does_doing _
  | packetChecksumBad => exact does_doing _
  | packetIncomplete => exact does_done
  | packetComplete => exact does_done

theorem does_endMove (dir : TDirection) :
    Does (endMove dir) fun r =>
      (Robot.stop { r with deltaDist := 0, newDist := 0 }, [.autoStop dir]) :=
  fun _ => ⟨rfl, rfl⟩

theorem does_endTurn (dir : TDirection) :
    Does (endTurn dir) fun r =>
      ({ r.stop with deltaTicks := 0, targetTicks := 0 }, [.autoStop dir]) :=
  fun _ => ⟨rfl, rfl⟩

theorem does_finishMove : Does finishMoveCode Robot.finishMove := by
  have hcode : Does finishMoveCode fun r =>
      if r.deltaDist > 0 then
        if r.dir = .forward then
          if r.forwardDist ≥ r.newDist then
            (Robot.stop { r with deltaDist := 0, newDist := 0 }, [.autoStop .forward])
          else (r, [])
        else if r.dir = .backward then
          if r.reverseDist ≥ r.newDist then
            (Robot.stop { r with deltaDist := 0, newDist := 0 }, [.autoStop .backward])
          else (r, [])
        else (r, [])
      else (r, []) :=
    does_test (does_test (does_test (does_endMove .forward) does_done)
      (does_test (does_test (does_endMove .backward) does_done) does_done)) does_done
  intro s
  obtain ⟨hstate, hevents⟩ := hcode s
  rw [hstate, hevents, Robot.finishMove]
  beta_reduce
  cases s.robot.dir <;> simp only [reduceCtorEq, if_true, if_false, and_self]

theorem does_finishTurn : Does finishTurnCode Robot.finishTurn := by
  have hcode : Does finishTurnCode fun r =>
      if r.targetTicks > 0 then
        if r.dir = .left then
          if r.rightForwardTicksTurns ≥ r.targetTicks then
            ({ r.stop with deltaTicks := 0, targetTicks := 0 }, [.autoStop .left])
          else (r, [])
        else if r.dir = .right then
          if r.leftForwardTicksTurns ≥ r.targetTicks then
            ({ r.stop with deltaTicks := 0, targetTicks := 0 }, [.autoStop .right])
          else (r, [])
        else if r.dir = .stop then
          (Robot.stop { r with deltaDist := 0, newDist := 0 }, [.autoStop .stop])
        else (r, [])
      else (r, []) :=
    does_test (does_test (does_test (does_endTurn .left) does_done)
      (does_test (does_test (does_endTurn .right) does_done)
        (does_test (does_endMove .stop) does_done))) does_done
  intro s
  obtain ⟨hstate, hevents⟩ := hcode s
  rw [hstate, hevents, Robot.finishTurn]
  beta_reduce
  cases s.robot.dir <;> simp only [reduceCtorEq, if_true, if_false, and_self]

theorem does_check : Does checkCode Robot.check := by
  have hcode : Does checkCode _ :=
    does_finishMove.seq (does_finishTurn.seq
      ((does_test (does_doing .idle) does_done).seq does_done))
  intro s
  obtain ⟨hstate, hevents⟩ := hcode s
  rw [hstate, hevents, Robot.check_fst, Robot.check_snd, List.append_assoc]
  split <;> exact ⟨rfl, rfl⟩

/-- Left alone, `loop()` is the step of `Alex.Firmware`. -/
theorem run_loop (s : Firmware) (input : LoopInput) :
    ((loopCode input).run s).1 = (s.loop input).1 ∧
      ((loopCode input).run s).2.filterMap Happening.event? = (s.loop input).2 := by
  have hcode := (does_react input (s.readPacket input).2
    (.ofMemory (s.readPacket input).1.packet.get)).seq does_check
  exact hcode { s with uart := (s.readPacket input).1 }

/-- **Run.**  What `firmware` does, the interruptible firmware does if the interrupts come
between the calls of `loop()`. -/
theorem interrupted_of_firmware (s : Firmware) (inputs : List Input) :
    ∃ moments, interrupted.final ⟨s, .done⟩ moments = ⟨firmware.final s inputs, .done⟩ ∧
      (interrupted.trace ⟨s, .done⟩ moments).filterMap Happening.event? = s.events inputs := by
  induction inputs generalizing s with
  | nil => exact ⟨[], rfl, rfl⟩
  | cons input inputs ih =>
      obtain ⟨moments, hfinal, htrace⟩ := ih (firmware.step s input).1
      cases input with
      | int0 => exact ⟨.inl .left :: moments, hfinal, htrace⟩
      | int1 => exact ⟨.inl .right :: moments, hfinal, htrace⟩
      | loop input =>
          obtain ⟨hstate, hevents⟩ := run_loop s input
          obtain ⟨n, hloop, hdid⟩ := @interruptible_run _ _ _ _ isr loopCode s input
          have hloop' : interrupted.final ⟨s, .done⟩ (List.replicate n (.inr input)) =
              ⟨(firmware.step s (.loop input)).1, .done⟩ :=
            hloop.trans (congrArg (Interrupted.mk · .done) hstate)
          refine ⟨List.replicate n (.inr input) ++ moments, ?_, ?_⟩
          · rw [interrupted.final_append, hloop', hfinal]
            rfl
          · rw [interrupted.trace_append, hloop', List.filterMap_append, htrace]
            exact congrArg (· ++ _) ((congrArg _ hdid).trans hevents)

end Alex
