/-
# `Alex.Firmware` — the Arduino's loop

`loop()` of `final_alex.ino` reads what has arrived, handles a packet if one is
complete, and then stops the motors if a target is reached; the two encoder
interrupts come in between.  `firmware` is the machine of these three steps.

    input       step
    int0        leftISR
    int1        rightISR
    loop i      readPacket; handlePacket or an error response; finishMove; finishTurn

What a step does that can be seen from outside, or that a statement has to speak
of, is its answer, a list of `Event`s: the frames it sends, the command it
handles, whether it stops the motors of its own accord.
-/
import Alex.Robot
import Alex.Uart

namespace Alex

inductive Event where
  | sent (frame : List UInt8)
  | handled (command : TCommandType) (p0 p1 : UInt32)
  | autoStop (dir : TDirection)
  | idle
  deriving DecidableEq, Repr

/-! ## Responses -/

/-- What the stack holds where a packet and its frame are built. -/
structure Stack where
  packet : TPacket
  comms : Nat → UInt8

/-- `sendResponse(packet)`: the bytes written. -/
def sendResponse (stack : Stack) (packet : TPacket) : List UInt8 :=
  serialize stack.comms packet.bytes

/-- A response that is its type and its code. -/
def sendCode (stack : Stack) (packetType : TPacketType) (code : TResponseType) : List UInt8 :=
  sendResponse stack { stack.packet with packetType := packetType.code, command := code.code }

def sendOK (stack : Stack) : List UInt8 := sendCode stack .response .ok

def sendBadPacket (stack : Stack) : List UInt8 := sendCode stack .error .badPacket

def sendBadChecksum (stack : Stack) : List UInt8 := sendCode stack .error .badChecksum

def sendBadCommand (stack : Stack) : List UInt8 := sendCode stack .error .badCommand

/-- The words `sendStatus` puts into `params`, from `params[0]` on. -/
def Robot.status (r : Robot) : List UInt32 :=
  [r.leftForwardTicks, r.rightForwardTicks, r.leftReverseTicks, r.rightReverseTicks,
    r.leftForwardTicksTurns, r.rightForwardTicksTurns, r.leftReverseTicksTurns,
    r.rightReverseTicksTurns, r.forwardDist, r.reverseDist, r.colorValue]

def sendStatus (stack : Stack) (r : Robot) : List UInt8 :=
  sendResponse stack { stack.packet with
    packetType := TPacketType.response.code
    command := TResponseType.status.code
    params := fun i => r.status[i.val]?.getD (stack.packet.params i) }

/-! ## The loop -/

/-- What a call of `loop()` meets: the bytes available, the uninitialised
`buffer` and `recvPacket`, the stack under the responses it sends, and the
colours the sensor reports. -/
structure LoopInput where
  bytes : List UInt8
  buffer : Nat → UInt8
  recvPacket : Nat → UInt8
  first : Stack
  second : Stack
  redLight : UInt16
  greenLight : UInt16

namespace Robot

def handleCommand (r : Robot) (input : LoopInput) (command : TPacket) : Robot × List Event :=
  let p0 := command.params 0
  let p1 := command.params 1
  match TCommandType.ofCode? command.command with
  | some .forward =>
      (r.forward p0.toNat p1.toNat, [.sent (sendOK input.first), .handled .forward p0 p1])
  | some .reverse =>
      (r.reverse p0.toNat p1.toNat, [.sent (sendOK input.first), .handled .reverse p0 p1])
  | some .turnLeft =>
      (r.left p0.toNat p1.toNat, [.sent (sendOK input.first), .handled .turnLeft p0 p1])
  | some .turnRight =>
      (r.right p0.toNat p1.toNat, [.sent (sendOK input.first), .handled .turnRight p0 p1])
  | some .stop =>
      (r.stop.readColor input.redLight input.greenLight,
        [.sent (sendOK input.first), .handled .stop p0 p1])
  | some .getStats =>
      (r, [.sent (sendStatus input.first r), .sent (sendOK input.second),
        .handled .getStats p0 p1])
  | some .clearStats =>
      (r.clearOneCounter p0, [.sent (sendOK input.first), .handled .clearStats p0 p1])
  | none => (r, [.sent (sendBadCommand input.first)])

def handlePacket (r : Robot) (input : LoopInput) (packet : TPacket) : Robot × List Event :=
  match TPacketType.ofCode? packet.packetType with
  | some .command => r.handleCommand input packet
  | some .response | some .error | some .message | some .hello | none => (r, [])

/-- The part of `loop()` that looks at what `readPacket` returned. -/
def react (r : Robot) (input : LoopInput) (result : TResult) (recvPacket : TPacket) :
    Robot × List Event :=
  match result with
  | .packetOk => r.handlePacket input recvPacket
  | .packetBad => (r, [.sent (sendBadPacket input.first)])
  | .packetChecksumBad => (r, [.sent (sendBadChecksum input.first)])
  | .packetIncomplete | .packetComplete => (r, [])

/-- `if(deltaDist > 0) { … }` in `loop()`. -/
def finishMove (r : Robot) : Robot × List Event :=
  if r.deltaDist > 0 then
    match r.dir with
    | .forward =>
        if r.forwardDist ≥ r.newDist then
          (stop { r with deltaDist := 0, newDist := 0 }, [.autoStop .forward])
        else (r, [])
    | .backward =>
        if r.reverseDist ≥ r.newDist then
          (stop { r with deltaDist := 0, newDist := 0 }, [.autoStop .backward])
        else (r, [])
    | .left | .right | .stop => (r, [])
  else (r, [])

/-- `if(targetTicks > 0) { … }` in `loop()`. -/
def finishTurn (r : Robot) : Robot × List Event :=
  if r.targetTicks > 0 then
    match r.dir with
    | .left =>
        if r.rightForwardTicksTurns ≥ r.targetTicks then
          ({ r.stop with deltaTicks := 0, targetTicks := 0 }, [.autoStop .left])
        else (r, [])
    | .right =>
        if r.leftForwardTicksTurns ≥ r.targetTicks then
          ({ r.stop with deltaTicks := 0, targetTicks := 0 }, [.autoStop .right])
        else (r, [])
    | .stop => (stop { r with deltaDist := 0, newDist := 0 }, [.autoStop .stop])
    | .forward | .backward => (r, [])
  else (r, [])

/-- The end of `loop()`.  `putArduinoToIdle()` sleeps until the next interrupt. -/
def check (r : Robot) : Robot × List Event :=
  let (r, moved) := r.finishMove
  let (r, turned) := r.finishTurn
  (r, moved ++ turned ++ if r.dir = .stop then [.idle] else [])

end Robot

structure Firmware where
  robot : Robot
  uart : Uart

/-- The Arduino after `setup()`. -/
def Firmware.initial (vincentCirc : ℚ) (leftover privateMem buffer packet : Nat → UInt8) :
    Firmware where
  robot := .initial vincentCirc
  uart := .initial leftover privateMem buffer packet

def Firmware.loop (s : Firmware) (input : LoopInput) : Firmware × List Event :=
  let uart := { s.uart with packet := ⟨input.recvPacket, s.uart.packet.stored⟩ }
  let (uart, result) := readPacket uart input.buffer input.bytes
  let (robot, reaction) := s.robot.react input result (.ofMemory uart.packet.get)
  let (robot, checked) := robot.check
  (⟨robot, uart⟩, reaction ++ checked)

inductive Input where
  | int0
  | int1
  | loop (input : LoopInput)

/-- The firmware after `setup()`, one interrupt or call of `loop()` at a time. -/
def firmware : Mealy Firmware Input (List Event) where
  step s input :=
    match input with
    | .int0 => ({ s with robot := s.robot.leftISR }, [])
    | .int1 => ({ s with robot := s.robot.rightISR }, [])
    | .loop input => s.loop input

def Firmware.events (s : Firmware) (inputs : List Input) : List Event :=
  firmware.trace s inputs

/-! ## What a packet can do -/

namespace Robot

def obey (r : Robot) (input : LoopInput) (command : TCommandType) (p0 p1 : UInt32) : Robot :=
  match command with
  | .forward => r.forward p0.toNat p1.toNat
  | .reverse => r.reverse p0.toNat p1.toNat
  | .turnLeft => r.left p0.toNat p1.toNat
  | .turnRight => r.right p0.toNat p1.toNat
  | .stop => r.stop.readColor input.redLight input.greenLight
  | .getStats => r
  | .clearStats => r.clearOneCounter p0

/-- A reaction to what was read: one command is obeyed and reported, or none is
and the robot stays as it is. -/
inductive Reaction (r : Robot) (input : LoopInput) : Robot × List Event → Prop
  | obeys (command : TCommandType) (p0 p1 : UInt32) (frames : List (List UInt8)) :
      Reaction r input
        (r.obey input command p0 p1, frames.map Event.sent ++ [.handled command p0 p1])
  | ignores (frames : List (List UInt8)) : Reaction r input (r, frames.map Event.sent)

theorem reaction_handleCommand (r : Robot) (input : LoopInput) (command : TPacket) :
    Reaction r input (r.handleCommand input command) := by
  rw [handleCommand]
  split
  · exact .obeys .forward _ _ [sendOK input.first]
  · exact .obeys .reverse _ _ [sendOK input.first]
  · exact .obeys .turnLeft _ _ [sendOK input.first]
  · exact .obeys .turnRight _ _ [sendOK input.first]
  · exact .obeys .stop _ _ [sendOK input.first]
  · exact .obeys .getStats _ _ [sendStatus input.first r, sendOK input.second]
  · exact .obeys .clearStats _ _ [sendOK input.first]
  · exact .ignores [sendBadCommand input.first]

theorem reaction_react (r : Robot) (input : LoopInput) (result : TResult) (packet : TPacket) :
    Reaction r input (r.react input result packet) := by
  cases result with
  | packetOk =>
      rw [react, handlePacket]
      split
      · exact r.reaction_handleCommand input packet
      all_goals exact .ignores []
  | packetBad => exact .ignores [sendBadPacket input.first]
  | packetChecksumBad => exact .ignores [sendBadChecksum input.first]
  | packetIncomplete => exact .ignores []
  | packetComplete => exact .ignores []

theorem check_fst (r : Robot) : r.check.1 = r.finishMove.1.finishTurn.1 := rfl

theorem check_snd (r : Robot) : r.check.2 = r.finishMove.2 ++ r.finishMove.1.finishTurn.2 ++
    if r.finishMove.1.finishTurn.1.dir = .stop then [.idle] else [] := rfl

/-- The checks at the end of `loop()` stop and rest, and do nothing else. -/
theorem mem_check {r : Robot} {e : Event} (h : e ∈ r.check.2) :
    (∃ dir, e = .autoStop dir) ∨ e = .idle := by
  have hmove : e ∈ r.finishMove.2 → ∃ dir, e = .autoStop dir := by
    rw [finishMove]
    repeat' split
    all_goals simp +contextual
  have hturn : e ∈ r.finishMove.1.finishTurn.2 → ∃ dir, e = .autoStop dir := by
    rw [finishTurn]
    repeat' split
    all_goals simp +contextual
  rw [check_snd] at h
  rcases List.mem_append.mp h with h | h
  · rcases List.mem_append.mp h with h | h
    · exact .inl (hmove h)
    · exact .inl (hturn h)
  · split at h
    · exact .inr (List.mem_singleton.mp h)
    · exact absurd h List.not_mem_nil

theorem not_handled_check (r : Robot) (c : TCommandType) (p0 p1 : UInt32) :
    Event.handled c p0 p1 ∉ r.check.2 := by
  intro h
  rcases mem_check h with ⟨_, he⟩ | he
  · exact nomatch he
  · exact nomatch he

end Robot

/-- **Step.**  A call of `loop()` reacts to what it reads and checks the targets. -/
theorem Firmware.loop_cases (s : Firmware) (input : LoopInput) :
    ∃ reaction, s.robot.Reaction input reaction ∧
      (s.loop input).1.robot = reaction.1.check.1 ∧
      (s.loop input).2 = reaction.2 ++ reaction.1.check.2 :=
  ⟨_, s.robot.reaction_react input _ _, rfl, rfl⟩

theorem Firmware.loop_of_handled {s : Firmware} {input : LoopInput} {c : TCommandType}
    {p0 p1 : UInt32} (h : .handled c p0 p1 ∈ (s.loop input).2) :
    (s.loop input).1.robot = (s.robot.obey input c p0 p1).check.1 := by
  obtain ⟨reaction, hr, hrobot, hevents⟩ := s.loop_cases input
  rw [hevents] at h
  have hmem := (List.mem_append.mp h).resolve_right (reaction.1.not_handled_check c p0 p1)
  rw [hrobot]
  cases hr with
  | obeys command q0 q1 frames =>
      rcases List.mem_append.mp hmem with hm | hm
      · obtain ⟨f, -, hf⟩ := List.mem_map.mp hm
        exact nomatch hf
      · cases List.mem_singleton.mp hm
        rfl
  | ignores frames =>
      obtain ⟨f, -, hf⟩ := List.mem_map.mp hmem
      exact nomatch hf

end Alex
