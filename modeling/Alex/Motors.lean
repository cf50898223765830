/-
# `Alex.Motors` — the motors do what the last motor event says

The motor registers are written in two places, `handleCommand` and the automatic
stops of `loop()`, and both leave a trace among the events.  `Motors.follow`
replays an event on the registers; every step of the firmware does to them what
its events say (`motors_step`), so after a run they are what the last motor event
made of them (`motors_final`), whatever targets of earlier moves the state still
holds.
-/
import Alex.Firmware

namespace Alex

def TCommandType.isMovement : TCommandType → Bool
  | .forward | .reverse | .turnLeft | .turnRight => true
  | .stop | .getStats | .clearStats => false

/-- The registers as the function of a movement command writes them. -/
def written (command : TCommandType) (p0 p1 : UInt32) : Motors :=
  match command with
  | .forward => ((Robot.initial 0).forward p0.toNat p1.toNat).motors
  | .reverse => ((Robot.initial 0).reverse p0.toNat p1.toNat).motors
  | .turnLeft => ((Robot.initial 0).left p0.toNat p1.toNat).motors
  | .turnRight => ((Robot.initial 0).right p0.toNat p1.toNat).motors
  | .stop | .getStats | .clearStats => .off

def Event.isMovement : Event → Bool
  | .handled c _ _ => c.isMovement
  | .sent _ | .autoStop _ | .idle => false

/-- A movement command or `COMMAND_STOP` handled, or an automatic stop. -/
def Event.isMotorEvent : Event → Bool
  | .handled c _ _ => c.isMovement || c = .stop
  | .autoStop _ => true
  | .sent _ | .idle => false

/-- The most recent motor event. -/
def lastMotorEvent (events : List Event) : Option Event :=
  (events.filter Event.isMotorEvent).getLast?

/-! ## Following the events -/

/-- What an event does to the registers. -/
def Motors.follow (m : Motors) : Event → Motors
  | .handled c p0 p1 => if c.isMovement then written c p0 p1 else if c = .stop then .off else m
  | .autoStop _ => .off
  | .sent _ | .idle => m

/-- The registers after a motor event, and before any. -/
def explained : Option Event → Motors
  | some (.handled c p0 p1) => if c.isMovement then written c p0 p1 else .off
  | some (.autoStop _) | some (.sent _) | some .idle | none => .off

theorem follow_of_isMotorEvent (m : Motors) {e : Event} (h : e.isMotorEvent = true) :
    m.follow e = explained (some e) := by
  cases e with
  | handled c p0 p1 => cases c <;> first | rfl | exact nomatch h
  | autoStop _ => rfl
  | sent _ => exact nomatch h
  | idle => exact nomatch h

theorem follow_of_not_isMotorEvent (m : Motors) {e : Event} (h : e.isMotorEvent = false) :
    m.follow e = m := by
  cases e with
  | handled c p0 p1 => cases c <;> first | rfl | exact nomatch h
  | autoStop _ => exact nomatch h
  | sent _ => rfl
  | idle => rfl

/-- Following a history is looking at its last motor event. -/
theorem foldl_follow (events : List Event) :
    events.foldl Motors.follow .off = explained (lastMotorEvent events) := by
  rw [Mealy.foldl_overwrite (fun m _ => follow_of_isMotorEvent m)
    (fun m _ => follow_of_not_isMotorEvent m), ← lastMotorEvent]
  cases lastMotorEvent events <;> rfl

theorem foldl_follow_off {events : List Event} (h : ∀ e ∈ events, e.isMovement = false) :
    events.foldl Motors.follow .off = .off := by
  induction events with
  | nil => rfl
  | cons e events ih =>
      have hoff : Motors.off.follow e = .off := by
        have he := h e List.mem_cons_self
        cases e with
        | handled c p0 p1 => cases c <;> first | rfl | exact nomatch he
        | autoStop _ => rfl
        | sent _ => rfl
        | idle => rfl
      rw [List.foldl_cons, hoff]
      exact ih fun e he => h e (List.mem_cons_of_mem _ he)

/-! ## The firmware follows -/

namespace Robot

/-- A command writes all four registers or none. -/
theorem motors_obey (r : Robot) (input : LoopInput) (c : TCommandType) (p0 p1 : UInt32) :
    (r.obey input c p0 p1).motors = r.motors.follow (.handled c p0 p1) := by
  cases c <;> rfl

theorem foldl_follow_sent (m : Motors) (frames : List (List UInt8)) :
    (frames.map Event.sent).foldl Motors.follow m = m := by
  induction frames with
  | nil => rfl
  | cons f frames ih => exact ih

theorem motors_reaction {r : Robot} {input : LoopInput} {reaction : Robot × List Event}
    (h : r.Reaction input reaction) :
    reaction.1.motors = reaction.2.foldl Motors.follow r.motors := by
  cases h with
  | obeys c p0 p1 frames =>
      rw [List.foldl_append, foldl_follow_sent]
      exact r.motors_obey input c p0 p1
  | ignores frames => exact (foldl_follow_sent r.motors frames).symm

theorem motors_finishMove (r : Robot) :
    r.finishMove.1.motors = r.finishMove.2.foldl Motors.follow r.motors := by
  rw [finishMove]
  split
  · split
    · split <;> rfl
    · split <;> rfl
    all_goals rfl
  · rfl

theorem motors_finishTurn (r : Robot) :
    r.finishTurn.1.motors = r.finishTurn.2.foldl Motors.follow r.motors := by
  rw [finishTurn]
  split
  · split
    · split <;> rfl
    · split <;> rfl
    all_goals rfl
  · rfl

theorem motors_check (r : Robot) :
    r.check.1.motors = r.check.2.foldl Motors.follow r.motors := by
  rw [check_fst, check_snd, List.foldl_append, List.foldl_append, ← motors_finishMove,
    ← motors_finishTurn]
  split <;> rfl

end Robot

theorem Firmware.motors_loop (s : Firmware) (input : LoopInput) :
    (s.loop input).1.robot.motors = (s.loop input).2.foldl Motors.follow s.robot.motors := by
  obtain ⟨reaction, hr, hrobot, hevents⟩ := s.loop_cases input
  rw [hrobot, hevents, List.foldl_append, ← Robot.motors_reaction hr]
  exact reaction.1.motors_check

/-- **Step.**  What a step does to the registers is what its events say. -/
theorem motors_step (s : Firmware) (input : Input) :
    (firmware.step s input).1.robot.motors =
      (firmware.step s input).2.foldl Motors.follow s.robot.motors := by
  cases input with
  | int0 => exact s.robot.motors_leftISR
  | int1 => exact s.robot.motors_rightISR
  | loop input => exact s.motors_loop input

/-- **Run.**  So it is of a run. -/
theorem motors_final (s : Firmware) (inputs : List Input) :
    (firmware.final s inputs).robot.motors =
      (s.events inputs).foldl Motors.follow s.robot.motors :=
  firmware.final_follow (f := fun s => s.robot.motors) motors_step s inputs

/-- No movement writes both registers of a wheel. -/
theorem written_exclusive (command : TCommandType) (p0 p1 : UInt32) :
    ((written command p0 p1).OCR0B = 0 ∨ (written command p0 p1).OCR0A = 0) ∧
      ((written command p0 p1).OCR2A = 0 ∨ (written command p0 p1).OCR1B = 0) := by
  cases command with
  | forward => exact ⟨.inr rfl, .inr rfl⟩
  | reverse => exact ⟨.inl rfl, .inl rfl⟩
  | turnLeft => exact ⟨.inl rfl, .inr rfl⟩
  | turnRight => exact ⟨.inr rfl, .inl rfl⟩
  | stop => exact ⟨.inl rfl, .inl rfl⟩
  | getStats => exact ⟨.inl rfl, .inl rfl⟩
  | clearStats => exact ⟨.inl rfl, .inl rfl⟩

/-- **Motor output.**  After every run the registers are off or hold what the
function of a movement command wrote, and that command is the last motor event;
no wheel is driven both ways; and once `COMMAND_STOP` or an automatic stop is the
last motor event, they stay off until a movement command is handled. -/
theorem motors_explained (vincentCirc : ℚ) (leftover privateMem buffer packet : Nat → UInt8)
    (inputs : List Input) :
    let start := Firmware.initial vincentCirc leftover privateMem buffer packet
    let s := firmware.final start inputs
    let m := s.robot.motors
    (m = .off ∨ ∃ c p0 p1, lastMotorEvent (start.events inputs) = some (.handled c p0 p1) ∧
      c.isMovement = true ∧ m = written c p0 p1) ∧
    ((m.OCR0B = 0 ∨ m.OCR0A = 0) ∧ (m.OCR2A = 0 ∨ m.OCR1B = 0)) ∧
    (((∃ p0 p1, lastMotorEvent (start.events inputs) = some (.handled .stop p0 p1)) ∨
        ∃ dir, lastMotorEvent (start.events inputs) = some (.autoStop dir)) →
      ∀ later, (∀ e ∈ s.events later, e.isMovement = false) →
        (firmware.final s later).robot.motors = .off) := by
  intro start s m
  have hm : m = explained (lastMotorEvent (start.events inputs)) := by
    rw [← foldl_follow]
    exact motors_final start inputs
  have hexpl : m = .off ∨ ∃ c p0 p1,
      lastMotorEvent (start.events inputs) = some (.handled c p0 p1) ∧
      c.isMovement = true ∧ m = written c p0 p1 := by
    cases he : lastMotorEvent (start.events inputs) with
    | none => exact .inl (by rw [hm, he]; rfl)
    | some e =>
        cases e with
        | handled c p0 p1 =>
            cases hc : c.isMovement with
            | true => exact .inr ⟨c, p0, p1, rfl, hc, by rw [hm, he, explained, if_pos hc]⟩
            | false =>
                have hne : ¬ c.isMovement = true := fun h => nomatch hc.symm.trans h
                exact .inl (by rw [hm, he, explained, if_neg hne])
        | autoStop _ => exact .inl (by rw [hm, he]; rfl)
        | sent _ => exact .inl (by rw [hm, he]; rfl)
        | idle => exact .inl (by rw [hm, he]; rfl)
  refine ⟨hexpl, ?_, ?_⟩
  · rcases hexpl with h | ⟨c, p0, p1, -, -, h⟩
    · rw [h]
      exact ⟨.inl rfl, .inl rfl⟩
    · rw [h]
      exact written_exclusive c p0 p1
  · intro hstop later hlater
    have hoff : s.robot.motors = .off := by
      show m = .off
      rcases hstop with ⟨p0, p1, h⟩ | ⟨dir, h⟩
      · rw [hm, h]
        rfl
      · rw [hm, h]
        rfl
    rw [motors_final, hoff]
    exact foldl_follow_off hlater

end Alex
