/-
# `Alex.Standing` — a robot that has stopped is not at STOP

`dir` is STOP after `setup()`, each movement function sets it, and nothing sets it
back: `stop()` clears the motor registers and leaves it as it is.  A robot that has
moved once is never again at STOP (`dir_final`), and the STOP branches of `loop()` are
those of a robot that has not moved yet.
-/
import Alex.Stops

namespace Alex

/-! ## `dir` tells whether the robot has ever moved -/

namespace Robot

/-- Of the commands the movements lead away from STOP, and none leads back. -/
theorem dir_obey_eq_stop_iff (r : Robot) (input : LoopInput) (c : TCommandType)
    (p0 p1 : UInt32) :
    (r.obey input c p0 p1).dir = .stop ↔ r.dir = .stop ∧ c.isMovement = false := by
  cases hc : c.isMovement with
  | true =>
      have hdir := (obey_movement hc r input p0 p1).1
      have hne := TCommandType.direction_ne_stop hc
      rw [hdir]
      exact iff_of_false hne fun h => nomatch h.2
  | false =>
      cases c with
      | stop => exact (and_iff_left rfl).symm
      | getStats => exact (and_iff_left rfl).symm
      | clearStats => exact (and_iff_left rfl).symm
      | forward => exact nomatch hc
      | reverse => exact nomatch hc
      | turnLeft => exact nomatch hc
      | turnRight => exact nomatch hc

theorem dir_reaction_eq_stop_iff {r : Robot} {input : LoopInput}
    {reaction : Robot × List Event} (h : r.Reaction input reaction) :
    reaction.1.dir = .stop ↔ r.dir = .stop ∧ ∀ e ∈ reaction.2, e.isMovement = false := by
  cases h with
  | obeys c p0 p1 frames =>
      have hevents : (∀ e ∈ frames.map Event.sent ++ [.handled c p0 p1], e.isMovement = false) ↔
          c.isMovement = false := by
        constructor
        · intro h
          exact h _ (List.mem_append_right _ List.mem_cons_self)
        · intro hc e he
          rcases List.mem_append.mp he with he | he
          · exact (quiet_sent he).1
          · rw [List.mem_singleton.mp he]
            exact hc
      rw [hevents]
      exact r.dir_obey_eq_stop_iff input c p0 p1
  | ignores frames => exact (and_iff_left fun e he => (quiet_sent he).1).symm

end Robot

/-- **Step.**  A step leaves STOP exactly if it handles a movement command. -/
theorem dir_step (s : Firmware) (input : Input) :
    (firmware.step s input).1.robot.dir = .stop ↔
      s.robot.dir = .stop ∧ ∀ e ∈ (firmware.step s input).2, e.isMovement = false := by
  cases input with
  | int0 =>
      show s.robot.leftISR.dir = .stop ↔ _
      rw [(s.robot.leftISR_frame .stop).1]
      exact (and_iff_left fun e he => absurd he List.not_mem_nil).symm
  | int1 =>
      show s.robot.rightISR.dir = .stop ↔ _
      rw [(s.robot.rightISR_frame .stop).1]
      exact (and_iff_left fun e he => absurd he List.not_mem_nil).symm
  | loop input =>
      obtain ⟨reaction, hr, hrobot, hevents⟩ := s.loop_cases input
      show (s.loop input).1.robot.dir = .stop ↔
        s.robot.dir = .stop ∧ ∀ e ∈ (s.loop input).2, e.isMovement = false
      rw [hrobot, Robot.dir_check, Robot.dir_reaction_eq_stop_iff hr, hevents]
      refine and_congr_right fun _ => ⟨fun h e he => ?_, fun h e he => ?_⟩
      · rcases List.mem_append.mp he with he | he
        · exact h e he
        · exact (reaction.1.check_quiet he).1
      · exact h e (List.mem_append_left _ he)

/-- **Run.**  The robot is at STOP exactly if no movement command has been handled. -/
theorem dir_final (vincentCirc : ℚ) (leftover privateMem buffer packet : Nat → UInt8)
    (inputs : List Input) :
    let start := Firmware.initial vincentCirc leftover privateMem buffer packet
    (firmware.final start inputs).robot.dir = .stop ↔
      ∀ e ∈ start.events inputs, e.isMovement = false := by
  intro start
  refine @Mealy.trace_invariant _ _ _ firmware
    (fun s h => s.robot.dir = .stop ↔ ∀ e ∈ h, e.isMovement = false) ?_ start inputs
    (iff_of_true rfl fun e he => absurd he List.not_mem_nil)
  intro s h i hs
  rw [dir_step, hs]
  constructor
  · rintro ⟨hbefore, hnow⟩ e he
    rcases List.mem_append.mp he with he | he
    · exact hbefore e he
    · exact hnow e he
  · intro hall
    exact ⟨fun e he => hall e (List.mem_append_left _ he),
      fun e he => hall e (List.mem_append_right _ he)⟩

/-! ## Resting -/

def Event.isStop : Event → Bool
  | .handled c _ _ => c = .stop
  | .autoStop _ => true
  | .sent _ | .idle => false

/-- A call of `loop()` with nothing to read takes the STOP branches of a robot at STOP,
and puts no other to sleep. -/
theorem idle_mem_loop_silent_iff (s : Firmware) :
    .idle ∈ (s.loop .silent).2 ↔ s.robot.dir = .stop := by
  have hmove (r : Robot) : .idle ∉ r.finishMove.2 := by
    rw [Robot.finishMove]
    repeat' split
    all_goals simp
  have hturn (r : Robot) : .idle ∉ r.finishTurn.2 := by
    rw [Robot.finishTurn]
    repeat' split
    all_goals simp
  rw [(loop_silent s).2, Robot.check_snd, Robot.dir_finishTurn, Robot.dir_finishMove]
  constructor
  · intro h
    rcases List.mem_append.mp h with h | h
    · rcases List.mem_append.mp h with h | h
      · exact absurd h (hmove _)
      · exact absurd h (hturn _)
    · by_contra hne
      rw [if_neg hne] at h
      exact absurd h List.not_mem_nil
  · intro hdir
    rw [if_pos hdir]
    exact List.mem_append_right _ List.mem_cons_self

theorem add_one_ne_self (n : UInt32) : n + 1 ≠ n := by
  intro h
  have hnat := congrArg UInt32.toNat h
  rw [UInt32.toNat_add] at hnat
  have hone : (1 : UInt32).toNat = 1 := rfl
  have hlt := n.toNat_lt
  omega

theorem unbooked_iff (r : Robot) : (r.leftISR = r ∧ r.rightISR = r) ↔ r.dir = .stop := by
  constructor
  · rintro ⟨hleft, -⟩
    cases hdir : r.dir with
    | stop => rfl
    | forward =>
        rw [Robot.leftISR, hdir] at hleft
        exact absurd (congrArg Robot.leftForwardTicks hleft) (add_one_ne_self _)
    | backward =>
        rw [Robot.leftISR, hdir] at hleft
        exact absurd (congrArg Robot.leftReverseTicks hleft) (add_one_ne_self _)
    | left =>
        rw [Robot.leftISR, hdir] at hleft
        exact absurd (congrArg Robot.leftReverseTicksTurns hleft) (add_one_ne_self _)
    | right =>
        rw [Robot.leftISR, hdir] at hleft
        exact absurd (congrArg Robot.leftForwardTicksTurns hleft) (add_one_ne_self _)
  · intro hdir
    rw [Robot.leftISR, Robot.rightISR, hdir]
    exact ⟨rfl, rfl⟩

/-- **Standing.**  After a stop the robot is at STOP exactly if no movement command has
been handled since `setup()`; and exactly then `loop()` takes the STOP branches again and
the ticks of the standing robot are not booked. -/
theorem standing_iff (vincentCirc : ℚ) (leftover privateMem buffer packet : Nat → UInt8)
    (inputs : List Input) :
    let start := Firmware.initial vincentCirc leftover privateMem buffer packet
    let s := firmware.final start inputs
    let unmoved := ∀ e ∈ start.events inputs, e.isMovement = false
    (∃ e, lastMotorEvent (start.events inputs) = some e ∧ e.isStop = true) →
      (s.robot.dir = .stop ↔ unmoved) ∧ (.idle ∈ (s.loop .silent).2 ↔ unmoved) ∧
        ((s.robot.leftISR = s.robot ∧ s.robot.rightISR = s.robot) ↔ unmoved) := by
  intro start s unmoved _
  have hdir : s.robot.dir = .stop ↔ unmoved :=
    dir_final vincentCirc leftover privateMem buffer packet inputs
  rw [idle_mem_loop_silent_iff, unbooked_iff]
  exact ⟨hdir, hdir, hdir⟩

theorem events_loop (s : Firmware) (i : LoopInput) : s.events [.loop i] = [] ++ (s.loop i).2 :=
  List.append_nil _

theorem events_loop_loop (s : Firmware) (i j : LoopInput) :
    s.events [.loop i, .loop j] = (s.loop i).2 ++ ((s.loop i).1.loop j).2 :=
  congrArg ((s.loop i).2 ++ ·) (List.append_nil _)

theorem final_loop_loop (s : Firmware) (i j : LoopInput) :
    firmware.final s [.loop i, .loop j] = ((s.loop i).1.loop j).1 := rfl

/-- COMMAND_STOP is the last motor event if the checks after it stop nothing more. -/
theorem lastMotorEvent_stop {s : Firmware} (hs : s.uart.AtRest) (events : List Event)
    (hcheck : ∀ e ∈ (s.robot.obey (.command .stop 0 0) .stop 0 0).check.2, e = .idle) :
    lastMotorEvent (events ++ (s.loop (.command .stop 0 0)).2) = some (.handled .stop 0 0) := by
  obtain ⟨-, hevents, -⟩ := loop_command hs .stop 0 0
  have hnone : (s.robot.obey (.command .stop 0 0) .stop 0 0).check.2.filter Event.isMotorEvent = [] :=
    List.filter_eq_nil_iff.mpr fun e he => by
      rw [hcheck e he]
      exact Bool.false_ne_true
  have hsent : ((s.robot.acknowledge (.command .stop 0 0) .stop).map Event.sent).filter
      Event.isMotorEvent = [] := rfl
  rw [lastMotorEvent, hevents, List.filter_append, List.filter_append, List.filter_append, hnone,
    hsent, List.append_nil, List.nil_append]
  exact List.getLast?_concat

theorem lastMotorEvent_stop_alone :
    lastMotorEvent (Firmware.cleared.events [.loop (.command .stop 0 0)]) =
      some (.handled .stop 0 0) := by
  have hcheck : (Firmware.cleared.robot.obey (.command .stop 0 0) .stop 0 0).check.2 = [.idle] :=
    rfl
  rw [events_loop]
  refine lastMotorEvent_stop (Uart.atRest_initial ..) [] fun e he => ?_
  rw [hcheck] at he
  exact List.mem_singleton.mp he

/-- The first command is COMMAND_STOP. -/
theorem standing_iff_stop :
    let start := Firmware.initial (14072823 / 262144) (fun _ => 0) (fun _ => 0) (fun _ => 0)
      fun _ => 0
    let s := firmware.final start [.loop (.command .stop 0 0)]
    let unmoved := ∀ e ∈ start.events [.loop (.command .stop 0 0)], e.isMovement = false
    (s.robot.dir = .stop ↔ unmoved) ∧ (.idle ∈ (s.loop .silent).2 ↔ unmoved) ∧
      ((s.robot.leftISR = s.robot ∧ s.robot.rightISR = s.robot) ↔ unmoved) :=
  standing_iff (14072823 / 262144) (fun _ => 0) (fun _ => 0) (fun _ => 0) (fun _ => 0)
    [.loop (.command .stop 0 0)] ⟨.handled .stop 0 0, lastMotorEvent_stop_alone, rfl⟩

/-- Forward, and stop: the robot stands, and is still going forward. -/
theorem stopped_not_at_stop :
    lastMotorEvent (Firmware.cleared.events
        [.loop (.command .forward 50 100), .loop (.command .stop 0 0)]) =
      some (.handled .stop 0 0) ∧
    (firmware.final Firmware.cleared
      [.loop (.command .forward 50 100), .loop (.command .stop 0 0)]).robot.dir ≠ .stop := by
  obtain ⟨hmoved, -, hrest⟩ :=
    loop_command (s := .cleared) (Uart.atRest_initial ..) .forward 50 100
  obtain ⟨hstopped, -, -⟩ := loop_command hrest .stop 0 0
  constructor
  · rw [events_loop_loop]
    refine lastMotorEvent_stop hrest _ fun e he => ?_
    have hcheck : ((Firmware.cleared.robot.obey (.command .forward 50 100) .forward 50
        100).check.1.obey (.command .stop 0 0) .stop 0 0).check.2 = [] := by
      decide +kernel
    rw [hmoved, hcheck] at he
    exact absurd he List.not_mem_nil
  · have hdir : (Firmware.cleared.robot.obey (.command .forward 50 100) .forward 50
        100).dir = .forward := rfl
    rw [final_loop_loop, hstopped, Robot.dir_check, hmoved]
    show (Robot.check _).1.dir ≠ .stop
    rw [Robot.dir_check, hdir]
    exact TDirection.noConfusion

end Alex
