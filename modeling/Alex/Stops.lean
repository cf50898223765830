/-
# `Alex.Stops` — no movement is stopped before its time

Forward and backward movements share `newDist`, left and right turns share
`targetTicks`; neither is reset when a movement is interrupted, and clearing the
statistics clears the odometers but no target.  Still the automatic stops of
`loop()` stop nothing too early: while the robot moves in a direction, the target
of the direction is the one its latest movement command has set (`Tracked`), and
clearing an odometer only takes it further from the target.

How far an odometer has moved is counted step by step (`advance`), so that it does
not matter what the odometer shows.
-/
import Alex.Moves

namespace Alex

/-- The `deltaDist` or `deltaTicks` a movement command computes. -/
def Robot.ordered (r : Robot) (input : LoopInput) (c : TCommandType) (p0 p1 : UInt32) : Nat :=
  ((r.obey input c p0 p1).delta c.direction).toNat

/-! ## Odometers over a run -/

theorem Robot.odometer_check (r : Robot) (dir : TDirection) :
    r.check.1.odometer dir = r.odometer dir := by
  have hc := r.check_check
  generalize r.check = checked at hc ⊢
  cases hc with
  | passes _ _ _ => rfl
  | rests _ _ _ ho => exact ho dir
  | stops _ _ _ _ _ _ _ ho => exact ho dir

def Event.isClear : Event → Bool
  | .handled c _ _ => c = .clearStats
  | .sent _ | .autoStop _ | .idle => false

theorem Robot.check_quiet (r : Robot) {e : Event} (he : e ∈ r.check.2) :
    e.isMovement = false ∧ e.isClear = false := by
  rcases mem_check he with ⟨_, rfl⟩ | rfl
  · exact ⟨rfl, rfl⟩
  · exact ⟨rfl, rfl⟩

/-- What a step adds to an odometer; that a step clears it does not count. -/
def rise (odometer : Robot → UInt32) (s : Firmware) (input : Input) : Int :=
  if (firmware.step s input).2.any Event.isClear then 0
  else (odometer (firmware.step s input).1.robot).toNat - (odometer s.robot).toNat

theorem rise_loop {s : Firmware} {input : LoopInput} {reaction : Robot × List Event}
    (hrobot : (s.loop input).1.robot = reaction.1.check.1)
    (hevents : (s.loop input).2 = reaction.2 ++ reaction.1.check.2)
    (hn : ∀ e ∈ reaction.2, e.isClear = false) (dir : TDirection) :
    rise (fun r => r.odometer dir) s (.loop input) =
      (reaction.1.odometer dir).toNat - (s.robot.odometer dir).toNat := by
  have hno : (s.loop input).2.any Event.isClear = false := by
    rw [hevents, List.any_eq_false]
    intro e he hclear
    rcases List.mem_append.mp he with he | he
    · exact nomatch (hn e he).symm.trans hclear
    · exact nomatch (reaction.1.check_quiet he).2.symm.trans hclear
  show (if (s.loop input).2.any Event.isClear then 0
    else (((s.loop input).1.robot.odometer dir).toNat : Int) - (s.robot.odometer dir).toNat) = _
  rw [hno, hrobot, Robot.odometer_check]
  rfl

theorem rise_clear {s : Firmware} {input : LoopInput} {e : Event} (he : e ∈ (s.loop input).2)
    (hclear : e.isClear = true) (odometer : Robot → UInt32) :
    rise odometer s (.loop input) = 0 :=
  if_pos (List.any_eq_true.mpr ⟨e, he, hclear⟩)

/-- What the steps of a run add to an odometer. -/
def advance (odometer : Robot → UInt32) (s : Firmware) : List Input → Int
  | [] => 0
  | input :: inputs =>
      rise odometer s input + advance odometer (firmware.step s input).1 inputs

theorem advance_concat (odometer : Robot → UInt32) (s : Firmware) (inputs : List Input)
    (input : Input) : advance odometer s (inputs ++ [input]) =
      advance odometer s inputs + rise odometer (firmware.final s inputs) input := by
  induction inputs generalizing s with
  | nil => simp only [List.nil_append, advance, firmware.final_nil, Int.add_zero, Int.zero_add]
  | cons i is ih => simp only [List.cons_append, advance, firmware.final_cons, ih, Int.add_assoc]

/-! ## The latest movement -/

/-- In the run, the command `c` is the latest movement command: `loop()` handles it
with `input` after the steps `before`, and none in the steps `later`. -/
structure Latest (start : Firmware) (run before : List Input) (input : LoopInput)
    (later : List Input) (c : TCommandType) (p0 p1 : UInt32) : Prop where
  run_eq : run = before ++ .loop input :: later
  moves : c.isMovement = true
  handled : .handled c p0 p1 ∈ ((firmware.final start before).loop input).2
  since : ∀ e ∈ ((firmware.final start before).loop input).1.events later, e.isMovement = false

/-- The targets of a run fit into 32 bits. -/
def TargetsFit (start : Firmware) (run : List Input) : Prop :=
  ∀ before input c p0 p1, before ++ [.loop input] <+: run →
    .handled c p0 p1 ∈ ((firmware.final start before).loop input).2 → c.isMovement = true →
    ((firmware.final start before).robot.odometer c.direction).toNat +
      (firmware.final start before).robot.ordered input c p0 p1 < 2 ^ 32

section
variable {start : Firmware} {run : List Input}

theorem Latest.final_eq {before later : List Input} {input : LoopInput} {c : TCommandType}
    {p0 p1 : UInt32} (h : Latest start run before input later c p0 p1) :
    firmware.final start run =
      firmware.final ((firmware.final start before).loop input).1 later := by
  rw [h.run_eq, firmware.final_append]
  rfl

theorem Latest.concat {before later : List Input} {input : LoopInput} {c : TCommandType}
    {p0 p1 : UInt32} (h : Latest start run before input later c p0 p1) {i : Input}
    (hi : ∀ e ∈ (firmware.step (firmware.final start run) i).2, e.isMovement = false) :
    Latest start (run ++ [i]) before input (later ++ [i]) c p0 p1 where
  run_eq := by rw [h.run_eq, List.append_assoc, List.cons_append]
  moves := h.moves
  handled := h.handled
  since e he := by
    rw [Firmware.events, firmware.trace_concat] at he
    rcases List.mem_append.mp he with he | he
    · exact h.since e he
    · rw [← h.final_eq] at he
      exact hi e he

/-- The robot moves in direction `dir`, was at `origin` when it was told to go `delta`
further, and has come no further than `moved` since. -/
structure Robot.Tracks (dir : TDirection) (origin delta : Nat) (moved : Int) (r : Robot) :
    Prop where
  dir_eq : r.dir = dir
  target_eq : r.guard dir ≠ 0 → (r.target dir).toNat = origin + delta
  odometer_le : ((r.odometer dir).toNat : Int) ≤ origin + moved

/-- The robot has not moved in the run, or tracks the latest movement. -/
def Tracked (start : Firmware) (run : List Input) (r : Robot) : Prop :=
  r.dir = .stop ∨ ∃ before input later c p0 p1, Latest start run before input later c p0 p1 ∧
    r.Tracks c.direction ((firmware.final start before).robot.odometer c.direction).toNat
      ((firmware.final start before).robot.ordered input c p0 p1)
      (advance (fun r => r.odometer c.direction) ((firmware.final start before).loop input).1
        later)

/-- A step that starts no movement and leaves targets alone. -/
theorem Tracked.extend {i : Input} {r : Robot}
    (h : Tracked start run (firmware.final start run).robot)
    (hi : ∀ e ∈ (firmware.step (firmware.final start run) i).2, e.isMovement = false)
    (hdir : r.dir = (firmware.final start run).robot.dir)
    (hguard : ∀ d, r.guard d = (firmware.final start run).robot.guard d)
    (htarget : ∀ d, r.target d = (firmware.final start run).robot.target d)
    (hodometer : ∀ d, ((r.odometer d).toNat : Int) ≤
      ((firmware.final start run).robot.odometer d).toNat +
        rise (fun r => r.odometer d) (firmware.final start run) i) :
    Tracked start (run ++ [i]) r := by
  rcases h with hs | ⟨before, input, later, c, p0, p1, hl, ht⟩
  · exact .inl (hdir.trans hs)
  · refine .inr ⟨before, input, later ++ [i], c, p0, p1, hl.concat hi, hdir.trans ht.dir_eq, ?_, ?_⟩
    · rw [hguard, htarget]
      exact ht.target_eq
    · rw [advance_concat, ← hl.final_eq]
      have hmoved := ht.odometer_le
      have hstep := hodometer c.direction
      omega

theorem Tracked.check {r : Robot} (h : Tracked start run r) : Tracked start run r.check.1 := by
  have hc := r.check_check
  generalize r.check = checked at hc ⊢
  cases hc with
  | passes _ _ _ => exact h
  | rests r' _ hs _ => exact .inl hs
  | stops r' _ _ _ hdir _ hg ho =>
      rcases h with hs | ⟨before, input, later, c, p0, p1, hl, ht⟩
      · exact .inl (hdir.trans hs)
      · refine .inr ⟨before, input, later, c, p0, p1, hl, hdir.trans ht.dir_eq, ?_, ?_⟩
        · rw [← ht.dir_eq]
          exact fun hne => absurd hg hne
        · rw [ho]
          exact ht.odometer_le

/-- A stop comes no earlier than the latest movement allows. -/
theorem Tracked.stop {r : Robot} (h : Tracked start run r) {dir : TDirection}
    (hstop : .autoStop dir ∈ r.check.2) (hd : dir ≠ .stop) :
    ∃ before input later c p0 p1, Latest start run before input later c p0 p1 ∧
      c.direction = dir ∧
      ((firmware.final start before).robot.ordered input c p0 p1 : Int) ≤
        advance (fun r => r.odometer dir) ((firmware.final start before).loop input).1 later := by
  have hc := r.check_check
  generalize r.check = checked at hc hstop
  cases hc with
  | passes _ hidle _ => exact nomatch hidle _ hstop
  | rests r' _ _ _ =>
      rcases List.mem_cons.mp hstop with he | he
      · cases he
        exact absurd rfl hd
      · exact nomatch List.mem_singleton.mp he
  | stops r' _ hg hreached _ _ _ _ =>
      cases List.mem_singleton.mp hstop
      rcases h with hs | ⟨before, input, later, c, p0, p1, hl, ht⟩
      · exact absurd hs hd
      · have hdir := ht.dir_eq
        have htarget := ht.target_eq
        have hmoved := ht.odometer_le
        rw [← hdir] at htarget hmoved
        have hreached' := UInt32.le_iff_toNat_le.mp hreached
        rw [htarget hg] at hreached'
        refine ⟨before, input, later, c, p0, p1, hl, hdir.symm, ?_⟩
        omega

theorem quiet_sent {frames : List (List UInt8)} {e : Event} (he : e ∈ frames.map Event.sent) :
    e.isMovement = false ∧ e.isClear = false := by
  obtain ⟨f, -, rfl⟩ := List.mem_map.mp he
  exact ⟨rfl, rfl⟩

section
variable {input : LoopInput} {reaction : Robot × List Event}
  (hrobot : ((firmware.final start run).loop input).1.robot = reaction.1.check.1)
  (hevents : ((firmware.final start run).loop input).2 = reaction.2 ++ reaction.1.check.2)
include hevents

theorem loop_isMovement (hmoves : ∀ e ∈ reaction.2, e.isMovement = false) :
    ∀ e ∈ ((firmware.final start run).loop input).2, e.isMovement = false := by
  intro e he
  rw [hevents] at he
  rcases List.mem_append.mp he with he | he
  · exact hmoves e he
  · exact (reaction.1.check_quiet he).1

include hrobot

theorem Tracked.unmoved (h : Tracked start run (firmware.final start run).robot)
    (hquiet : ∀ e ∈ reaction.2, e.isMovement = false ∧ e.isClear = false)
    (hdir : reaction.1.dir = (firmware.final start run).robot.dir)
    (hframe : ∀ d, reaction.1.guard d = (firmware.final start run).robot.guard d ∧
      reaction.1.target d = (firmware.final start run).robot.target d ∧
      reaction.1.odometer d = (firmware.final start run).robot.odometer d) :
    Tracked start (run ++ [.loop input]) reaction.1 := by
  refine h.extend (loop_isMovement hevents fun e he => (hquiet e he).1) hdir
    (fun d => (hframe d).1) (fun d => (hframe d).2.1) fun d => ?_
  rw [rise_loop hrobot hevents (fun e he => (hquiet e he).2) d, (hframe d).2.2]
  omega

end

theorem Tracked.movement {input : LoopInput} (hfit : TargetsFit start (run ++ [.loop input]))
    {c : TCommandType} (hc : c.isMovement = true) {p0 p1 : UInt32}
    (hmem : .handled c p0 p1 ∈ ((firmware.final start run).loop input).2) :
    Tracked start (run ++ [.loop input])
      ((firmware.final start run).robot.obey input c p0 p1) := by
  obtain ⟨hdir, htarget, hodometer⟩ := obey_movement hc (firmware.final start run).robot input p0 p1
  have hsum := hfit run input c p0 p1 (List.prefix_refl _) hmem hc
  refine .inr ⟨run, input, [], c, p0, p1, ⟨rfl, hc, hmem, ?_⟩, hdir, ?_, ?_⟩
  · exact fun e he => absurd he List.not_mem_nil
  · intro _
    rw [htarget, UInt32.toNat_add]
    exact Nat.mod_eq_of_lt hsum
  · rw [hodometer]
    exact Int.le_of_eq (Int.add_zero _).symm

theorem Tracked.cleared {input : LoopInput} {p0 p1 : UInt32}
    (h : Tracked start run (firmware.final start run).robot)
    (hmoves : ∀ e ∈ ((firmware.final start run).loop input).2, e.isMovement = false)
    (hmem : .handled .clearStats p0 p1 ∈ ((firmware.final start run).loop input).2) :
    Tracked start (run ++ [.loop input])
      ((firmware.final start run).robot.obey input .clearStats p0 p1) := by
  refine h.extend hmoves rfl (fun _ => rfl) (fun _ => rfl) fun d => ?_
  rw [rise_clear hmem rfl, Int.add_zero]
  have hzero : ((firmware.final start run).robot.clearOneCounter p0).odometer d = 0 := by
    cases d <;> rfl
  show (((Robot.clearOneCounter _ p0).odometer d).toNat : Int) ≤ _
  rw [hzero]
  exact Int.natCast_nonneg _

/-- **Step.**  Whatever `loop()` reads, its latest movement is tracked when the checks
are made: a command that moves is now the latest one, the others leave targets alone. -/
theorem Tracked.reaction (h : Tracked start run (firmware.final start run).robot)
    {input : LoopInput} (hfit : TargetsFit start (run ++ [.loop input]))
    {reaction : Robot × List Event} (hr : (firmware.final start run).robot.Reaction input reaction)
    (hrobot : ((firmware.final start run).loop input).1.robot = reaction.1.check.1)
    (hevents : ((firmware.final start run).loop input).2 = reaction.2 ++ reaction.1.check.2) :
    Tracked start (run ++ [.loop input]) reaction.1 := by
  cases hr with
  | ignores frames =>
      exact h.unmoved hrobot hevents (fun e he => quiet_sent he) rfl fun _ => ⟨rfl, rfl, rfl⟩
  | obeys c p0 p1 frames =>
      have hmem : Event.handled c p0 p1 ∈ ((firmware.final start run).loop input).2 := by
        rw [hevents]
        exact List.mem_append_left _ (List.mem_append_right _ List.mem_cons_self)
      -- what is handled besides `c` is the sending of frames
      have hquiet (hc : (Event.handled c p0 p1).isMovement = false ∧
          (Event.handled c p0 p1).isClear = false) :
          ∀ e ∈ frames.map Event.sent ++ [.handled c p0 p1],
            e.isMovement = false ∧ e.isClear = false := by
        intro e he
        rcases List.mem_append.mp he with he | he
        · exact quiet_sent he
        · rw [List.mem_singleton.mp he]
          exact hc
      cases c with
      | forward => exact .movement hfit rfl hmem
      | reverse => exact .movement hfit rfl hmem
      | turnLeft => exact .movement hfit rfl hmem
      | turnRight => exact .movement hfit rfl hmem
      | stop => exact h.unmoved hrobot hevents (hquiet ⟨rfl, rfl⟩) rfl fun _ => ⟨rfl, rfl, rfl⟩
      | getStats => exact h.unmoved hrobot hevents (hquiet ⟨rfl, rfl⟩) rfl fun _ => ⟨rfl, rfl, rfl⟩
      | clearStats =>
          refine h.cleared (loop_isMovement hevents fun e he => ?_) hmem
          rcases List.mem_append.mp he with he | he
          · exact (quiet_sent he).1
          · rw [List.mem_singleton.mp he]
            rfl

theorem rise_interrupt {s : Firmware} {i : Input} (hi : (firmware.step s i).2 = [])
    (odometer : Robot → UInt32) : rise odometer s i =
      (odometer (firmware.step s i).1.robot).toNat - (odometer s.robot).toNat := by
  rw [rise, hi]
  rfl

theorem Tracked.interrupt (h : Tracked start run (firmware.final start run).robot) {i : Input}
    (hi : (firmware.step (firmware.final start run) i).2 = [])
    (hframe : ∀ d, (firmware.step (firmware.final start run) i).1.robot.dir =
        (firmware.final start run).robot.dir ∧
      (firmware.step (firmware.final start run) i).1.robot.guard d =
        (firmware.final start run).robot.guard d ∧
      (firmware.step (firmware.final start run) i).1.robot.target d =
        (firmware.final start run).robot.target d) :
    Tracked start (run ++ [i]) (firmware.step (firmware.final start run) i).1.robot := by
  refine h.extend ?_ (hframe .stop).1 (fun d => (hframe d).2.1) (fun d => (hframe d).2.2) fun d => ?_
  · rw [hi]
    exact fun e he => absurd he List.not_mem_nil
  · rw [rise_interrupt hi]
    omega

end

/-- **Run.**  After every run the latest movement is tracked. -/
theorem tracked_final {start : Firmware} (hstart : start.robot.dir = .stop) (run : List Input)
    (hfit : TargetsFit start run) : Tracked start run (firmware.final start run).robot := by
  induction run using List.reverseRecOn with
  | nil => exact .inl hstart
  | append_singleton run i ih =>
      have ih := ih fun before input c p0 p1 hp => hfit before input c p0 p1
        (hp.trans (List.prefix_append _ _))
      rw [firmware.final_concat]
      cases i with
      | int0 => exact ih.interrupt rfl fun d => Robot.leftISR_frame _ d
      | int1 => exact ih.interrupt rfl fun d => Robot.rightISR_frame _ d
      | loop input =>
          obtain ⟨reaction, hr, hrobot, hevents⟩ := (firmware.final start run).loop_cases input
          show Tracked start _ ((firmware.final start run).loop input).1.robot
          rw [hrobot]
          exact (ih.reaction hfit hr hrobot hevents).check

/-- **No premature stop.**  When `loop()` stops a movement of its own accord, the
latest movement command was one in this direction, and since then the odometer has
moved by at least what that command computed, clears notwithstanding. -/
theorem no_premature_stop (vincentCirc : ℚ) (leftover privateMem buffer packet : Nat → UInt8)
    (inputs : List Input) (last : LoopInput) (dir : TDirection) :
    let start := Firmware.initial vincentCirc leftover privateMem buffer packet
    TargetsFit start (inputs ++ [.loop last]) → dir ≠ .stop →
    .autoStop dir ∈ ((firmware.final start inputs).loop last).2 →
    ∃ before input later c p0 p1,
      Latest start (inputs ++ [.loop last]) before input later c p0 p1 ∧ c.direction = dir ∧
      ((firmware.final start before).robot.ordered input c p0 p1 : Int) ≤
        advance (fun r => r.odometer dir) ((firmware.final start before).loop input).1 later := by
  intro start hfit hd hstop
  have ih := @tracked_final start rfl inputs fun before input c p0 p1 hp =>
    hfit before input c p0 p1 (hp.trans (List.prefix_append _ _))
  obtain ⟨reaction, hr, hrobot, hevents⟩ := (firmware.final start inputs).loop_cases last
  refine (ih.reaction hfit hr hrobot hevents).stop ?_ hd
  rw [hevents] at hstop
  rcases List.mem_append.mp hstop with hmem | hmem
  · cases hr with
    | ignores frames =>
        obtain ⟨f, -, hf⟩ := List.mem_map.mp hmem
        exact nomatch hf
    | obeys c p0 p1 frames =>
        rcases List.mem_append.mp hmem with hm | hm
        · obtain ⟨f, -, hf⟩ := List.mem_map.mp hm
          exact nomatch hf
        · exact nomatch List.mem_singleton.mp hm
  · exact hmem

/-- Two degrees are a tick: the second call of `loop()` stops the turn. -/
theorem no_premature_stop_two_degrees :
    .autoStop .right ∈ ((firmware.final Firmware.cleared
      [.loop (.command .turnRight 2 100), .int0]).loop .silent).2 ∧
    ∃ before input later c p0 p1,
      Latest Firmware.cleared [.loop (.command .turnRight 2 100), .int0, .loop .silent]
        before input later c p0 p1 ∧ c.direction = .right ∧
      ((firmware.final Firmware.cleared before).robot.ordered input c p0 p1 : Int) ≤
        advance (fun r => r.odometer .right)
          ((firmware.final Firmware.cleared before).loop input).1 later := by
  have hloop := @loop_frame Firmware.cleared (.command .turnRight 2 100) (fun _ => 0)
    (.ofCommand .turnRight 2 100) (Assembler.between_initial _ _) rfl
  have h₀ : (TPacket.ofCommand .turnRight 2 100).params 0 = 2 := rfl
  have h₁ : (TPacket.ofCommand .turnRight 2 100).params 1 = 100 := rfl
  rw [Robot.handlePacket_command (c := .turnRight) rfl rfl, h₀, h₁] at hloop
  have hobey : Firmware.cleared.robot.obey (.command .turnRight 2 100) .turnRight 2 100 =
      (Robot.initial (14072823 / 262144)).right (2 : UInt32).toNat (100 : UInt32).toNat := rfl
  have hrobot (s : Firmware) (input : LoopInput) :
      (firmware.final s [.loop input, .int0]).robot = (s.loop input).1.robot.leftISR := rfl
  have hstop : .autoStop .right ∈ ((firmware.final Firmware.cleared
      [.loop (.command .turnRight 2 100), .int0]).loop .silent).2 := by
    rw [(loop_silent _).2, hrobot, hloop.1, hobey]
    decide +kernel
  refine ⟨hstop, no_premature_stop (14072823 / 262144) (fun _ => 0) (fun _ => 0) (fun _ => 0)
    (fun _ => 0) [.loop (.command .turnRight 2 100), .int0] .silent .right ?_
    (fun h => nomatch h) hstop⟩
  intro before input c p0 p1 hp hhandled hc
  rcases before with _ | ⟨_, _ | ⟨_, _ | ⟨_, before⟩⟩⟩
  · obtain ⟨hi, -⟩ := List.cons_prefix_cons.mp hp
    cases hi
    replace hhandled : Event.handled c p0 p1 ∈ (Firmware.cleared.loop _).2 := hhandled
    rw [hloop.2] at hhandled
    rcases List.mem_append.mp hhandled with hm | hm
    · rcases List.mem_cons.mp hm with hm | hm
      · exact nomatch hm
      · cases List.mem_singleton.mp hm
        show (0 : UInt32).toNat + (Robot.turn (14072823 / 262144) (2 : UInt32).toNat).toNat < _
        have hturn : Robot.turn (14072823 / 262144) (2 : UInt32).toNat = 1 := by decide +kernel
        rw [hturn]
        decide
    · exact absurd hm (Robot.not_handled_check _ c p0 p1)
  · obtain ⟨-, hp⟩ := List.cons_prefix_cons.mp hp
    exact nomatch (List.cons_prefix_cons.mp hp).1
  · obtain ⟨hx, hp⟩ := List.cons_prefix_cons.mp hp
    obtain ⟨hy, hp⟩ := List.cons_prefix_cons.mp hp
    obtain ⟨hz, -⟩ := List.cons_prefix_cons.mp hp
    cases hx
    cases hy
    cases hz
    rw [(loop_silent _).2] at hhandled
    exact absurd hhandled (Robot.not_handled_check _ c p0 p1)
  · have hlen := hp.length_le
    simp only [List.length_append, List.length_cons, List.length_nil] at hlen
    omega

end Alex
