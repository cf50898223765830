/-
# `Alex.Clears` — clearing the statistics moves the target away

The odometers that COMMAND_CLEAR_STATS clears are those `loop()` compares with the
target, and the target is absolute: it was computed from the odometer when the movement
began.  A movement that has come some way goes that way again after a clear.

Of a moving robot five variables decide when it stops, its `Course`:

    tick of the right wheel     counter++
    tick of the left wheel      odometer := distance of counter
    clear                       odometer := 0, counter := 0
    loop()                      guard ≠ 0, target ≤ odometer: stop

of a straight movement; a turn has one of the ticks for both.  On these the run with the
clear and the run without it can be compared.
-/
import Alex.Odometry

namespace Alex

/-- A tick, or a call of `loop()` with nothing to read. -/
def Input.Quiet : Input → Prop
  | .int0 | .int1 => True
  | .loop input => input.bytes = []

/-! ## Courses -/

/-- What decides when a movement stops. -/
structure Course where
  dir : TDirection
  guard : UInt32
  target : UInt32
  odometer : UInt32
  counter : UInt32

namespace Course

def left (c : Course) : Course :=
  match c.dir with
  | .forward | .backward =>
      { c with odometer := toULong (c.counter.toNat / countsPerRev * wheelCirc) }
  | .right => { c with odometer := c.odometer + 1, counter := c.counter + 1 }
  | .left | .stop => c

def right (c : Course) : Course :=
  match c.dir with
  | .forward | .backward => { c with counter := c.counter + 1 }
  | .left => { c with odometer := c.odometer + 1, counter := c.counter + 1 }
  | .right | .stop => c

def check (c : Course) : Course × List Event :=
  if c.guard > 0 then
    if c.odometer ≥ c.target then ({ c with guard := 0, target := 0 }, [.autoStop c.dir])
    else (c, [])
  else (c, [])

def clear (c : Course) : Course := { c with odometer := 0, counter := 0 }

def coasting : Mealy Course Input (List Event) where
  step c input :=
    match input with
    | .int0 => (c.left, [])
    | .int1 => (c.right, [])
    | .loop _ => c.check

/-! ## Courses that end -/

def Straight (c : Course) : Prop := c.dir = .forward ∨ c.dir = .backward

/-- The least number of ticks with which a distance is reached. -/
def ticksTo (n : Nat) : Nat := (250 * n + 16) / 17

theorem le_wholeUnits_iff (n : Nat) (ticks : UInt32) :
    n ≤ wholeUnits ticks ↔ ticksTo n ≤ ticks.toNat := by
  rw [wholeUnits_eq, ticksTo]
  omega

theorem Straight.left_eq {c : Course} (h : c.Straight) :
    c.left = { c with odometer := toULong (c.counter.toNat / countsPerRev * wheelCirc) } := by
  rw [left]
  rcases h with h | h <;> rw [h]

theorem Straight.right_eq {c : Course} (h : c.Straight) :
    c.right = { c with counter := c.counter + 1 } := by
  rw [right]
  rcases h with h | h <;> rw [h]

theorem Straight.final_right {c : Course} (h : c.Straight) (n : Nat) :
    coasting.final c (List.replicate n .int1) = { c with counter := c.counter + .ofNat n } := by
  induction n generalizing c with
  | zero => simp
  | succ n ih =>
      have hsum : c.counter + 1 + UInt32.ofNat n = c.counter + UInt32.ofNat (n + 1) := by
        rw [UInt32.add_assoc, UInt32.add_comm 1, UInt32.ofNat_add]
        rfl
      have hnext : ({ c with counter := c.counter + 1 } : Course).Straight := h
      show coasting.final c.right _ = _
      rw [h.right_eq, ih hnext]
      exact congrArg (fun counter => { c with counter := counter }) hsum

/-- After `n` ticks of the right wheel and one of the left `loop()` stops a straight
movement if the right wheel has come far enough. -/
theorem Straight.stops_iff {c : Course} (h : c.Straight) (hguard : c.guard ≠ 0) (n : Nat) :
    (coasting.final c (List.replicate n .int1 ++ [.int0])).check.2 ≠ [] ↔
      ticksTo c.target.toNat ≤ (c.counter.toNat + n) % 4294967296 := by
  have hnext : ({ c with counter := c.counter + .ofNat n } : Course).Straight := h
  have hcounter : (c.counter + UInt32.ofNat n).toNat = (c.counter.toNat + n) % 4294967296 := by
    rw [UInt32.toNat_add, UInt32.toNat_ofNat', Nat.add_mod_mod]
  rw [coasting.final_append, h.final_right]
  show (check (left _)).2 ≠ [] ↔ _
  rw [hnext.left_eq, ← hcounter, ← le_wholeUnits_iff, ← toNat_measured, ← UInt32.le_iff_toNat_le,
    check, if_pos (UInt32.pos_iff_ne_zero.mpr hguard)]
  split
  · rename_i hreached
    exact iff_of_true (List.cons_ne_nil _ _) hreached
  · rename_i hreached
    exact iff_of_false (fun hne => hne rfl) hreached

/-- A straight movement that has ticks behind it, and can reach its target, gets there
later with them cleared. -/
theorem Straight.outputs_ne {c : Course} (h : c.Straight) (hguard : c.guard ≠ 0)
    (htarget : c.target ≠ 0) (hcounter : c.counter ≠ 0) (hfar : c.target.toNat ≤ farthest) :
    ∃ later : List Input, (∀ i ∈ later, i.Quiet) ∧
      coasting.outputs c.clear later ≠ coasting.outputs c later := by
  have hclear : c.clear.Straight := h
  have hT : ticksTo c.target.toNat < 4294967296 ∧ 0 < ticksTo c.target.toNat := by
    have hpos := toNat_ne_zero_iff.mp htarget
    rw [ticksTo]
    rw [farthest] at hfar
    omega
  have hlt := c.counter.toNat_lt
  have hpos := toNat_ne_zero_iff.mp hcounter
  have hzero : c.clear.counter.toNat = 0 := rfl
  have hsame : c.clear.target = c.target := rfl
  -- just as many ticks as the movement still needs, if it needs any
  let n := ticksTo c.target.toNat - c.counter.toNat
  have hstops := (h.stops_iff hguard n).mpr (by omega)
  have hpasses := (hclear.stops_iff hguard n).not.mpr (by rw [hzero, hsame]; omega)
  refine ⟨List.replicate n .int1 ++ [.int0] ++ [.loop .silent], fun i hi => ?_, fun heq => ?_⟩
  · rcases List.mem_append.mp hi with hi | hi
    · rcases List.mem_append.mp hi with hi | hi
      · rw [List.eq_of_mem_replicate hi]
        trivial
      · rw [List.mem_singleton.mp hi]
        trivial
    · rw [List.mem_singleton.mp hi]
      rfl
  · rw [coasting.outputs_append c.clear _ [.loop .silent],
      coasting.outputs_append c _ [.loop .silent]] at heq
    have hlast := List.singleton_inj.mp (List.append_inj' heq rfl).2
    exact hpasses fun hnil => hstops (hlast.symm.trans hnil)

/-- A straight movement that cannot reach its target. -/
structure Endless (c : Course) : Prop where
  straight : c.Straight
  odometer_le : c.odometer.toNat ≤ farthest
  target_gt : farthest < c.target.toNat

theorem Endless.step {c : Course} (h : c.Endless) (input : Input) :
    (coasting.step c input).1.Endless ∧ (coasting.step c input).2 = [] := by
  cases input with
  | int0 =>
      show c.left.Endless ∧ _
      rw [h.straight.left_eq]
      refine ⟨⟨h.straight, ?_, h.target_gt⟩, rfl⟩
      rw [toNat_measured]
      exact wholeUnits_le _
  | int1 =>
      show c.right.Endless ∧ _
      rw [h.straight.right_eq]
      exact ⟨⟨h.straight, h.odometer_le, h.target_gt⟩, rfl⟩
  | loop input =>
      have hno : ¬ c.odometer ≥ c.target :=
        UInt32.not_le.mpr (UInt32.lt_iff_toNat_lt.mpr (Nat.lt_of_le_of_lt h.odometer_le h.target_gt))
      have hcheck : c.check = (c, []) := by
        rw [check, if_neg hno]
        exact ite_self _
      show c.check.1.Endless ∧ c.check.2 = []
      rw [hcheck]
      exact ⟨h, rfl⟩

theorem Endless.outputs {c d : Course} (hc : c.Endless) (hd : d.Endless) (later : List Input) :
    coasting.outputs c later = coasting.outputs d later :=
  (coasting.simulation (R := fun c d => c.Endless ∧ d.Endless) (P := fun _ => True)
    (fun _ _ input _ h => ⟨⟨(h.1.step input).1, (h.2.step input).1⟩,
      (h.1.step input).2.trans (h.2.step input).2.symm⟩) (fun _ _ => trivial) ⟨hc, hd⟩).2

/-- The counter of a turn is its odometer. -/
def Regular (c : Course) : Prop := ¬ c.Straight → c.counter = c.odometer

/-- **Clearing** a course that is under way changes nothing exactly if its odometer shows
zero, and no ticks are behind it that would bring it to its target. -/
theorem clear_eq_iff {c : Course} (hr : c.Regular) (hguard : c.guard ≠ 0)
    (hunder : c.odometer < c.target) :
    (c.target - 0 = c.target - c.odometer ∧
      ∀ later : List Input, (∀ i ∈ later, i.Quiet) →
        coasting.outputs c.clear later = coasting.outputs c later) ↔
      c.odometer = 0 ∧ (c.counter = 0 ∨ farthest < c.target.toNat) := by
  have hpos : c.target ≠ 0 := UInt32.pos_iff_ne_zero.mp (UInt32.lt_of_le_of_lt UInt32.zero_le hunder)
  have hsub : c.target - 0 = c.target - c.odometer ↔ c.odometer = 0 := by
    rw [UInt32.sub_right_inj]
    exact eq_comm
  rw [hsub]
  refine and_congr_right fun hzero => ?_
  have hcleared (hcounter : c.counter = 0) : c.clear = c := by
    show Course.mk c.dir c.guard c.target 0 0 = ⟨c.dir, c.guard, c.target, c.odometer, c.counter⟩
    rw [hzero, hcounter]
  constructor
  · intro h
    by_contra hno
    obtain ⟨hcounter, hfar⟩ := not_or.mp hno
    -- a turn with nothing on its odometer has no ticks behind it
    have hstraight : c.Straight := by
      by_contra hturn
      exact hcounter ((hr hturn).trans hzero)
    obtain ⟨later, hq, hne⟩ := hstraight.outputs_ne hguard hpos hcounter (Nat.not_lt.mp hfar)
    exact hne (h later hq)
  · rintro (hcounter | hfar) later -
    · rw [hcleared hcounter]
    · by_cases hstraight : c.Straight
      · have hle : c.odometer.toNat ≤ farthest := by
          rw [hzero]
          exact Nat.zero_le _
        have hclear : c.clear.Endless := ⟨hstraight, Nat.zero_le _, hfar⟩
        exact hclear.outputs ⟨hstraight, hle, hfar⟩ later
      · rw [hcleared ((hr hstraight).trans hzero)]

end Course

namespace Robot

/-- The ticks the odometer of a direction is computed from. -/
def counter (r : Robot) : TDirection → UInt32
  | .forward => r.rightForwardTicks
  | .backward => r.rightReverseTicks
  | .left => r.rightForwardTicksTurns
  | .right => r.leftForwardTicksTurns
  | .stop => 0

def course (r : Robot) : Course where
  dir := r.dir
  guard := r.guard r.dir
  target := r.target r.dir
  odometer := r.odometer r.dir
  counter := r.counter r.dir

theorem course_leftISR (r : Robot) : r.leftISR.course = r.course.left := by
  rw [leftISR]
  cases hdir : r.dir <;> simp only [course, Course.left, odometer, target, guard, counter, hdir]

theorem course_rightISR (r : Robot) : r.rightISR.course = r.course.right := by
  rw [rightISR]
  cases hdir : r.dir <;> simp only [course, Course.right, odometer, target, guard, counter, hdir]

theorem course_clear (r : Robot) (which : UInt32) :
    (r.clearOneCounter which).course = r.course.clear := by
  rw [clearOneCounter, clearCounters]
  cases hdir : r.dir <;> simp only [course, Course.clear, odometer, target, guard, counter, hdir]

theorem course_ite {r : Robot} (r' : Robot) {dir : TDirection} (hdir : r.dir = dir)
    (hstopped : r'.course = { r.course with guard := 0, target := 0 })
    {checked : Robot × List Event} (hchecked : checked = if r.guard dir > 0 then
      if r.odometer dir ≥ r.target dir then (r', [.autoStop dir]) else (r, []) else (r, [])) :
    checked.1.course = r.course.check.1 ∧ checked.2 = r.course.check.2 := by
  subst hdir
  have hcheck : r.course.check = if r.guard r.dir > 0 then
      if r.odometer r.dir ≥ r.target r.dir then
        ({ r.course with guard := 0, target := 0 }, [.autoStop r.dir])
      else (r.course, []) else (r.course, []) := rfl
  rw [hchecked, hcheck]
  by_cases hguard : r.guard r.dir > 0
  · by_cases hreached : r.odometer r.dir ≥ r.target r.dir
    · rw [if_pos hguard, if_pos hguard, if_pos hreached, if_pos hreached]
      exact ⟨hstopped, rfl⟩
    · rw [if_pos hguard, if_pos hguard, if_neg hreached, if_neg hreached]
      exact ⟨rfl, rfl⟩
  · rw [if_neg hguard, if_neg hguard]
    exact ⟨rfl, rfl⟩

theorem course_check {r : Robot} (h : r.dir ≠ .stop) :
    r.check.1.course = r.course.check.1 ∧ r.check.2 = r.course.check.2 := by
  cases hdir : r.dir with
  | forward =>
      refine course_ite (stop { r with dir := .forward, deltaDist := 0, newDist := 0 }) hdir ?_ ?_
      · rw [course, course, hdir]
        rfl
      · rw [check_of_straight (.inl hdir), finishMove, hdir]
        rfl
  | backward =>
      refine course_ite (stop { r with dir := .backward, deltaDist := 0, newDist := 0 }) hdir ?_ ?_
      · rw [course, course, hdir]
        rfl
      · rw [check_of_straight (.inr hdir), finishMove, hdir]
        rfl
  | left =>
      refine course_ite { r.stop with deltaTicks := 0, targetTicks := 0 } hdir ?_ ?_
      · have hdir' : ({ r.stop with deltaTicks := 0, targetTicks := 0 } : Robot).dir = .left := hdir
        rw [course, course, hdir, hdir']
        rfl
      · rw [check_of_turning (.inl hdir), finishTurn, hdir]
        rfl
  | right =>
      refine course_ite { r.stop with deltaTicks := 0, targetTicks := 0 } hdir ?_ ?_
      · have hdir' : ({ r.stop with deltaTicks := 0, targetTicks := 0 } : Robot).dir = .right := hdir
        rw [course, course, hdir, hdir']
        rfl
      · rw [check_of_turning (.inr hdir), finishTurn, hdir]
        rfl
  | stop => exact absurd hdir h

/-- What is left of the way to the target. -/
def remaining (r : Robot) : UInt32 := r.target r.dir - r.odometer r.dir

theorem remaining_eq (r : Robot) : r.remaining = r.course.target - r.course.odometer := rfl

/-- A movement is under way: it has a target, and has not reached it. -/
structure Moving (r : Robot) : Prop where
  dir_ne : r.dir ≠ .stop
  guard_ne : r.guard r.dir ≠ 0
  odometer_lt : r.odometer r.dir < r.target r.dir

end Robot

/-! ## Runs that nobody disturbs -/

theorem loop_of_quiet (s : Firmware) {input : LoopInput} (h : input.bytes = []) :
    (s.loop input).1.robot = s.robot.check.1 ∧ (s.loop input).2 = s.robot.check.2 := by
  obtain ⟨bytes, buffer, recvPacket, first, second, redLight, greenLight⟩ := input
  subst h
  exact ⟨rfl, rfl⟩

/-- **Step.**  The firmware of a moving robot does what its course does. -/
theorem course_step {s : Firmware} (h : s.robot.dir ≠ .stop) {input : Input}
    (hq : input.Quiet) :
    ((firmware.step s input).1.robot.dir ≠ .stop ∧
      (firmware.step s input).1.robot.course = (Course.coasting.step s.robot.course input).1) ∧
    (firmware.step s input).2 = (Course.coasting.step s.robot.course input).2 := by
  cases input with
  | int0 => exact ⟨⟨(s.robot.leftISR_frame .stop).1 ▸ h, s.robot.course_leftISR⟩, rfl⟩
  | int1 => exact ⟨⟨(s.robot.rightISR_frame .stop).1 ▸ h, s.robot.course_rightISR⟩, rfl⟩
  | loop input =>
      obtain ⟨hrobot, hevents⟩ := loop_of_quiet s hq
      obtain ⟨hcourse, hcheck⟩ := Robot.course_check h
      show ((s.loop input).1.robot.dir ≠ .stop ∧ (s.loop input).1.robot.course = _) ∧
        (s.loop input).2 = _
      rw [hrobot, hevents, Robot.dir_check]
      exact ⟨⟨h, hcourse⟩, hcheck⟩

theorem course_outputs {s : Firmware} (h : s.robot.dir ≠ .stop) {later : List Input}
    (hq : ∀ i ∈ later, i.Quiet) :
    firmware.outputs s later = Course.coasting.outputs s.robot.course later :=
  (firmware.simulation (R := fun s c => s.robot.dir ≠ .stop ∧ s.robot.course = c)
    (P := Input.Quiet) (fun s c input hq hr => by
      obtain ⟨hne, rfl⟩ := hr
      exact course_step hne hq) hq ⟨h, rfl⟩).2

/-! ## The clear -/

theorem Robot.course_regular (r : Robot) : r.course.Regular := by
  intro hturn
  cases hdir : r.dir with
  | forward => exact absurd (.inl hdir) hturn
  | backward => exact absurd (.inr hdir) hturn
  | left =>
      rw [course, hdir]
      rfl
  | right =>
      rw [course, hdir]
      rfl
  | stop =>
      rw [course, hdir]
      rfl

/-- The way left to go is the same, and so is whatever `loop()` will do about it. -/
structure Undisturbed (s s' : Firmware) : Prop where
  remaining : s'.robot.remaining = s.robot.remaining
  outputs : ∀ later : List Input, (∀ i ∈ later, i.Quiet) →
    firmware.outputs s' later = firmware.outputs s later

/-- A clear leaves the course cleared: the target is still ahead. -/
theorem course_loop_clear {s : Firmware} (h : s.robot.Moving) {input : LoopInput} {p0 p1 : UInt32}
    (hmem : .handled .clearStats p0 p1 ∈ (s.loop input).2) :
    (s.loop input).1.robot.dir = s.robot.dir ∧
      (s.loop input).1.robot.course = s.robot.course.clear := by
  have hdir : (s.robot.obey input .clearStats p0 p1).dir = s.robot.dir := rfl
  have hcourse : (s.robot.obey input .clearStats p0 p1).course = s.robot.course.clear :=
    s.robot.course_clear p0
  have hahead : ¬ s.robot.course.clear.odometer ≥ s.robot.course.clear.target :=
    UInt32.not_le.mpr (UInt32.lt_of_le_of_lt UInt32.zero_le h.odometer_lt)
  have hpasses : s.robot.course.clear.check = (s.robot.course.clear, []) := by
    rw [Course.check, if_neg hahead]
    exact ite_self _
  rw [Firmware.loop_of_handled hmem]
  constructor
  · rw [Robot.dir_check, hdir]
  · rw [(Robot.course_check (hdir.symm ▸ h.dir_ne)).1, hcourse, hpasses]

/-- **A clear on the way.**  It does not disturb a movement exactly if its odometer shows
zero, and the ticks behind it would not have brought it any further. -/
theorem clear_undisturbed_iff {s : Firmware} (h : s.robot.Moving) {input : LoopInput}
    {p0 p1 : UInt32} (hmem : .handled .clearStats p0 p1 ∈ (s.loop input).2) :
    Undisturbed s (s.loop input).1 ↔
      s.robot.odometer s.robot.dir = 0 ∧
        (s.robot.counter s.robot.dir = 0 ∨ farthest < (s.robot.target s.robot.dir).toNat) := by
  obtain ⟨hdir, hcourse⟩ := course_loop_clear h hmem
  have hne : (s.loop input).1.robot.dir ≠ .stop := hdir.symm ▸ h.dir_ne
  have hiff := Course.clear_eq_iff s.robot.course_regular h.guard_ne h.odometer_lt
  have hremaining : (s.loop input).1.robot.remaining = s.robot.course.target - 0 := by
    rw [Robot.remaining_eq, hcourse]
    rfl
  rw [← hremaining, ← Robot.remaining_eq] at hiff
  refine Iff.trans ?_ hiff
  constructor
  · intro hu
    refine ⟨hu.remaining, fun later hq => ?_⟩
    rw [← hcourse, ← course_outputs hne hq, ← course_outputs h.dir_ne hq]
    exact hu.outputs later hq
  · rintro ⟨hleft, hsame⟩
    refine ⟨hleft, fun later hq => ?_⟩
    rw [course_outputs hne hq, course_outputs h.dir_ne hq, hcourse]
    exact hsame later hq

theorem handled_clear {s : Firmware} (hs : s.uart.AtRest) :
    .handled .clearStats 0 0 ∈ (s.loop (.command .clearStats 0 0)).2 := by
  rw [(loop_command hs .clearStats 0 0).2.1]
  exact List.mem_append_left _ (List.mem_append_right _ List.mem_cons_self)

theorem moving_forward : (Firmware.cleared.loop (.command .forward 50 100)).1.robot.Moving := by
  rw [(loop_command (s := .cleared) (Uart.atRest_initial ..) .forward 50 100).1]
  constructor <;> decide +kernel

/-- Forward, and cleared at once. -/
theorem clear_undisturbed_iff_forward :
    Undisturbed (Firmware.cleared.loop (.command .forward 50 100)).1
        ((Firmware.cleared.loop (.command .forward 50 100)).1.loop (.command .clearStats 0 0)).1 ↔
      (Firmware.cleared.loop (.command .forward 50 100)).1.robot.odometer
          (Firmware.cleared.loop (.command .forward 50 100)).1.robot.dir = 0 ∧
        ((Firmware.cleared.loop (.command .forward 50 100)).1.robot.counter
            (Firmware.cleared.loop (.command .forward 50 100)).1.robot.dir = 0 ∨
          farthest < ((Firmware.cleared.loop (.command .forward 50 100)).1.robot.target
            (Firmware.cleared.loop (.command .forward 50 100)).1.robot.dir).toNat) :=
  clear_undisturbed_iff moving_forward
    (handled_clear (loop_command (s := .cleared) (Uart.atRest_initial ..) .forward 50 100).2.2)

theorem final_loop_int1 (s : Firmware) (input : LoopInput) :
    (firmware.final s [.loop input, .int1]).robot = (s.loop input).1.robot.rightISR ∧
      (firmware.final s [.loop input, .int1]).uart = (s.loop input).1.uart := ⟨rfl, rfl⟩

/-- A turn has come one tick far, and starts anew. -/
theorem clear_delays_turn :
    let s := firmware.final Firmware.cleared [.loop (.command .turnLeft 90 100), .int1]
    s.robot.Moving ∧ .handled .clearStats 0 0 ∈ (s.loop (.command .clearStats 0 0)).2 ∧
      ¬ Undisturbed s (s.loop (.command .clearStats 0 0)).1 := by
  obtain ⟨hturned, -, hrest⟩ := loop_command (s := .cleared) (Uart.atRest_initial ..) .turnLeft 90 100
  obtain ⟨hrobot, huart⟩ := final_loop_int1 .cleared (.command .turnLeft 90 100)
  rw [hturned] at hrobot
  rw [← huart] at hrest
  have hmoving : (Firmware.cleared.robot.obey (.command .turnLeft 90 100) .turnLeft 90
      100).check.1.rightISR.Moving := by
    constructor <;> decide +kernel
  have hmem : .handled .clearStats 0 0 ∈ ((firmware.final Firmware.cleared
      [.loop (.command .turnLeft 90 100), .int1]).loop (.command .clearStats 0 0)).2 :=
    handled_clear hrest
  refine ⟨hrobot.symm ▸ hmoving, hmem, fun hu => ?_⟩
  have hleft := hu.remaining
  rw [Robot.remaining_eq, Robot.remaining_eq,
    (course_loop_clear (hrobot.symm ▸ hmoving) hmem).2, hrobot] at hleft
  exact absurd hleft (by decide +kernel)

end Alex
