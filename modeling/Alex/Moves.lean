/-
# `Alex.Moves` — when a bounded movement ends

A movement command sets a target, and `loop()` stops the motors once the odometer
of the direction has reached it.  Both checks are guarded by a variable that also
says whether a movement is active:

    dir               guard         target        odometer
    forward           deltaDist     newDist       forwardDist
    backward          deltaDist     newDist       reverseDist
    left              targetTicks   targetTicks   rightForwardTicksTurns
    right             targetTicks   targetTicks   leftForwardTicksTurns

A movement whose guard is nonzero is `Armed`: this is kept by whatever does not
disturb it, and it is stopped by the first call of `loop()` that finds the
odometer at the target.  One whose guard is zero is never stopped.
-/
import Alex.Delivery
import Alex.Motors

namespace Alex

/-! ## Guard, target, odometer -/

namespace Robot

/-- What `loop()` compares in a direction. -/
def odometer (r : Robot) : TDirection → UInt32
  | .forward => r.forwardDist
  | .backward => r.reverseDist
  | .left => r.rightForwardTicksTurns
  | .right => r.leftForwardTicksTurns
  | .stop => 0

/-- What it compares it with. -/
def target (r : Robot) : TDirection → UInt32
  | .forward | .backward => r.newDist
  | .left | .right => r.targetTicks
  | .stop => 0

/-- What has to be positive for the comparison to be made. -/
def guard (r : Robot) : TDirection → UInt32
  | .forward | .backward => r.deltaDist
  | .left | .right => r.targetTicks
  | .stop => 0

theorem leftISR_frame (r : Robot) (dir : TDirection) :
    r.leftISR.dir = r.dir ∧ r.leftISR.guard dir = r.guard dir ∧
      r.leftISR.target dir = r.target dir := by
  rw [leftISR]
  split <;> exact ⟨rfl, rfl, rfl⟩

theorem rightISR_frame (r : Robot) (dir : TDirection) :
    r.rightISR.dir = r.dir ∧ r.rightISR.guard dir = r.guard dir ∧
      r.rightISR.target dir = r.target dir := by
  rw [rightISR]
  split <;> exact ⟨rfl, rfl, rfl⟩

theorem finishMove_of_turning {r : Robot} (h : r.dir = .left ∨ r.dir = .right) :
    r.finishMove = (r, []) := by
  rw [finishMove]
  rcases h with h | h
  · rw [h]
    split <;> rfl
  · rw [h]
    split <;> rfl

theorem finishTurn_of_straight {r : Robot} (h : r.dir = .forward ∨ r.dir = .backward) :
    r.finishTurn = (r, []) := by
  rw [finishTurn]
  rcases h with h | h
  · rw [h]
    split <;> rfl
  · rw [h]
    split <;> rfl

/-- What the checks can do: nothing, stop the motors at a target, or rest a robot that
has not moved yet. -/
inductive Check (r : Robot) : Robot × List Event → Prop
  | passes (idle : List Event) : (∀ e ∈ idle, e = .idle) →
      (r.dir ≠ .stop → r.guard r.dir = 0 ∨ r.odometer r.dir < r.target r.dir) → Check r (r, idle)
  | stops (r' : Robot) : r.dir ≠ .stop → r.guard r.dir ≠ 0 →
      r.target r.dir ≤ r.odometer r.dir → r'.dir = r.dir → r'.motors = .off →
      r'.guard r.dir = 0 → (∀ dir, r'.odometer dir = r.odometer dir) →
      Check r (r', [.autoStop r.dir])
  | rests (r' : Robot) : r.dir = .stop → r'.dir = .stop →
      (∀ dir, r'.odometer dir = r.odometer dir) → Check r (r', [.autoStop .stop, .idle])

theorem check_ite (r r' : Robot) (dir : TDirection) (hd : dir ≠ .stop) (hdir : r.dir = dir)
    (hdir' : r'.dir = dir) (hm : r'.motors = .off) (hg : r'.guard dir = 0)
    (ho : ∀ d, r'.odometer d = r.odometer d) :
    Check r (if r.guard dir > 0 then
      if r.odometer dir ≥ r.target dir then (r', [.autoStop dir]) else (r, []) else (r, [])) := by
  subst hdir
  split
  · rename_i hpos
    split
    · rename_i hge
      exact .stops r' hd (UInt32.pos_iff_ne_zero.mp hpos) hge hdir' hm hg ho
    · rename_i hge
      exact .passes [] (fun e he => absurd he List.not_mem_nil)
        fun _ => .inr (UInt32.not_le.mp hge)
  · rename_i hpos
    refine .passes [] (fun e he => absurd he List.not_mem_nil) fun _ => .inl ?_
    exact Decidable.not_not.mp fun hne => hpos (UInt32.pos_iff_ne_zero.mpr hne)

theorem dir_finishMove (r : Robot) : r.finishMove.1.dir = r.dir := by
  rw [finishMove]
  repeat' split
  all_goals rfl

theorem dir_finishTurn (r : Robot) : r.finishTurn.1.dir = r.dir := by
  rw [finishTurn]
  repeat' split
  all_goals rfl

theorem dir_check (r : Robot) : r.check.1.dir = r.dir := by
  rw [check_fst, dir_finishTurn, dir_finishMove]

/-- Of a moving robot only one check can act. -/
theorem check_of_straight {r : Robot} (h : r.dir = .forward ∨ r.dir = .backward) :
    r.check = r.finishMove := by
  have hdir := r.dir_finishMove
  have hturn := finishTurn_of_straight (r := r.finishMove.1) (hdir ▸ h)
  have hne : ¬ r.dir = .stop := by
    intro hs
    rcases h with h | h
    · exact nomatch hs.symm.trans h
    · exact nomatch hs.symm.trans h
  rw [← Prod.eta r.check, check_fst, check_snd, hturn, hdir, if_neg hne, List.append_nil,
    List.append_nil]

theorem check_of_turning {r : Robot} (h : r.dir = .left ∨ r.dir = .right) :
    r.check = r.finishTurn := by
  have hmove := finishMove_of_turning h
  have hdir := r.dir_finishTurn
  have hne : ¬ r.dir = .stop := by
    intro hs
    rcases h with h | h
    · exact nomatch hs.symm.trans h
    · exact nomatch hs.symm.trans h
  rw [← Prod.eta r.check, check_fst, check_snd, hmove, hdir, if_neg hne, List.append_nil,
    List.nil_append]

/-- **The checks** are of that kind. -/
theorem check_check (r : Robot) : Check r r.check := by
  cases hdir : r.dir with
  | stop =>
      have hmove : r.finishMove = (r, []) := by
        rw [finishMove, hdir]
        split <;> rfl
      rw [← Prod.eta r.check, check_fst, check_snd, hmove, finishTurn, hdir]
      split
      · exact .rests _ hdir rfl fun d => by cases d <;> rfl
      · exact .passes [.idle] (fun e he => List.mem_singleton.mp he) fun h => absurd hdir h
  | forward =>
      have hc := check_ite r (stop { r with dir := .forward, deltaDist := 0, newDist := 0 }) .forward
        TDirection.noConfusion hdir rfl rfl rfl fun d => by cases d <;> rfl
      rw [check_of_straight (.inl hdir), finishMove, hdir]
      exact hc
  | backward =>
      have hc := check_ite r (stop { r with dir := .backward, deltaDist := 0, newDist := 0 }) .backward
        TDirection.noConfusion hdir rfl rfl rfl fun d => by cases d <;> rfl
      rw [check_of_straight (.inr hdir), finishMove, hdir]
      exact hc
  | left =>
      have hc := check_ite r { r.stop with deltaTicks := 0, targetTicks := 0 } .left
        TDirection.noConfusion hdir hdir rfl rfl fun d => by cases d <;> rfl
      rw [check_of_turning (.inl hdir), finishTurn, hdir]
      exact hc
  | right =>
      have hc := check_ite r { r.stop with deltaTicks := 0, targetTicks := 0 } .right
        TDirection.noConfusion hdir hdir rfl rfl fun d => by cases d <;> rfl
      rw [check_of_turning (.inr hdir), finishTurn, hdir]
      exact hc

/-- What a check makes of a robot that moves: it stops it, if guard and comparison
say so, or does nothing. -/
def Checked (r : Robot) (dir : TDirection) (r' : Robot) : Prop :=
  (r.guard dir ≠ 0 ∧ r.target dir ≤ r.odometer dir ∧ r'.dir = dir ∧ r'.motors = .off) ∨
    ((r.guard dir = 0 ∨ r.odometer dir < r.target dir) ∧ r' = r)

theorem checked_check {r : Robot} {dir : TDirection} (h : r.dir = dir) (hd : dir ≠ .stop) :
    Checked r dir r.check.1 := by
  subst h
  have hc := r.check_check
  generalize r.check = c at hc ⊢
  cases hc with
  | passes _ _ hno => exact .inr ⟨hno hd, rfl⟩
  | stops _ _ hguard htarget hdir hm _ _ => exact .inl ⟨hguard, htarget, hdir, hm⟩
  | rests _ hs _ _ => exact absurd hs hd

/-! ## Armed movements -/

/-- A movement in direction `dir` that will be stopped at `goal`, or has been. -/
def Armed (dir : TDirection) (goal : Nat) (r : Robot) : Prop :=
  r.dir = dir ∧ (r.motors = .off ∨ r.guard dir ≠ 0 ∧ (r.target dir).toNat = goal)

theorem Armed.leftISR {dir : TDirection} {goal : Nat} {r : Robot} (h : Armed dir goal r) :
    Armed dir goal r.leftISR := by
  obtain ⟨hdir, hguard, htarget⟩ := r.leftISR_frame dir
  rw [Armed, hdir, hguard, htarget, motors_leftISR]
  exact h

theorem Armed.rightISR {dir : TDirection} {goal : Nat} {r : Robot} (h : Armed dir goal r) :
    Armed dir goal r.rightISR := by
  obtain ⟨hdir, hguard, htarget⟩ := r.rightISR_frame dir
  rw [Armed, hdir, hguard, htarget, motors_rightISR]
  exact h

/-- The checks stop an armed movement at its goal and keep it armed before. -/
theorem Armed.check {dir : TDirection} {goal : Nat} {r : Robot} (hd : dir ≠ .stop)
    (h : Armed dir goal r) :
    Armed dir goal r.check.1 ∧ (goal ≤ (r.odometer dir).toNat → r.check.1.motors = .off) := by
  rcases checked_check h.1 hd with ⟨-, -, hdir, hm⟩ | ⟨hno, hr⟩
  · exact ⟨⟨hdir, .inl hm⟩, fun _ => hm⟩
  · rw [hr]
    refine ⟨h, fun hgoal => ?_⟩
    rcases h.2 with hm | ⟨hguard, htarget⟩
    · exact hm
    · have hlt := hno.resolve_left hguard
      rw [UInt32.lt_iff_toNat_lt, htarget] at hlt
      exact absurd hgoal (Nat.not_le_of_lt hlt)

end Robot

/-! ## Runs that do not disturb -/

/-- A movement, `COMMAND_STOP` or `COMMAND_CLEAR_STATS` handled. -/
def Event.disturbs : Event → Bool
  | .handled c _ _ => c.isMovement || c = .stop || c = .clearStats
  | .sent _ | .autoStop _ | .idle => false

/-- **Stopping at a goal.**  In the runs from `s` that are considered and handle no
further movement, stop or clear, the first call of `loop()` that finds the
odometer at the goal or beyond leaves the motors off. -/
def StopsAt (runs : Firmware → List Input → Prop) (odometer : Robot → UInt32) (goal : Nat)
    (s : Firmware) : Prop :=
  ∀ (inputs : List Input) (input : LoopInput), runs s (inputs ++ [.loop input]) →
    (∀ e ∈ s.events (inputs ++ [.loop input]), e.disturbs = false) →
    (∀ k i, inputs[k]? = some (.loop i) →
      (odometer (firmware.final s (inputs.take k)).robot).toNat < goal) →
    goal ≤ (odometer (firmware.final s inputs).robot).toNat →
    (firmware.final s (inputs ++ [.loop input])).robot.motors = .off

theorem loop_undisturbed {s : Firmware} {input : LoopInput}
    (h : ∀ e ∈ (s.loop input).2, e.disturbs = false) :
    (s.loop input).1.robot = s.robot.check.1 := by
  obtain ⟨reaction, hr, hrobot, hevents⟩ := s.loop_cases input
  rw [hrobot]
  cases hr with
  | ignores frames => rfl
  | obeys c p0 p1 frames =>
      have hc : (Event.handled c p0 p1).disturbs = false := by
        refine h _ ?_
        rw [hevents]
        exact List.mem_append_left _ (List.mem_append_right _ List.mem_cons_self)
      cases c with
      | getStats => rfl
      | forward => exact nomatch hc
      | reverse => exact nomatch hc
      | turnLeft => exact nomatch hc
      | turnRight => exact nomatch hc
      | stop => exact nomatch hc
      | clearStats => exact nomatch hc

/-- **Step.**  A step that does not disturb keeps a movement armed. -/
theorem armed_step {dir : TDirection} {goal : Nat} (hd : dir ≠ .stop) (s : Firmware)
    (input : Input) (h : ∀ e ∈ (firmware.step s input).2, e.disturbs = false)
    (ha : s.robot.Armed dir goal) : (firmware.step s input).1.robot.Armed dir goal := by
  cases input with
  | int0 => exact ha.leftISR
  | int1 => exact ha.rightISR
  | loop input =>
      show (s.loop input).1.robot.Armed dir goal
      rw [loop_undisturbed h]
      exact (ha.check hd).1

/-- **Run.**  An armed movement stops at its goal. -/
theorem stopsAt_of_armed {runs : Firmware → List Input → Prop} {dir : TDirection} {goal : Nat}
    {s : Firmware} (hd : dir ≠ .stop) (ha : s.robot.Armed dir goal) :
    StopsAt runs (fun r => r.odometer dir) goal s := by
  intro inputs input _ hev _ hgoal
  rw [Firmware.events, Mealy.trace_concat] at hev
  have hrun : ∀ o ∈ firmware.outputs s inputs, ∀ e ∈ o, e.disturbs = false := fun o ho e he =>
    hev e (List.mem_append_left _ (List.mem_flatten.mpr ⟨o, ho, he⟩))
  have harm : (firmware.final s inputs).robot.Armed dir goal :=
    firmware.final_invariant_of_outputs (I := fun s => s.robot.Armed dir goal)
      (Q := fun o => ∀ e ∈ o, e.disturbs = false) (armed_step hd) hrun ha
  rw [Mealy.final_concat]
  show ((firmware.final s inputs).loop input).1.robot.motors = .off
  rw [loop_undisturbed fun e he => hev e (List.mem_append_right _ he)]
  exact (harm.check hd).2 hgoal

/-- A movement whose guard is zero is not stopped, though the odometer is at the
goal. -/
theorem not_stopsAt {runs : Firmware → List Input → Prop} {dir : TDirection} {goal : Nat}
    {s : Firmware} (hruns : runs s [.loop .silent]) (hdir : s.robot.dir = dir)
    (hd : dir ≠ .stop) (hguard : s.robot.guard dir = 0) (hm : s.robot.motors ≠ .off)
    (hgoal : goal ≤ (s.robot.odometer dir).toNat) :
    ¬ StopsAt runs (fun r => r.odometer dir) goal s := by
  intro h
  have hsilent := loop_silent s
  have hoff : (s.loop .silent).1.robot.motors = .off := by
    refine h [] .silent hruns ?_ (fun k i hi => nomatch hi) hgoal
    intro e he
    rw [Firmware.events, Mealy.trace_concat] at he
    cases e with
    | handled c p0 p1 => exact absurd (hsilent.2 ▸ he) (s.robot.not_handled_check c p0 p1)
    | sent _ => rfl
    | autoStop _ => rfl
    | idle => rfl
  rw [hsilent.1] at hoff
  rcases Robot.checked_check hdir hd with ⟨hne, -, -, -⟩ | ⟨-, hr⟩
  · exact hne hguard
  · exact hm (hr ▸ hoff)

/-- **A movement ends or it does not.**  `r` is the robot after the command, and
`goal`, where it is a word, its target. -/
theorem stopsAt_check_iff {runs : Firmware → List Input → Prop} {dir : TDirection} {goal : Nat}
    {r : Robot} {s : Firmware} (hs : s.robot = r.check.1) (hruns : runs s [.loop .silent])
    (hdir : r.dir = dir) (hd : dir ≠ .stop)
    (htarget : goal < 2 ^ 32 → (r.target dir).toNat = goal)
    (hreached : r.guard dir = 0 → goal < 2 ^ 32 → goal ≤ (r.odometer dir).toNat) :
    StopsAt runs (fun r => r.odometer dir) goal s ↔
      r.guard dir ≠ 0 ∨ r.motors = .off ∨ 2 ^ 32 ≤ goal := by
  constructor
  · intro h
    by_cases hguard : r.guard dir = 0
    · rcases Nat.lt_or_ge goal (2 ^ 32) with hlt | hge
      · refine .inr (.inl ?_)
        have hr : s.robot = r := by
          rcases Robot.checked_check hdir hd with ⟨hne, -⟩ | ⟨-, hr⟩
          · exact absurd hguard hne
          · exact hs.trans hr
        by_cases hm : r.motors = .off
        · exact hm
        · subst hr
          exact absurd h (not_stopsAt hruns hdir hd hguard hm (hreached hguard hlt))
      · exact .inr (.inr hge)
    · exact .inl hguard
  · intro h
    rcases Nat.lt_or_ge goal (2 ^ 32) with hlt | hge
    · have harm : r.Armed dir goal := by
        rcases h with hguard | hm | hge
        · exact ⟨hdir, .inr ⟨hguard, htarget hlt⟩⟩
        · exact ⟨hdir, .inl hm⟩
        · exact absurd hlt (Nat.not_lt_of_le hge)
      refine stopsAt_of_armed hd ?_
      rw [hs]
      exact (harm.check hd).1
    · intro inputs input _ _ _ hgoal
      have hword := ((firmware.final s inputs).robot.odometer dir).toNat_lt
      exact absurd (Nat.le_trans hge hgoal) (Nat.not_le_of_lt hword)

/-! ## The four movements -/

/-- The `dir` a movement command sets. -/
def TCommandType.direction : TCommandType → TDirection
  | .forward => .forward
  | .reverse => .backward
  | .turnLeft => .left
  | .turnRight => .right
  | .stop | .getStats | .clearStats => .stop

/-- What was computed for a movement in a direction. -/
def Robot.delta (r : Robot) : TDirection → UInt32
  | .forward | .backward => r.deltaDist
  | .left | .right => r.deltaTicks
  | .stop => 0

theorem TCommandType.direction_ne_stop {c : TCommandType} (hc : c.isMovement = true) :
    c.direction ≠ .stop := by
  cases c with
  | forward => exact fun h => nomatch h
  | reverse => exact fun h => nomatch h
  | turnLeft => exact fun h => nomatch h
  | turnRight => exact fun h => nomatch h
  | stop => exact nomatch hc
  | getStats => exact nomatch hc
  | clearStats => exact nomatch hc

theorem Robot.guard_eq (r : Robot) (dir : TDirection) :
    r.guard dir = r.delta dir ∨ r.guard dir = r.target dir := by
  cases dir with
  | forward => exact .inl rfl
  | backward => exact .inl rfl
  | left => exact .inr rfl
  | right => exact .inr rfl
  | stop => exact .inl rfl

/-- What a movement command does to `dir`, guard, target and odometer. -/
theorem obey_movement {c : TCommandType} (hc : c.isMovement = true) (r : Robot)
    (input : LoopInput) (p0 p1 : UInt32) :
    (r.obey input c p0 p1).dir = c.direction ∧
      (r.obey input c p0 p1).target c.direction =
        r.odometer c.direction + (r.obey input c p0 p1).delta c.direction ∧
      (r.obey input c p0 p1).odometer c.direction = r.odometer c.direction := by
  cases c with
  | forward => exact ⟨rfl, rfl, rfl⟩
  | reverse => exact ⟨rfl, rfl, rfl⟩
  | turnLeft => exact ⟨rfl, rfl, rfl⟩
  | turnRight => exact ⟨rfl, rfl, rfl⟩
  | stop => exact nomatch hc
  | getStats => exact nomatch hc
  | clearStats => exact nomatch hc

theorem toNat_ne_zero_iff {n : UInt32} : n ≠ 0 ↔ n.toNat ≠ 0 :=
  not_congr (UInt32.toNat_inj (b := 0)).symm

theorem pwmVal_eq_zero_iff (speed : UInt32) : pwmVal speed.toNat = 0 ↔ speed = 0 := by
  constructor
  · intro h
    by_cases hs : speed = 0
    · exact hs
    · have h1 : (1 : ℚ) ≤ speed.toNat := by
        exact_mod_cast Nat.one_le_iff_ne_zero.mpr (toNat_ne_zero_iff.mp hs)
      exact absurd h (Nat.ne_of_gt (pwmVal_pos h1))
  · rintro rfl
    exact pwmVal_zero

/-- A movement turns the motors on unless its speed is zero. -/
theorem motors_obey_eq_off_iff {c : TCommandType} (hc : c.isMovement = true) (r : Robot)
    (input : LoopInput) (p0 speed : UInt32) :
    (r.obey input c p0 speed).motors = .off ↔ speed = 0 := by
  have hle := pwmVal_le speed.toNat
  rw [← pwmVal_eq_zero_iff]
  have h8 (h : UInt8.ofNat (pwmVal speed.toNat) = 0) : pwmVal speed.toNat = 0 := by
    have h' := congrArg UInt8.toNat h
    rwa [UInt8.toNat_ofNat', Nat.mod_eq_of_lt (by omega)] at h'
  have h16 (h : UInt16.ofNat (pwmVal speed.toNat) = 0) : pwmVal speed.toNat = 0 := by
    have h' := congrArg UInt16.toNat h
    rwa [UInt16.toNat_ofNat', Nat.mod_eq_of_lt (by omega)] at h'
  cases c with
  | forward =>
      refine ⟨fun h => h8 (congrArg Motors.OCR0B h), fun h => ?_⟩
      simp [Robot.obey, Robot.forward, Motors.analogWriteBareMetal, h, Motors.off]
  | reverse =>
      refine ⟨fun h => h8 (congrArg Motors.OCR0A h), fun h => ?_⟩
      simp [Robot.obey, Robot.reverse, Motors.analogWriteBareMetal, h, Motors.off]
  | turnLeft =>
      refine ⟨fun h => h8 (congrArg Motors.OCR0A h), fun h => ?_⟩
      simp [Robot.obey, Robot.left, Motors.analogWriteBareMetal, h, Motors.off]
  | turnRight =>
      refine ⟨fun h => h16 (congrArg Motors.OCR1B h), fun h => ?_⟩
      simp [Robot.obey, Robot.right, Motors.analogWriteBareMetal, h, Motors.off]
  | stop => exact nomatch hc
  | getStats => exact nomatch hc
  | clearStats => exact nomatch hc

theorem stopsAt_handled_iff {runs : Firmware → List Input → Prop} {c : TCommandType}
    {p0 speed : UInt32} {s : Firmware} {input : LoopInput}
    (h : .handled c p0 speed ∈ (s.loop input).2) (hruns : ∀ s, runs s [.loop .silent])
    (hc : c.isMovement = true) :
    StopsAt runs (fun r => r.odometer c.direction)
        ((s.robot.odometer c.direction).toNat +
          ((s.robot.obey input c p0 speed).delta c.direction).toNat)
        (s.loop input).1 ↔
      (s.robot.obey input c p0 speed).guard c.direction ≠ 0 ∨ speed = 0 ∨
        2 ^ 32 ≤ (s.robot.odometer c.direction).toNat +
          ((s.robot.obey input c p0 speed).delta c.direction).toNat := by
  obtain ⟨hdir, htarget, hodometer⟩ := obey_movement hc s.robot input p0 speed
  have hsum : (s.robot.odometer c.direction).toNat +
        ((s.robot.obey input c p0 speed).delta c.direction).toNat < 2 ^ 32 →
      ((s.robot.obey input c p0 speed).target c.direction).toNat =
        (s.robot.odometer c.direction).toNat +
          ((s.robot.obey input c p0 speed).delta c.direction).toNat := by
    intro hlt
    rw [htarget, UInt32.toNat_add]
    exact Nat.mod_eq_of_lt hlt
  rw [stopsAt_check_iff (Firmware.loop_of_handled h) (hruns _) hdir
    (TCommandType.direction_ne_stop hc) hsum, motors_obey_eq_off_iff hc]
  intro hzero hlt
  rw [hodometer]
  rcases (s.robot.obey input c p0 speed).guard_eq c.direction with hg | hg
  · rw [← hg, hzero]
    exact Nat.le_refl _
  · rw [← hsum hlt, ← hg, hzero]
    exact Nat.zero_le _

def anyRun (_ : Firmware) (_ : List Input) : Prop := True

/-- What the guard of a straight move says of its distance. -/
theorem distance_guard_iff {d : UInt32} (hd : 1 ≤ d) (odometer speed : UInt32) :
    (Robot.distance d.toNat ≠ 0 ∨ speed = 0 ∨
        2 ^ 32 ≤ odometer.toNat + (Robot.distance d.toNat).toNat) ↔ 2 ≤ d ∨ speed = 0 := by
  have hword := odometer.toNat_lt
  have h2 : (2 : UInt32) ≤ d ↔ 2 ≤ d.toNat := UInt32.le_iff_toNat_le
  rw [toNat_ne_zero_iff, Robot.toNat_distance hd, h2]
  constructor
  · rintro (h | h | h)
    · exact .inl (by omega)
    · exact .inr h
    · exact .inl (by omega)
  · rintro (h | h)
    · exact .inl (by omega)
    · exact .inr (.inl h)

/-- **Straight moves.**  A bounded move ends at its distance exactly when half that
distance is at least one centimetre, or it has no power to begin with. -/
theorem straight_move_ends_iff (s : Firmware) (input : LoopInput) (d speed : UInt32)
    (hd : 1 ≤ d) :
    (.handled .forward d speed ∈ (s.loop input).2 →
      (StopsAt anyRun (fun r => r.forwardDist) (s.robot.forwardDist.toNat + d.toNat / 2)
          (s.loop input).1 ↔ 2 ≤ d ∨ speed = 0)) ∧
    (.handled .reverse d speed ∈ (s.loop input).2 →
      (StopsAt anyRun (fun r => r.reverseDist) (s.robot.reverseDist.toNat + d.toNat / 2)
          (s.loop input).1 ↔ 2 ≤ d ∨ speed = 0)) := by
  have hdelta := Robot.toNat_distance hd
  constructor
  · intro h
    have hiff : StopsAt anyRun (fun r => r.forwardDist)
        (s.robot.forwardDist.toNat + (Robot.distance d.toNat).toNat) (s.loop input).1 ↔ _ :=
      (stopsAt_handled_iff h (fun _ => trivial) rfl).trans (distance_guard_iff hd _ speed)
    rwa [hdelta] at hiff
  · intro h
    have hiff : StopsAt anyRun (fun r => r.reverseDist)
        (s.robot.reverseDist.toNat + (Robot.distance d.toNat).toNat) (s.loop input).1 ↔ _ :=
      (stopsAt_handled_iff h (fun _ => trivial) rfl).trans (distance_guard_iff hd _ speed)
    rwa [hdelta] at hiff

/-- Fifty centimetres at full power. -/
theorem straight_move_ends_fifty :
    StopsAt anyRun (fun r => r.forwardDist) 25
      (Firmware.cleared.loop (.command .forward 50 100)).1 := by
  have h := (straight_move_ends_iff Firmware.cleared (.command .forward 50 100) 50 100
    (by decide)).1 (handled_command ..)
  exact h.mpr (.inl (by decide))

/-- One centimetre at full power: the robot does not stop. -/
theorem one_centimetre_does_not_end :
    .handled .forward 1 100 ∈ (Firmware.cleared.loop (.command .forward 1 100)).2 ∧
      ¬ StopsAt anyRun (fun r => r.forwardDist)
        (Firmware.cleared.robot.forwardDist.toNat + (1 : UInt32).toNat / 2)
        (Firmware.cleared.loop (.command .forward 1 100)).1 := by
  have hhandled := handled_command (14072823 / 262144) (fun _ => 0) (fun _ => 0) (fun _ => 0)
    (fun _ => 0) .forward 1 100
  refine ⟨hhandled, fun h => ?_⟩
  have hiff : StopsAt anyRun (fun r => r.forwardDist)
      (Firmware.cleared.robot.forwardDist.toNat + (Robot.distance (1 : UInt32).toNat).toNat)
      (Firmware.cleared.loop (.command .forward 1 100)).1 ↔ _ :=
    (stopsAt_handled_iff hhandled (fun _ => trivial) rfl).trans
      (distance_guard_iff (by decide) _ 100)
  rw [Robot.toNat_distance (by decide)] at hiff
  rcases hiff.mp h with hfar | hspeed
  · exact absurd hfar (by decide)
  · exact absurd hspeed (by decide)

/-! ## Turns -/

def Robot.ticks (r : Robot) : List UInt32 := r.status.take 8

/-- The runs in which no counter wraps: an interrupt makes none of them smaller. -/
def NoWrap (s : Firmware) (inputs : List Input) : Prop :=
  ∀ k, inputs[k]? = some .int0 ∨ inputs[k]? = some .int1 →
    List.Forall₂ (· ≤ ·) (firmware.final s (inputs.take k)).robot.ticks
      (firmware.final s (inputs.take (k + 1))).robot.ticks

theorem noWrap_silent (s : Firmware) : NoWrap s [.loop .silent] := by
  intro k hk
  cases k with
  | zero => rcases hk with h | h <;> exact nomatch h
  | succ k => rcases hk with h | h <;> exact nomatch h

/-- What the guard of a turn says of its ticks and of the counter. -/
theorem turn_guard_iff {circ : ℚ} {a : UInt32} (ha : 1 ≤ a)
    (hK : ticksPerDegree circ * a.toNat < 2 ^ 32) (counter speed : UInt32) :
    (counter + Robot.turn circ a.toNat ≠ 0 ∨ speed = 0 ∨
        2 ^ 32 ≤ counter.toNat + (Robot.turn circ a.toNat).toNat) ↔
      4 ≤ ticksPerDegree circ * a.toNat ∨ counter ≠ 0 ∨ speed = 0 := by
  have hword := counter.toNat_lt
  have hdelta := Robot.toNat_turn ha (lt_of_lt_of_eq hK (by norm_num))
  have hfloor : 4 ≤ ticksPerDegree circ * a.toNat ↔ 4 ≤ ⌊ticksPerDegree circ * a.toNat⌋₊ :=
    (Nat.le_floor_iff' (by decide)).symm
  rw [toNat_ne_zero_iff, UInt32.toNat_add, hdelta, hfloor, toNat_ne_zero_iff]
  constructor
  · rintro (h | h | h)
    · by_cases h4 : 4 ≤ ⌊ticksPerDegree circ * a.toNat⌋₊
      · exact .inl h4
      · refine .inr (.inl fun h0 => h ?_)
        rw [h0, Nat.div_eq_of_lt (Nat.lt_of_not_le h4)]
    · exact .inr (.inr h)
    · exact .inl (by omega)
  · intro h
    rcases Nat.lt_or_ge (counter.toNat + ⌊ticksPerDegree circ * a.toNat⌋₊ / 4) (2 ^ 32) with
      hlt | hge
    · rw [Nat.mod_eq_of_lt hlt]
      rcases h with h | h | h
      · exact .inl (by omega)
      · exact .inl (by omega)
      · exact .inr (.inl h)
    · exact .inr (.inr hge)

/-- **Turns.**  A bounded turn ends at its angle exactly when it takes a tick, or the
counter is not at zero to begin with, or it has no power. -/
theorem turn_ends_iff (s : Firmware) (input : LoopInput) (a speed : UInt32) (ha : 1 ≤ a)
    (hK : ticksPerDegree s.robot.vincentCirc * a.toNat < 2 ^ 32) :
    (.handled .turnLeft a speed ∈ (s.loop input).2 →
      (StopsAt NoWrap (fun r => r.rightForwardTicksTurns)
          (s.robot.rightForwardTicksTurns.toNat +
            ⌊ticksPerDegree s.robot.vincentCirc * a.toNat⌋₊ / 4) (s.loop input).1 ↔
        4 ≤ ticksPerDegree s.robot.vincentCirc * a.toNat ∨
          s.robot.rightForwardTicksTurns ≠ 0 ∨ speed = 0)) ∧
    (.handled .turnRight a speed ∈ (s.loop input).2 →
      (StopsAt NoWrap (fun r => r.leftForwardTicksTurns)
          (s.robot.leftForwardTicksTurns.toNat +
            ⌊ticksPerDegree s.robot.vincentCirc * a.toNat⌋₊ / 4) (s.loop input).1 ↔
        4 ≤ ticksPerDegree s.robot.vincentCirc * a.toNat ∨
          s.robot.leftForwardTicksTurns ≠ 0 ∨ speed = 0)) := by
  have hdelta := Robot.toNat_turn ha (lt_of_lt_of_eq hK (by norm_num))
  constructor
  · intro h
    have hiff : StopsAt NoWrap (fun r => r.rightForwardTicksTurns)
        (s.robot.rightForwardTicksTurns.toNat +
          (Robot.turn s.robot.vincentCirc a.toNat).toNat) (s.loop input).1 ↔ _ :=
      (stopsAt_handled_iff h noWrap_silent rfl).trans (turn_guard_iff ha hK _ speed)
    rwa [hdelta] at hiff
  · intro h
    have hiff : StopsAt NoWrap (fun r => r.leftForwardTicksTurns)
        (s.robot.leftForwardTicksTurns.toNat +
          (Robot.turn s.robot.vincentCirc a.toNat).toNat) (s.loop input).1 ↔ _ :=
      (stopsAt_handled_iff h noWrap_silent rfl).trans (turn_guard_iff ha hK _ speed)
    rwa [hdelta] at hiff

/-- A right angle at full power. -/
theorem turn_ends_ninety :
    StopsAt NoWrap (fun r => r.rightForwardTicksTurns) 49
      (Firmware.cleared.loop (.command .turnLeft 90 100)).1 := by
  have h := (turn_ends_iff Firmware.cleared (.command .turnLeft 90 100) 90 100 (by decide)
    (by decide +kernel)).1 (handled_command ..)
  have hticks : ⌊ticksPerDegree Firmware.cleared.robot.vincentCirc * (90 : UInt32).toNat⌋₊ / 4 =
      49 := by decide +kernel
  rw [hticks] at h
  exact h.mpr (.inl (by decide +kernel))

/-- One degree at full power: the robot does not stop. -/
theorem one_degree_does_not_end :
    .handled .turnLeft 1 100 ∈ (Firmware.cleared.loop (.command .turnLeft 1 100)).2 ∧
      ¬ StopsAt NoWrap (fun r => r.rightForwardTicksTurns)
        (Firmware.cleared.robot.rightForwardTicksTurns.toNat +
          ⌊ticksPerDegree Firmware.cleared.robot.vincentCirc * (1 : UInt32).toNat⌋₊ / 4)
        (Firmware.cleared.loop (.command .turnLeft 1 100)).1 := by
  have hhandled := handled_command (14072823 / 262144) (fun _ => 0) (fun _ => 0) (fun _ => 0)
    (fun _ => 0) .turnLeft 1 100
  have hK : ticksPerDegree Firmware.cleared.robot.vincentCirc * (1 : UInt32).toNat < 2 ^ 32 := by
    decide +kernel
  refine ⟨hhandled, fun h => ?_⟩
  have hiff : StopsAt NoWrap (fun r => r.rightForwardTicksTurns)
      (Firmware.cleared.robot.rightForwardTicksTurns.toNat +
        (Robot.turn Firmware.cleared.robot.vincentCirc (1 : UInt32).toNat).toNat)
      (Firmware.cleared.loop (.command .turnLeft 1 100)).1 ↔ _ :=
    (stopsAt_handled_iff hhandled noWrap_silent rfl).trans (turn_guard_iff (by decide) hK 0 100)
  rw [Robot.toNat_turn (by decide) (lt_of_lt_of_eq hK (by norm_num))] at hiff
  rcases hiff.mp h with hticks | hcounter | hspeed
  · exact absurd hticks (by decide +kernel)
  · exact absurd rfl hcounter
  · exact absurd hspeed (by decide)

end Alex
