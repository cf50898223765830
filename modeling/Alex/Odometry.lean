/-
# `Alex.Odometry` — distances and the ticks they are computed from

`forwardDist` is computed from `rightForwardTicks`, and `reverseDist` from
`rightReverseTicks`, in `leftISR`; it is `rightISR` that counts those ticks.

    int0     forwardDist := ⌊rightForwardTicks * 0.068⌋
    int1     rightForwardTicks++
    clear    both := 0

A tick of the right wheel that brings the wheel a whole unit further therefore leaves
the distance behind.  The first such tick is the fifteenth: up to there the distance of
both is zero, and from there on a run is in the wrong until the left wheel ticks.
-/
import Alex.Stops

namespace Alex

/-! ## The distance of a number of ticks -/

/-- `floor(ticks * WHEEL_CIRC / COUNTS_PER_REV)` -/
def wholeUnits (ticks : UInt32) : Nat := ⌊ticks.toNat * wheelCirc / countsPerRev⌋₊

theorem wholeUnits_eq (ticks : UInt32) : wholeUnits ticks = 17 * ticks.toNat / 250 := by
  have hq : (ticks.toNat * wheelCirc / countsPerRev : ℚ) = ((17 * ticks.toNat : ℕ) : ℚ) / 250 := by
    norm_num [wheelCirc, countsPerRev]
    ring
  rw [wholeUnits, hq, Nat.floor_div_ofNat, Nat.floor_natCast]

theorem toNat_measured (ticks : UInt32) :
    (toULong (ticks.toNat / countsPerRev * wheelCirc)).toNat = wholeUnits ticks := by
  have hcomm : (ticks.toNat / countsPerRev * wheelCirc : ℚ) =
      ticks.toNat * wheelCirc / countsPerRev := by
    ring
  have hlt : (ticks.toNat : ℚ) < 4294967296 := by exact_mod_cast ticks.toNat_lt
  rw [hcomm, toNat_toULong, wholeUnits]
  norm_num [wheelCirc, countsPerRev]
  linarith

/-- The greatest distance a counter can show. -/
def farthest : Nat := 292057776

theorem wholeUnits_le (ticks : UInt32) : wholeUnits ticks ≤ farthest := by
  have hlt := ticks.toNat_lt
  rw [wholeUnits_eq, farthest]
  omega

/-! ## Distances that agree with their ticks -/

/-- Both distances are those of their ticks. -/
structure Robot.Agrees (r : Robot) : Prop where
  forward : r.forwardDist.toNat = wholeUnits r.rightForwardTicks
  reverse : r.reverseDist.toNat = wholeUnits r.rightReverseTicks

/-- The right wheel has not yet come a whole unit far, in either direction. -/
structure Robot.Near (r : Robot) : Prop where
  forwardDist_eq : r.forwardDist = 0
  reverseDist_eq : r.reverseDist = 0
  rightForwardTicks_le : r.rightForwardTicks.toNat ≤ 14
  rightReverseTicks_le : r.rightReverseTicks.toNat ≤ 14

theorem wholeUnits_eq_zero_iff (ticks : UInt32) : wholeUnits ticks = 0 ↔ ticks.toNat ≤ 14 := by
  rw [wholeUnits_eq]
  omega

namespace Robot

theorem Near.agrees {r : Robot} (h : r.Near) : r.Agrees where
  forward := by
    rw [h.forwardDist_eq, (wholeUnits_eq_zero_iff _).mpr h.rightForwardTicks_le]
    rfl
  reverse := by
    rw [h.reverseDist_eq, (wholeUnits_eq_zero_iff _).mpr h.rightReverseTicks_le]
    rfl

/-- What a robot shows of its two distances and the ticks they are computed from. -/
def odometry (r : Robot) : UInt32 × UInt32 × UInt32 × UInt32 :=
  (r.forwardDist, r.reverseDist, r.rightForwardTicks, r.rightReverseTicks)

theorem Near.congr {r r' : Robot} (h : r.Near) (heq : r'.odometry = r.odometry) : r'.Near := by
  obtain ⟨hf, hr, hft, hrt⟩ : r'.forwardDist = r.forwardDist ∧ r'.reverseDist = r.reverseDist ∧
      r'.rightForwardTicks = r.rightForwardTicks ∧ r'.rightReverseTicks = r.rightReverseTicks := by
    simpa [odometry] using heq
  refine ⟨hf.trans h.forwardDist_eq, hr.trans h.reverseDist_eq, ?_, ?_⟩
  · rw [hft]
    exact h.rightForwardTicks_le
  · rw [hrt]
    exact h.rightReverseTicks_le

theorem odometry_check (r : Robot) : r.check.1.odometry = r.odometry := by
  have hmove : r.finishMove.1.odometry = r.odometry := by
    rw [finishMove]
    repeat' split
    all_goals rfl
  have hturn (r : Robot) : r.finishTurn.1.odometry = r.odometry := by
    rw [finishTurn]
    repeat' split
    all_goals rfl
  rw [check_fst, hturn, hmove]

theorem odometry_obey (r : Robot) (input : LoopInput) (c : TCommandType) (p0 p1 : UInt32) :
    (r.obey input c p0 p1).odometry = r.odometry ∨
      (r.obey input c p0 p1).odometry = (0, 0, 0, 0) := by
  cases c with
  | clearStats => exact .inr rfl
  | forward => exact .inl rfl
  | reverse => exact .inl rfl
  | turnLeft => exact .inl rfl
  | turnRight => exact .inl rfl
  | stop => exact .inl rfl
  | getStats => exact .inl rfl

theorem Near.leftISR {r : Robot} (h : r.Near) : r.leftISR.Near := by
  have hzero (ticks : UInt32) (ht : ticks.toNat ≤ 14) :
      toULong (ticks.toNat / countsPerRev * wheelCirc) = 0 := by
    rw [← UInt32.toNat_inj, toNat_measured, (wholeUnits_eq_zero_iff _).mpr ht]
    rfl
  rw [Robot.leftISR]
  cases r.dir with
  | forward => exact ⟨hzero _ h.3, h.2, h.3, h.4⟩
  | backward => exact ⟨h.1, hzero _ h.4, h.3, h.4⟩
  | left => exact ⟨h.1, h.2, h.3, h.4⟩
  | right => exact ⟨h.1, h.2, h.3, h.4⟩
  | stop => exact h

/-- The tick that completes the first unit: the fifteenth the right wheel is booked. -/
def Outruns (r : Robot) : Prop :=
  r.dir = .forward ∧ r.rightForwardTicks = 14 ∨ r.dir = .backward ∧ r.rightReverseTicks = 14

theorem toNat_add_one_le {ticks : UInt32} (h : ticks.toNat ≤ 14) (hne : ticks ≠ 14) :
    (ticks + 1).toNat ≤ 14 := by
  have hne' : ticks.toNat ≠ 14 := fun he => hne (UInt32.toNat_inj.mp he)
  have hone : (1 : UInt32).toNat = 1 := rfl
  rw [UInt32.toNat_add, hone]
  omega

theorem Near.rightISR {r : Robot} (h : r.Near) (hno : ¬ r.Outruns) : r.rightISR.Near := by
  rw [Robot.rightISR]
  cases hdir : r.dir with
  | forward => exact ⟨h.1, h.2, toNat_add_one_le h.3 fun he => hno (.inl ⟨hdir, he⟩), h.4⟩
  | backward => exact ⟨h.1, h.2, h.3, toNat_add_one_le h.4 fun he => hno (.inr ⟨hdir, he⟩)⟩
  | left => exact ⟨h.1, h.2, h.3, h.4⟩
  | right => exact ⟨h.1, h.2, h.3, h.4⟩
  | stop => exact h

theorem Outruns.not_agrees {r : Robot} (h : r.Outruns) (ha : r.Agrees) : ¬ r.rightISR.Agrees := by
  have h14 : wholeUnits 14 = 0 := (wholeUnits_eq_zero_iff 14).mpr (Nat.le_refl _)
  have h15 : wholeUnits (14 + 1) ≠ 0 := fun h => absurd ((wholeUnits_eq_zero_iff _).mp h) (by decide)
  rintro ⟨hf, hr⟩
  rcases h with ⟨hdir, hticks⟩ | ⟨hdir, hticks⟩
  · have hdist : r.rightISR.forwardDist = r.forwardDist ∧ r.rightISR.rightForwardTicks = 14 + 1 := by
      rw [Robot.rightISR, hdir, ← hticks]
      exact ⟨rfl, rfl⟩
    rw [hdist.1, hdist.2, ha.forward, hticks, h14] at hf
    exact h15 hf.symm
  · have hdist : r.rightISR.reverseDist = r.reverseDist ∧ r.rightISR.rightReverseTicks = 14 + 1 := by
      rw [Robot.rightISR, hdir, ← hticks]
      exact ⟨rfl, rfl⟩
    rw [hdist.1, hdist.2, ha.reverse, hticks, h14] at hr
    exact h15 hr.symm

end Robot

/-! ## Runs -/

theorem odometry_loop (s : Firmware) (input : LoopInput) :
    (s.loop input).1.robot.odometry = s.robot.odometry ∨
      (s.loop input).1.robot.odometry = (0, 0, 0, 0) := by
  obtain ⟨reaction, hr, hrobot, -⟩ := s.loop_cases input
  rw [hrobot, Robot.odometry_check]
  cases hr with
  | ignores frames => exact .inl rfl
  | obeys c p0 p1 frames => exact s.robot.odometry_obey input c p0 p1

/-- **Step.**  Only the tick that outruns takes a robot away from near the start. -/
theorem near_step {s : Firmware} (h : s.robot.Near) {input : Input}
    (hno : input = .int1 → ¬ s.robot.Outruns) : (firmware.step s input).1.robot.Near := by
  cases input with
  | int0 => exact h.leftISR
  | int1 => exact h.rightISR (hno rfl)
  | loop input =>
      rcases odometry_loop s input with ho | ho
      · exact h.congr ho
      · have hzero : (Robot.initial 0).Near := ⟨rfl, rfl, Nat.zero_le _, Nat.zero_le _⟩
        exact hzero.congr ho

/-- **Distances.**  In every state of a run the distances agree with the ticks exactly if
in no state of it the right wheel ticks for the fifteenth time forward, or backward, since
the counters were cleared. -/
theorem distances_agree_iff (vincentCirc : ℚ) (leftover privateMem buffer packet : Nat → UInt8)
    (inputs : List Input) :
    let start := Firmware.initial vincentCirc leftover privateMem buffer packet
    (∀ before, before <+: inputs → (firmware.final start before).robot.Agrees) ↔
      ∀ before, before ++ [.int1] <+: inputs → ¬ (firmware.final start before).robot.Outruns := by
  intro start
  constructor
  · intro h before hprefix hout
    have hbefore := h before ((List.prefix_append _ _).trans hprefix)
    have hafter := h (before ++ [.int1]) hprefix
    rw [firmware.final_concat] at hafter
    exact hout.not_agrees hbefore hafter
  · intro h before hprefix
    refine Robot.Near.agrees ?_
    induction before using List.reverseRecOn with
    | nil => exact ⟨rfl, rfl, Nat.zero_le _, Nat.zero_le _⟩
    | append_singleton before input ih =>
        rw [firmware.final_concat]
        refine near_step (ih ((List.prefix_append _ _).trans hprefix)) fun hi => ?_
        rw [hi] at hprefix
        exact h before hprefix

theorem robot_int1 (s : Firmware) (n : Nat) :
    (firmware.final s (List.replicate n .int1)).robot = Robot.rightISR^[n] s.robot := by
  induction n generalizing s with
  | zero => rfl
  | succ n ih => exact ih _

theorem final_loop_cons (s : Firmware) (input : LoopInput) (inputs : List Input) :
    firmware.final s (.loop input :: inputs) = firmware.final (s.loop input).1 inputs := rfl

/-- Forward, and fifteen ticks of the right wheel before the left one ticks. -/
theorem fifteenth_tick_outruns :
    ¬ (firmware.final Firmware.cleared
      (.loop (.command .forward 50 100) :: List.replicate 15 .int1)).robot.Agrees := by
  have hmoved := (loop_command (s := .cleared) (Uart.atRest_initial ..) .forward 50 100).1
  have hodometry : (Robot.rightISR^[15] (Firmware.cleared.robot.obey (.command .forward 50 100)
      .forward 50 100).check.1).odometry = (0, 0, 15, 0) := by
    decide +kernel
  rw [final_loop_cons, robot_int1, hmoved]
  rintro ⟨hforward, -⟩
  have hdist := congrArg Prod.fst hodometry
  have hticks := congrArg (fun o => o.2.2.1) hodometry
  dsimp only [Robot.odometry] at hdist hticks
  rw [hdist, hticks, wholeUnits_eq] at hforward
  exact absurd hforward (by decide)

end Alex
