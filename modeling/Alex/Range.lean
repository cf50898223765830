/-
# `Alex.Range` — what the targets are computed from fits into 32 bits

A movement command converts real numbers to `unsigned long`, and adds what it gets to an
odometer:

                  converted                          added to
    straight      dist / 2, or 9999999               forwardDist, reverseDist
    turn          ticks, ticks / 4, or 99999999      …ForwardTicksTurns

The distances have room: half a 32-bit distance is less than 2³¹, and an odometer of a
straight move, 0.068 units a tick, is less than 2²⁹.  A turn has not: its odometer is a
tick counter, which takes all values, and it makes more than two ticks of a degree.
-/
import Alex.Odometry

namespace Alex

namespace Robot

/-- What a movement command converts to `unsigned long`, and what the next tick of the left
wheel does. -/
def converted (r : Robot) (c : TCommandType) (p0 : UInt32) : List ℚ :=
  [r.rightForwardTicks.toNat / countsPerRev * wheelCirc,
    r.rightReverseTicks.toNat / countsPerRev * wheelCirc] ++
  match c with
  | .forward | .reverse => if (p0.toNat : ℚ) / 2 > 0 then [p0.toNat / 2] else []
  | .turnLeft | .turnRight =>
      if (p0.toNat : ℚ) = 0 then []
      else [p0.toNat * r.vincentCirc * countsPerRev / (360.0 * wheelCirc),
        computeDeltaTicks r.vincentCirc p0.toNat / 4]
  | .stop | .getStats | .clearStats => []

/-- The distances are what `leftISR` computes from some number of ticks. -/
structure Measured (r : Robot) : Prop where
  forward : ∃ ticks, r.forwardDist.toNat = wholeUnits ticks
  reverse : ∃ ticks, r.reverseDist.toNat = wholeUnits ticks

/-- The target of a movement command is in range: what is converted fits, and the sum with
the odometer does. -/
structure InRange (r : Robot) (input : LoopInput) (c : TCommandType) (p0 p1 : UInt32) :
    Prop where
  converted : ∀ x ∈ r.converted c p0, x < 4294967296
  sum : (r.odometer c.direction).toNat + ((r.obey input c p0 p1).delta c.direction).toNat <
    4294967296
  target : r.odometer c.direction ≤ (r.obey input c p0 p1).target c.direction

/-- A turn of `p0` degrees has room above the counter, and so has the turn without end. -/
def TurnFits (r : Robot) (c : TCommandType) (p0 : UInt32) : Prop :=
  if p0 = 0 then (r.odometer c.direction).toNat + 99999999 < 4294967296
  else ticksPerDegree r.vincentCirc * p0.toNat < 4294967296 ∧
    (r.odometer c.direction).toNat + ⌊ticksPerDegree r.vincentCirc * p0.toNat⌋₊ / 4 < 4294967296

/-! ## Distances are measured -/

theorem Measured.congr {r r' : Robot} (h : r.Measured) (heq : r'.odometry = r.odometry) :
    r'.Measured := by
  obtain ⟨hf, hr⟩ : r'.forwardDist = r.forwardDist ∧ r'.reverseDist = r.reverseDist :=
    ⟨congrArg (·.1) heq, congrArg (·.2.1) heq⟩
  refine ⟨?_, ?_⟩
  · rw [hf]
    exact h.forward
  · rw [hr]
    exact h.reverse

theorem measured_initial (vincentCirc : ℚ) : (Robot.initial vincentCirc).Measured := by
  have hzero : (0 : UInt32).toNat = wholeUnits 0 := by
    rw [wholeUnits_eq]
    rfl
  exact ⟨⟨0, hzero⟩, ⟨0, hzero⟩⟩

theorem Measured.leftISR {r : Robot} (h : r.Measured) : r.leftISR.Measured := by
  rw [Robot.leftISR]
  cases r.dir with
  | forward => exact ⟨⟨r.rightForwardTicks, toNat_measured _⟩, h.reverse⟩
  | backward => exact ⟨h.forward, ⟨r.rightReverseTicks, toNat_measured _⟩⟩
  | left => exact ⟨h.forward, h.reverse⟩
  | right => exact ⟨h.forward, h.reverse⟩
  | stop => exact h

theorem Measured.rightISR {r : Robot} (h : r.Measured) : r.rightISR.Measured := by
  rw [Robot.rightISR]
  split <;> exact ⟨h.forward, h.reverse⟩

end Robot

theorem measured_step {s : Firmware} (h : s.robot.Measured) (input : Input) :
    (firmware.step s input).1.robot.Measured := by
  cases input with
  | int0 => exact h.leftISR
  | int1 => exact h.rightISR
  | loop input =>
      rcases odometry_loop s input with ho | ho
      · exact h.congr ho
      · exact (Robot.measured_initial 0).congr ho

/-- **Run.**  The distances of every reachable state are measured. -/
theorem measured_final (vincentCirc : ℚ) (leftover privateMem buffer packet : Nat → UInt8)
    (inputs : List Input) :
    (firmware.final (.initial vincentCirc leftover privateMem buffer packet)
      inputs).robot.Measured :=
  firmware.final_invariant (I := fun s => s.robot.Measured) (P := fun _ => True)
    (fun _ input _ h => measured_step h input) (fun _ _ => trivial)
    (Robot.measured_initial vincentCirc)

/-! ## Ranges -/

namespace Robot

variable {r : Robot} {input : LoopInput} {c : TCommandType} {p0 p1 : UInt32}

theorem measured_lt (ticks : UInt32) : (ticks.toNat / countsPerRev * wheelCirc : ℚ) < 4294967296 := by
  have hlt : (ticks.toNat : ℚ) < 4294967296 := by exact_mod_cast ticks.toNat_lt
  norm_num [wheelCirc, countsPerRev]
  linarith

theorem toNat_distance_lt (p0 : UInt32) : (distance p0.toNat).toNat < 2147483648 := by
  have hlt := p0.toNat_lt
  by_cases h0 : p0 = 0
  · subst h0
    decide +kernel
  · have hpos : 1 ≤ p0.toNat := Nat.one_le_iff_ne_zero.mpr (toNat_ne_zero_iff.mp h0)
    rw [toNat_distance hpos]
    omega

theorem toNat_turn_zero (vincentCirc : ℚ) : (turn vincentCirc (0 : UInt32).toNat).toNat = 99999999 := by
  have hzero : (((0 : UInt32).toNat : ℕ) : ℚ) = 0 := Nat.cast_zero
  rw [turn, if_pos hzero]
  rfl

theorem inRange_of_sum (hc : c.isMovement = true)
    (hconv : ∀ x ∈ r.converted c p0, x < 4294967296)
    (hsum : (r.odometer c.direction).toNat + ((r.obey input c p0 p1).delta c.direction).toNat <
      4294967296) : r.InRange input c p0 p1 where
  converted := hconv
  sum := hsum
  target := by
    rw [(obey_movement hc r input p0 p1).2.1, UInt32.le_iff_toNat_le, UInt32.toNat_add,
      Nat.mod_eq_of_lt hsum]
    exact Nat.le_add_right _ _

theorem converted_straight (hc : c = .forward ∨ c = .reverse) :
    ∀ x ∈ r.converted c p0, x < 4294967296 := by
  intro x hx
  rcases List.mem_append.mp hx with hx | hx
  · rcases List.mem_pair.mp hx with rfl | rfl
    · exact measured_lt _
    · exact measured_lt _
  · have hx : x ∈ if (p0.toNat : ℚ) / 2 > 0 then [(p0.toNat : ℚ) / 2] else [] := by
      rcases hc with rfl | rfl <;> exact hx
    split at hx
    · have hp0 : (p0.toNat : ℚ) < 4294967296 := by exact_mod_cast p0.toNat_lt
      rw [List.mem_singleton.mp hx]
      linarith
    · exact absurd hx List.not_mem_nil

theorem converted_turn_iff (hc : c = .turnLeft ∨ c = .turnRight) :
    (∀ x ∈ r.converted c p0, x < 4294967296) ↔
      (p0 ≠ 0 → ticksPerDegree r.vincentCirc * p0.toNat < 4294967296) := by
  have hlist : r.converted c p0 = [r.rightForwardTicks.toNat / countsPerRev * wheelCirc,
      r.rightReverseTicks.toNat / countsPerRev * wheelCirc] ++
      if (p0.toNat : ℚ) = 0 then []
      else [p0.toNat * r.vincentCirc * countsPerRev / (360.0 * wheelCirc),
        computeDeltaTicks r.vincentCirc p0.toNat / 4] := by
    rcases hc with rfl | rfl <;> rfl
  have hK : (p0.toNat : ℚ) * r.vincentCirc * countsPerRev / (360.0 * wheelCirc) =
      ticksPerDegree r.vincentCirc * p0.toNat := by
    norm_num [ticksPerDegree, wheelCirc]
    ring
  have hquarter : computeDeltaTicks r.vincentCirc p0.toNat / 4 < 4294967296 := by
    have hlt : computeDeltaTicks r.vincentCirc p0.toNat < 4294967296 := by
      rw [computeDeltaTicks]
      exact_mod_cast UInt32.toNat_lt _
    linarith
  have hne : (p0.toNat : ℚ) = 0 ↔ p0 = 0 := by
    rw [Nat.cast_eq_zero, ← not_iff_not]
    exact toNat_ne_zero_iff.symm
  rw [hlist, hK, List.forall_mem_append]
  simp only [hne]
  have hmeasured : ∀ x ∈ [(r.rightForwardTicks.toNat / countsPerRev * wheelCirc : ℚ),
      r.rightReverseTicks.toNat / countsPerRev * wheelCirc], x < 4294967296 := by
    intro x hx
    rcases List.mem_pair.mp hx with rfl | rfl
    · exact measured_lt _
    · exact measured_lt _
  rw [and_iff_right hmeasured]
  by_cases h0 : p0 = 0
  · rw [if_pos h0]
    exact iff_of_true (fun x hx => absurd hx List.not_mem_nil) fun h => absurd h0 h
  · rw [if_neg h0]
    constructor
    · intro h _
      exact h _ List.mem_cons_self
    · intro h x hx
      rcases List.mem_pair.mp hx with rfl | rfl
      · exact h h0
      · exact hquarter

/-- **Straight moves** have room. -/
theorem inRange_straight (hm : r.Measured) (hc : c = .forward ∨ c = .reverse) :
    r.InRange input c p0 p1 := by
  have hmoves : c.isMovement = true := by
    rcases hc with rfl | rfl <;> rfl
  have hdelta : (r.obey input c p0 p1).delta c.direction = distance p0.toNat := by
    rcases hc with rfl | rfl <;> rfl
  have hodometer : ∃ ticks, (r.odometer c.direction).toNat = wholeUnits ticks := by
    rcases hc with rfl | rfl
    · exact hm.forward
    · exact hm.reverse
  obtain ⟨ticks, hodometer⟩ := hodometer
  have hle := wholeUnits_le ticks
  have hlt := toNat_distance_lt p0
  refine inRange_of_sum hmoves (converted_straight hc) ?_
  rw [hdelta, hodometer]
  rw [farthest] at hle
  omega

/-- **Turns** have room where the angle and the counter leave it. -/
theorem inRange_turn_iff (hc : c = .turnLeft ∨ c = .turnRight) :
    r.InRange input c p0 p1 ↔ r.TurnFits c p0 := by
  have hmoves : c.isMovement = true := by
    rcases hc with rfl | rfl <;> rfl
  have hdelta : (r.obey input c p0 p1).delta c.direction = turn r.vincentCirc p0.toNat := by
    rcases hc with rfl | rfl <;> rfl
  have hiff : r.InRange input c p0 p1 ↔
      (p0 ≠ 0 → ticksPerDegree r.vincentCirc * p0.toNat < 4294967296) ∧
        (r.odometer c.direction).toNat + (turn r.vincentCirc p0.toNat).toNat < 4294967296 := by
    rw [← converted_turn_iff hc, ← hdelta]
    exact ⟨fun h => ⟨h.converted, h.sum⟩, fun h => inRange_of_sum hmoves h.1 h.2⟩
  rw [hiff, TurnFits]
  by_cases h0 : p0 = 0
  · subst h0
    rw [if_pos rfl, toNat_turn_zero]
    exact and_iff_right fun h => absurd rfl h
  · have hpos : 1 ≤ p0 := Nat.one_le_iff_ne_zero.mpr (toNat_ne_zero_iff.mp h0)
    rw [if_neg h0]
    constructor
    · rintro ⟨hconv, hsum⟩
      rw [toNat_turn hpos (hconv h0)] at hsum
      exact ⟨hconv h0, hsum⟩
    · rintro ⟨hconv, hsum⟩
      rw [← toNat_turn hpos hconv] at hsum
      exact ⟨fun _ => hconv, hsum⟩

end Robot

/-- **Target arithmetic.**  A movement command stays in range exactly if it is straight, or
the turn has room above its counter. -/
theorem in_range_iff {r : Robot} (hm : r.Measured) {c : TCommandType}
    (hc : c.isMovement = true) (input : LoopInput) (p0 p1 : UInt32) :
    r.InRange input c p0 p1 ↔ (c = .turnLeft ∨ c = .turnRight → r.TurnFits c p0) := by
  by_cases hturn : c = .turnLeft ∨ c = .turnRight
  · rw [Robot.inRange_turn_iff hturn]
    exact (imp_iff_right hturn).symm
  · have hstraight : c = .forward ∨ c = .reverse := by
      cases c with
      | forward => exact .inl rfl
      | reverse => exact .inr rfl
      | turnLeft => exact absurd (.inl rfl) hturn
      | turnRight => exact absurd (.inr rfl) hturn
      | stop => exact nomatch hc
      | getStats => exact nomatch hc
      | clearStats => exact nomatch hc
    exact iff_of_true (Robot.inRange_straight hm hstraight) fun h => absurd h hturn

theorem in_range_iff_ninety :
    (Robot.initial (14072823 / 262144)).InRange .silent .turnLeft 90 100 ↔
      (TCommandType.turnLeft = .turnLeft ∨ TCommandType.turnLeft = .turnRight →
        (Robot.initial (14072823 / 262144)).TurnFits .turnLeft 90) :=
  in_range_iff (Robot.measured_initial (14072823 / 262144)) rfl .silent 90 100

/-- Two milliard degrees take more than 2³² ticks. -/
theorem great_turn_out_of_range :
    ¬ Firmware.cleared.robot.InRange .silent .turnLeft 2000000000 100 := by
  intro h
  have hfits := (Robot.inRange_turn_iff (.inl rfl)).mp h
  have hne : ¬ (2000000000 : UInt32) = 0 := by decide
  rw [Robot.TurnFits, if_neg hne] at hfits
  exact absurd hfits.1 (by decide +kernel)

end Alex
