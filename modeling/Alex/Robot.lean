/-
# `Alex.Robot` — wheels, encoders and targets

The part of `final_alex.ino` that drives.  Two encoders count ticks, each count
booked to what the robot is doing (`dir`); a movement command sets four motor
registers and a target; `stop` clears the registers.

             forward          reverse          left             right
    counts   …ForwardTicks    …ReverseTicks    …TicksTurns      …TicksTurns
    target   newDist          newDist          targetTicks      targetTicks
    motors   LF, RF           LR, RR           LR, RF           RR, LF

Floating point arithmetic is read as exact: a `float` is a rational, and the
conversion to an integer type takes its integral part.  A real that does not fit
the type, for which C promises nothing, is reduced.
-/
import Mathlib.Algebra.Order.Floor.Semifield
import Mathlib.Data.Rat.Floor
import Mathlib.Tactic.Linarith
import Mathlib.Tactic.NormNum
import Mathlib.Tactic.Ring

namespace Alex

inductive TDirection where
  | stop | forward | backward | left | right
  deriving DecidableEq, Repr

def countsPerRev : ℚ := 3

def wheelCirc : ℚ := 0.204

/-- `(unsigned long) x` -/
def toULong (x : ℚ) : UInt32 := .ofNat ⌊x⌋₊

/-- The ticks a turn should take for a degree:
`vincentCirc * COUNTS_PER_REV / (360 * WHEEL_CIRC)` -/
def ticksPerDegree (vincentCirc : ℚ) : ℚ := vincentCirc * countsPerRev / (360 * wheelCirc)

/-! ## Motors -/

/-- The output compare registers.  `OCR1B` has sixteen bits. -/
structure Motors where
  OCR0A : UInt8
  OCR0B : UInt8
  OCR2A : UInt8
  OCR1B : UInt16
  deriving DecidableEq, Repr

/-- Left forward, left reverse, right forward, right reverse pin. -/
inductive MotorPin where
  | LF | LR | RF | RR
  deriving DecidableEq, Repr

def Motors.analogWriteBareMetal (m : Motors) (port : MotorPin) (val : Nat) : Motors :=
  match port with
  | .LR => { m with OCR0A := .ofNat val }
  | .LF => { m with OCR0B := .ofNat val }
  | .RF => { m with OCR2A := .ofNat val }
  | .RR => { m with OCR1B := .ofNat val }

def Motors.off : Motors := ⟨0, 0, 0, 0⟩

def pwmVal (speed : ℚ) : Nat :=
  let speed := if speed < 0 then 0 else speed
  let speed := if speed > 100 then 100 else speed
  ⌊speed / 100 * 255⌋₊

theorem toNat_toULong {x : ℚ} (h : x < 4294967296) : (toULong x).toNat = ⌊x⌋₊ := by
  rw [toULong, UInt32.toNat_ofNat']
  refine Nat.mod_eq_of_lt ?_
  by_cases hx : 0 ≤ x
  · exact (Nat.floor_lt hx).mpr (by exact_mod_cast h)
  · rw [Nat.floor_of_nonpos (le_of_not_ge hx)]
    exact Nat.two_pow_pos 32

theorem pwmVal_zero : pwmVal 0 = 0 := by
  norm_num [pwmVal]

theorem pwmVal_pos {speed : ℚ} (h : 1 ≤ speed) : 0 < pwmVal speed := by
  have hneg : ¬ speed < 0 := by linarith
  rw [pwmVal, if_neg hneg, Nat.floor_pos]
  split <;> linarith

theorem pwmVal_le (speed : ℚ) : pwmVal speed ≤ 255 := by
  have hle (x : ℚ) : (if x > 100 then 100 else x) ≤ 100 := by
    split
    · exact le_refl _
    · rename_i h
      exact not_lt.mp h
  have hclamp := hle (if speed < 0 then 0 else speed)
  refine Nat.floor_le_of_le ?_
  push_cast
  linarith

/-! ## The robot's variables -/

def dontKnow : UInt32 := 0

def red : UInt32 := 1

def green : UInt32 := 2

/-- Alex's state variables, and the registers. -/
structure Robot where
  dir : TDirection
  vincentCirc : ℚ
  leftForwardTicks : UInt32
  rightForwardTicks : UInt32
  leftReverseTicks : UInt32
  rightReverseTicks : UInt32
  leftForwardTicksTurns : UInt32
  rightForwardTicksTurns : UInt32
  leftReverseTicksTurns : UInt32
  rightReverseTicksTurns : UInt32
  forwardDist : UInt32
  reverseDist : UInt32
  deltaDist : UInt32
  newDist : UInt32
  deltaTicks : UInt32
  targetTicks : UInt32
  colorValue : UInt32
  motors : Motors

/-- After `setup()`, with `PI * sqrt(ALEX_LENGTH² + ALEX_BREADTH²)` the
circumference. -/
def Robot.initial (vincentCirc : ℚ) : Robot where
  dir := .stop
  vincentCirc := vincentCirc
  leftForwardTicks := 0
  rightForwardTicks := 0
  leftReverseTicks := 0
  rightReverseTicks := 0
  leftForwardTicksTurns := 0
  rightForwardTicksTurns := 0
  leftReverseTicksTurns := 0
  rightReverseTicksTurns := 0
  forwardDist := 0
  reverseDist := 0
  deltaDist := 0
  newDist := 0
  deltaTicks := 0
  targetTicks := 0
  colorValue := dontKnow
  motors := .off

namespace Robot

/-! ## Interrupts -/

/-- `leftISR()`.  The distances are computed from the ticks of the other wheel. -/
def leftISR (r : Robot) : Robot :=
  match r.dir with
  | .forward => { r with
      leftForwardTicks := r.leftForwardTicks + 1
      forwardDist := toULong (r.rightForwardTicks.toNat / countsPerRev * wheelCirc) }
  | .backward => { r with
      leftReverseTicks := r.leftReverseTicks + 1
      reverseDist := toULong (r.rightReverseTicks.toNat / countsPerRev * wheelCirc) }
  | .left => { r with leftReverseTicksTurns := r.leftReverseTicksTurns + 1 }
  | .right => { r with leftForwardTicksTurns := r.leftForwardTicksTurns + 1 }
  | .stop => r

def rightISR (r : Robot) : Robot :=
  match r.dir with
  | .forward => { r with rightForwardTicks := r.rightForwardTicks + 1 }
  | .backward => { r with rightReverseTicks := r.rightReverseTicks + 1 }
  | .left => { r with rightForwardTicksTurns := r.rightForwardTicksTurns + 1 }
  | .right => { r with rightReverseTicksTurns := r.rightReverseTicksTurns + 1 }
  | .stop => r

/-! ## Movements -/

/-- `deltaDist` as `forward` and `reverse` compute it. -/
def distance (dist : ℚ) : UInt32 :=
  let dist := dist / 2
  if dist > 0 then toULong dist else 9999999

def forward (r : Robot) (dist speed : ℚ) : Robot :=
  let val := pwmVal speed
  { r with
    deltaDist := distance dist
    newDist := r.forwardDist + distance dist
    dir := .forward
    motors := (((r.motors.analogWriteBareMetal .LF val).analogWriteBareMetal .RF
      ⌊(0.9 * val : ℚ)⌋₊).analogWriteBareMetal .LR 0).analogWriteBareMetal .RR 0 }

def reverse (r : Robot) (dist speed : ℚ) : Robot :=
  let val := pwmVal speed
  { r with
    deltaDist := distance dist
    newDist := r.reverseDist + distance dist
    dir := .backward
    motors := (((r.motors.analogWriteBareMetal .LR val).analogWriteBareMetal .RR
      ⌊(0.9 * val : ℚ)⌋₊).analogWriteBareMetal .LF 0).analogWriteBareMetal .RF 0 }

def computeDeltaTicks (vincentCirc ang : ℚ) : ℚ :=
  (toULong (ang * vincentCirc * countsPerRev / (360.0 * wheelCirc))).toNat

/-- `deltaTicks` as `left` and `right` compute it. -/
def turn (vincentCirc ang : ℚ) : UInt32 :=
  if ang = 0 then 99999999 else toULong (computeDeltaTicks vincentCirc ang / 4)

def left (r : Robot) (ang speed : ℚ) : Robot :=
  let val := pwmVal speed
  { r with
    deltaTicks := turn r.vincentCirc ang
    targetTicks := r.rightForwardTicksTurns + turn r.vincentCirc ang
    dir := .left
    motors := (((r.motors.analogWriteBareMetal .LR val).analogWriteBareMetal .RF
      ⌊(1.4 * val : ℚ)⌋₊).analogWriteBareMetal .LF 0).analogWriteBareMetal .RR 0 }

def right (r : Robot) (ang speed : ℚ) : Robot :=
  let val := pwmVal speed
  { r with
    deltaTicks := turn r.vincentCirc ang
    targetTicks := r.leftForwardTicksTurns + turn r.vincentCirc ang
    dir := .right
    motors := (((r.motors.analogWriteBareMetal .RR val).analogWriteBareMetal .LF
      ⌊(1.3 * val : ℚ)⌋₊).analogWriteBareMetal .LR 0).analogWriteBareMetal .RF 0 }

/-- `stop()`.  It leaves `dir` and the targets as they are. -/
def stop (r : Robot) : Robot :=
  { r with
    motors := (((r.motors.analogWriteBareMetal .LF 0).analogWriteBareMetal .LR
      0).analogWriteBareMetal .RF 0).analogWriteBareMetal .RR 0 }

/-! ## Statistics -/

def clearCounters (r : Robot) : Robot :=
  { r with
    leftForwardTicks := 0
    rightForwardTicks := 0
    leftForwardTicksTurns := 0
    rightForwardTicksTurns := 0
    leftReverseTicksTurns := 0
    rightReverseTicksTurns := 0
    leftReverseTicks := 0
    rightReverseTicks := 0
    forwardDist := 0
    reverseDist := 0
    colorValue := dontKnow }

/-- `clearOneCounter(which)`, which clears all of them. -/
def clearOneCounter (r : Robot) (_which : UInt32) : Robot := r.clearCounters

/-- `readColor()`, with `red_light` and `green_light` as the sensor leaves them. -/
def readColor (r : Robot) (redLight greenLight : UInt16) : Robot :=
  { r with colorValue := if redLight > greenLight then red else green }

/-! ## What leaves the motors alone -/

@[simp] theorem motors_leftISR (r : Robot) : r.leftISR.motors = r.motors := by
  rw [leftISR]
  split <;> rfl

@[simp] theorem motors_rightISR (r : Robot) : r.rightISR.motors = r.motors := by
  rw [rightISR]
  split <;> rfl

/-! ## What the conversions give -/

theorem toNat_distance {d : UInt32} (hd : 1 ≤ d) :
    (distance d.toNat).toNat = d.toNat / 2 := by
  have hpos : (0 : ℚ) < d.toNat / 2 := by
    have h1 : 1 ≤ d.toNat := hd
    have h1' : (1 : ℚ) ≤ d.toNat := by exact_mod_cast h1
    linarith
  have hlt : (d.toNat : ℚ) < 4294967296 := by exact_mod_cast d.toNat_lt
  rw [distance, if_pos hpos, toNat_toULong (by linarith), Nat.floor_div_ofNat,
    Nat.floor_natCast]

theorem toNat_turn {vincentCirc : ℚ} {a : UInt32} (ha : 1 ≤ a)
    (h : ticksPerDegree vincentCirc * a.toNat < 4294967296) :
    (turn vincentCirc a.toNat).toNat = ⌊ticksPerDegree vincentCirc * a.toNat⌋₊ / 4 := by
  have hne : ¬ ((a.toNat : ℚ) = 0) := by
    have h1 : 1 ≤ a.toNat := ha
    exact_mod_cast (by omega : a.toNat ≠ 0)
  have hK : (a.toNat : ℚ) * vincentCirc * countsPerRev / (360.0 * wheelCirc) =
      ticksPerDegree vincentCirc * a.toNat := by
    norm_num [ticksPerDegree, wheelCirc]
    ring
  have hticks : computeDeltaTicks vincentCirc a.toNat =
      (⌊ticksPerDegree vincentCirc * a.toNat⌋₊ : ℕ) := by
    rw [computeDeltaTicks, hK, toNat_toULong h]
  have hlt : ((⌊ticksPerDegree vincentCirc * a.toNat⌋₊ : ℕ) : ℚ) / 4 < 4294967296 := by
    have := toNat_toULong h
    have hb := (toULong (ticksPerDegree vincentCirc * a.toNat)).toNat_lt
    rw [this] at hb
    have hb' : ((⌊ticksPerDegree vincentCirc * a.toNat⌋₊ : ℕ) : ℚ) < 4294967296 := by
      exact_mod_cast hb
    linarith
  rw [turn, if_neg hne, hticks, toNat_toULong hlt, Nat.floor_div_ofNat, Nat.floor_natCast]

end Robot

end Alex
