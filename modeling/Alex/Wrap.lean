/-
# `Alex.Wrap` — the power the wheels are given

A movement command calls `analogWriteBareMetal` four times.  `pwmVal` makes the speed a
value from 0 to 255, and one wheel is corrected for after that:

    command          forward    reverse    left       right
    plain            LF         LR         LR         RR
    corrected        0.9 RF     0.9 RR     1.4 RF     1.3 LF
    fits up to       always     always     71 %       77 %

Above that the corrected value is 256 or more, and an eight-bit register keeps what is
left of it modulo 256: at 72 % the right wheel of a left turn stands still.
-/
import Alex.Motors
import Alex.Power

namespace Alex

/-- `pwmVal` of a whole number of per cent. -/
def percent (speed : UInt32) : Nat := 255 * min speed.toNat 100 / 100

/-- The calls of `analogWriteBareMetal` in the function of a command, in order. -/
def TCommandType.writes (c : TCommandType) (speed : ℚ) : List (MotorPin × Nat) :=
  let val := pwmVal speed
  match c with
  | .forward => [(.LF, val), (.RF, ⌊(0.9 * val : ℚ)⌋₊), (.LR, 0), (.RR, 0)]
  | .reverse => [(.LR, val), (.RR, ⌊(0.9 * val : ℚ)⌋₊), (.LF, 0), (.RF, 0)]
  | .turnLeft => [(.LR, val), (.RF, ⌊(1.4 * val : ℚ)⌋₊), (.LF, 0), (.RR, 0)]
  | .turnRight => [(.RR, val), (.LF, ⌊(1.3 * val : ℚ)⌋₊), (.LR, 0), (.RF, 0)]
  | .stop => [(.LF, 0), (.LR, 0), (.RF, 0), (.RR, 0)]
  | .getStats | .clearStats => []

/-- The value a command hands out for a pin at a speed. -/
def TCommandType.value (c : TCommandType) (speed : UInt32) (pin : MotorPin) : Nat :=
  match c, pin with
  | .forward, .LF => percent speed
  | .forward, .RF => 9 * percent speed / 10
  | .reverse, .LR => percent speed
  | .reverse, .RR => 9 * percent speed / 10
  | .turnLeft, .LR => percent speed
  | .turnLeft, .RF => 14 * percent speed / 10
  | .turnRight, .RR => percent speed
  | .turnRight, .LF => 13 * percent speed / 10
  | _, _ => 0

def MotorPin.size : MotorPin → Nat
  | .LF | .LR | .RF => 256
  | .RR => 65536

end Alex
