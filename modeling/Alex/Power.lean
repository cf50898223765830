/-
# `Alex.Power` — the power entered and the power applied

A power is an `int32_t` where it is read, a `uint32_t` in the message and in the
packet, a `float` for `pwmVal`, and a byte in the register.  `pwmVal` cuts it off at
both ends, but the sign is gone by then:

    power          p < 0          0 ≤ p ≤ 100       100 < p
    params[1]      2³² + p        p                 p
    register       255            ⌊255 p / 100⌋     255
-/
import Alex.Command
import Alex.Delivery

namespace Alex

/-- `floor(255 * clamp(power, 0, 100) / 100)` -/
def appliedPower (power : Int32) : Int := 255 * max 0 (min 100 power.toInt) / 100

/-- Two signed integers as `getParams` leaves them in `params`. -/
def getParams (distance power : Int32) : Params := ⟨distance.toUInt32, power.toUInt32⟩

theorem pwmVal_natCast (n : Nat) : pwmVal n = 255 * min n 100 / 100 := by
  have hneg : ¬ (n : ℚ) < 0 := not_lt.mpr (Nat.cast_nonneg n)
  have hclamp : (if (n : ℚ) > 100 then (100 : ℚ) else n) = (min n 100 : ℕ) := by
    split
    · rename_i h
      have h100 : 100 < n := by exact_mod_cast h
      rw [Nat.min_eq_right (Nat.le_of_lt h100)]
      norm_num
    · rename_i h
      have h100 : n ≤ 100 := by exact_mod_cast not_lt.mp h
      rw [Nat.min_eq_left h100]
  have hdiv : ((min n 100 : ℕ) : ℚ) / 100 * 255 = ((255 * min n 100 : ℕ) : ℚ) / 100 := by
    push_cast
    ring
  rw [pwmVal, if_neg hneg, hclamp, hdiv, Nat.floor_div_ofNat, Nat.floor_natCast]

theorem toNat_toUInt32 (power : Int32) : (power.toUInt32.toNat : Int) =
    if 0 ≤ power.toInt then power.toInt else power.toInt + 4294967296 := by
  have hcond := BitVec.toInt_eq_toNat_cond power.toBitVec
  have hlt := power.toUInt32.toNat_lt
  replace hcond : power.toInt = if 2 * power.toUInt32.toNat < 2 ^ 32
    then (power.toUInt32.toNat : Int) else power.toUInt32.toNat - (2 ^ 32 : Nat) := hcond
  split at hcond <;> split <;> omega

/-- The power that is applied is the power entered, unless that is negative. -/
theorem pwmVal_eq_appliedPower_iff (power : Int32) :
    (pwmVal power.toUInt32.toNat : Int) = appliedPower power ↔ 0 ≤ power := by
  have hconv := toNat_toUInt32 power
  have hlow : -2147483648 ≤ power.toInt := power.le_toInt
  have hzero : (0 : Int32) ≤ power ↔ 0 ≤ power.toInt := Int32.le_iff_toInt_le
  rw [pwmVal_natCast, appliedPower, hzero]
  split at hconv <;> omega

/-- The robot after a letter typed with these parameters, if the ten bytes of the
message and the packet made of them arrive as they are. -/
def robotAfter (ch : UInt8) (scanned : Params) (buffer : Cells UInt8) (commandPacket : TPacket)
    (r : Robot) (input : LoopInput) : Robot :=
  match writerThread ch scanned with
  | .send ch params =>
      match handleCommand commandPacket (buffer.write 0 (commandBuffer ch params)).get with
      | some packet => (r.handlePacket input packet).1
      | none => r
  | .quit | .badCommand => r

theorem robotAfter_key (a : Letter) (upper : Bool) (scanned : Params) (buffer : Cells UInt8)
    (commandPacket : TPacket) (r : Robot) (input : LoopInput) :
    robotAfter (a.key upper) scanned buffer commandPacket r input =
      r.obey input a.command (a.params scanned).p0 (a.params scanned).p1 := by
  have hcell (i : Nat) (hi : i < 10) :
      (buffer.write 0 (commandBuffer (a.key upper) (a.params scanned))).get i =
        wire (a.key upper) (a.params scanned) i := by
    rw [Cells.get_write, dif_pos ⟨Nat.zero_le _, by simpa using hi⟩, wire,
      List.getD_eq_getElem?_getD, List.getElem?_eq_getElem (by simpa using hi)]
    rfl
  have hword (off : Nat) (ho : off + 4 ≤ 10) :
      Bytes.word (buffer.write 0 (commandBuffer (a.key upper) (a.params scanned))).get off =
        Bytes.word (wire (a.key upper) (a.params scanned)) off :=
    Bytes.word_eq_word_iff.mpr fun i h₁ h₂ => hcell i (by omega)
  have hw₀ : Bytes.word (wire (a.key upper) (a.params scanned)) 2 = (a.params scanned).p0 :=
    Bytes.word_of_slice rfl
  have hw₁ : Bytes.word (wire (a.key upper) (a.params scanned)) 6 = (a.params scanned).p1 :=
    Bytes.word_of_slice rfl
  obtain ⟨p, hp, ht, hc, h₀, h₁⟩ := handleCommand_key a upper commandPacket
    (hcell 1 (by decide))
  rw [robotAfter, writerThread_key]
  simp only [hp]
  rw [Robot.handlePacket_command ht hc, h₀, h₁, hword 6 (by decide), hw₁, hword 2 (by decide), hw₀]
  split
  · rename_i hac
    rw [hac]
    rfl
  · rfl

/-- **Power.**  What `f` and `b` write to the forward and the reverse register of the
left wheel is the power entered, cut off at 0 and 100, exactly when it is not
negative. -/
theorem power_applied_iff (upper : Bool) (distance power : Int32) (buffer : Cells UInt8)
    (commandPacket : TPacket) (r : Robot) (input : LoopInput) :
    (((robotAfter (Letter.f.key upper) (getParams distance power) buffer commandPacket r
        input).motors.OCR0B.toNat : Int) = appliedPower power ↔ 0 ≤ power) ∧
    (((robotAfter (Letter.b.key upper) (getParams distance power) buffer commandPacket r
        input).motors.OCR0A.toNat : Int) = appliedPower power ↔ 0 ≤ power) := by
  have hle := pwmVal_le power.toUInt32.toNat
  have hreg : (UInt8.ofNat (pwmVal power.toUInt32.toNat)).toNat = pwmVal power.toUInt32.toNat := by
    rw [UInt8.toNat_ofNat']
    exact Nat.mod_eq_of_lt (by omega)
  rw [robotAfter_key, robotAfter_key, ← pwmVal_eq_appliedPower_iff, ← hreg]
  exact ⟨Iff.rfl, Iff.rfl⟩

/-- Fifty centimetres at power -1: the wheel turns at full power. -/
theorem negative_power_is_full_power :
    ((robotAfter (Letter.f.key false) (getParams 50 (-1)) ⟨fun _ => 0, []⟩
        .zeroes (.initial 0) .silent).motors.OCR0B.toNat : Int) ≠
      appliedPower (-1) := by
  have hval : pwmVal ((-1 : Int32).toUInt32.toNat) = 255 := by
    rw [pwmVal_natCast]
    decide
  have happlied : appliedPower (-1) = 0 := by decide
  rw [robotAfter_key, happlied]
  show ((UInt8.ofNat (pwmVal ((-1 : Int32).toUInt32.toNat))).toNat : Int) ≠ 0
  rw [hval]
  decide

end Alex
