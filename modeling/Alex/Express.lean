/-
# `Alex.Express` — from two capsules to measurements

`_capsuleToNormal` divides the way from the start angle of a capsule to that of the next
into 32 equal steps, takes from each measurement's place the offset the capsule has for it,
and marks the one whose step passes zero:

    start             next start
      │  │  │  …  │  │
      0  1  2     31           direction k, at which step k begins

It does so in integers, angles of 2⁻¹⁶ degrees, shifted to 2⁻⁶.  `direction` and `measured`
are the same in rationals, and the two agree but for the last rounding (`nodesBetween_get`);
one measurement is marked if the next start angle is smaller, and none otherwise
(`countP_sync`).
-/
import Alex.Capsules
import Alex.Lib.Circle
import Mathlib.Data.Rat.Floor
import Mathlib.Tactic.Linarith
import Mathlib.Tactic.Ring

namespace Alex

namespace Rplidar

/-! ## `_capsuleToNormal` -/

/-- `360 << k`: the circle in units of `2⁻ᵏ` degrees. -/
def circle (k : Nat) : Int := 360 * 2 ^ k

namespace Cabin

/-- `dist_q2[0]`, `dist_q2[1]` -/
def distQ2 (c : Cabin) (second : Bool) : UInt16 :=
  (if second then c.distanceAngle2 else c.distanceAngle1) &&& 0xFFFC

/-- `angle_offset1_q3`, `angle_offset2_q3` -/
def angleOffsetQ3 (c : Cabin) (second : Bool) : Nat :=
  if second then (c.offsetAnglesQ3 >>> 4).toNat ||| (c.distanceAngle2 &&& 0x3).toNat <<< 4
  else (c.offsetAnglesQ3 &&& 0xF).toNat ||| (c.distanceAngle1 &&& 0x3).toNat <<< 4

end Cabin

/-- The two corrections of `angle_q6[cpos]`. -/
def wrapQ6 (angle : Int) : Int :=
  let angle := if angle < 0 then angle + circle 6 else angle
  if angle ≥ circle 6 then angle - circle 6 else angle

/-- `angle_q6[cpos]`, where `currentAngle_raw_q16` is `raw`. -/
def angleBefore (raw : Int) (c : Cabin) (second : Bool) : Int :=
  (raw - (c.angleOffsetQ3 second : Int) <<< (13 : Nat)) >>> (10 : Nat)

/-- A measurement of a cabin, where `currentAngle_raw_q16` is `raw`. -/
def measurement (angleInc raw : Int) (c : Cabin) (second : Bool) : MeasurementNode :=
  let angle := wrapQ6 (angleBefore raw c second)
  let syncBit : UInt8 := if (raw + angleInc).tmod (circle 16) < angleInc then 1 else 2
  let quality : UInt8 := if c.distQ2 second ≠ 0 then (0x2F : UInt8) <<< (2 : UInt8) else 0
  { syncQuality := syncBit ||| quality
    angleQ6Checkbit := 1 ||| .ofInt (angle <<< (1 : Nat))
    distanceQ2 := c.distQ2 second }

def cabinsToNodes (angleInc raw : Int) : List Cabin → List MeasurementNode
  | [] => []
  | c :: cabins =>
      measurement angleInc raw c false :: measurement angleInc (raw + angleInc) c true ::
        cabinsToNodes angleInc (raw + angleInc + angleInc) cabins

namespace Capsule

/-- `start_angle_sync_q6 & 0x7FFF` -/
def startAngleQ6 (c : Capsule) : Nat := (c.startAngleSyncQ6 &&& 0x7FFF).toNat

end Capsule

/-- `angleInc_q16` -/
def angleIncQ16 (previous capsule : Capsule) : Int :=
  let current : Int := (capsule.startAngleQ6 : Int) <<< (2 : Nat)
  let prev : Int := (previous.startAngleQ6 : Int) <<< (2 : Nat)
  let diffAngleQ8 := if prev > current then current - prev + circle 8 else current - prev
  diffAngleQ8 <<< (3 : Nat)

/-- `prevStartAngle_q8 << 8` -/
def startQ16 (previous : Capsule) : Int :=
  (previous.startAngleQ6 : Int) <<< (2 : Nat) <<< (8 : Nat)

/-- `_capsuleToNormal(capsule, nodebuffer, nodeCount)` where the capsule before is there. -/
def nodesBetween (previous capsule : Capsule) : List MeasurementNode :=
  cabinsToNodes (angleIncQ16 previous capsule) (startQ16 previous) (List.ofFn previous.cabins)

theorem Cabin.angleOffsetQ3_lt (c : Cabin) (second : Bool) : c.angleOffsetQ3 second < 64 := by
  have hlow : ∀ b : UInt8, (b &&& 0xF).toNat < 2 ^ 6 := fun b => by
    rw [UInt8.toNat_and]
    exact lt_of_le_of_lt Nat.and_le_right (by decide)
  have hhigh : ∀ b : UInt8, (b >>> 4).toNat < 2 ^ 6 := fun b => by
    have hb := b.toNat_lt
    simp [Nat.shiftRight_eq_div_pow]
    omega
  have hangle : ∀ h : UInt16, (h &&& 0x3).toNat <<< 4 < 2 ^ 6 := fun h => by
    have hand : (h &&& 0x3).toNat ≤ 3 := by
      rw [UInt16.toNat_and]
      exact Nat.and_le_right
    rw [Nat.shiftLeft_eq]
    omega
  rw [angleOffsetQ3]
  split
  · exact Nat.or_lt_two_pow (hhigh _) (hangle _)
  · exact Nat.or_lt_two_pow (hlow _) (hangle _)

/-! ## In degrees -/

namespace Capsule

def startAngle (c : Capsule) : ℚ := c.startAngleQ6 / 64

def cabin (c : Capsule) (k : Nat) : Cabin := c.cabins (.ofNat 16 (k / 2))

/-- Where the step of a measurement begins. -/
def direction (previous capsule : Capsule) (k : Nat) : ℚ :=
  let turn : ℚ := if capsule.startAngle < previous.startAngle then 360 else 0
  previous.startAngle + k * (capsule.startAngle + turn - previous.startAngle) / 32

def measured (previous capsule : Capsule) (k : Nat) : ℚ :=
  direction previous capsule k - (previous.cabin k).angleOffsetQ3 (k % 2 = 1) / 8

end Capsule

/-! ## One measurement -/

section
variable {angleInc raw : Int} {c : Cabin} {second : Bool}

theorem measurement_valid (angleInc raw : Int) (c : Cabin) (second : Bool) :
    (measurement angleInc raw c second).Valid := by
  refine ⟨?_, ?_⟩
  · simp only [measurement]
    split <;> split <;> decide
  · simp only [measurement, ne_eq]
    intro h
    have hbit := congrArg UInt16.toNat h
    simp at hbit
    have hodd (n : Nat) : (1 ||| n) % 2 = 1 := Nat.or_mod_two_eq_one.mpr (.inl rfl)
    rw [hodd] at hbit
    exact absurd hbit (by decide)

theorem measurement_sync (hraw : 0 ≤ raw + angleInc) :
    (measurement angleInc raw c second).sync = Circle.passes (circle 16) angleInc raw := by
  rw [Circle.passes, ← Int.tmod_eq_emod_of_nonneg hraw]
  simp only [MeasurementNode.sync, measurement]
  split <;> split <;> simp [*] <;> decide

theorem wrapQ6_eq {angle : Int} (hlow : -circle 6 ≤ angle) (hhigh : angle < 2 * circle 6) :
    wrapQ6 angle = angle % circle 6 := by
  have hcircle : circle 6 = 23040 := by decide
  rw [wrapQ6, hcircle]
  rw [hcircle] at hlow hhigh
  split <;> split <;> omega

theorem angleBefore_eq (raw : Int) (c : Cabin) (second : Bool) :
    angleBefore raw c second = (raw - 8192 * c.angleOffsetQ3 second) / 1024 := by
  rw [angleBefore, Int.shiftLeft_eq, Int.shiftRight_eq_div_pow, Int.mul_comm]
  rfl

theorem angleBefore_bounds (hraw : 0 ≤ raw) (hhigh : raw < 2 * circle 16) (c : Cabin) (second : Bool) :
    -circle 6 ≤ angleBefore raw c second ∧ angleBefore raw c second < 2 * circle 6 := by
  have hcircle : circle 6 = 23040 := by decide
  have hcircle' : circle 16 = 23592960 := by decide
  have hoffset := c.angleOffsetQ3_lt second
  rw [angleBefore_eq]
  omega

theorem measurement_angleQ6 (hlow : -circle 6 ≤ angleBefore raw c second)
    (hhigh : angleBefore raw c second < 2 * circle 6) :
    ((measurement angleInc raw c second).angleQ6 : Int) = angleBefore raw c second % circle 6 := by
  rw [← wrapQ6_eq hlow hhigh, MeasurementNode.angleQ6, measurement]
  have hwrap := wrapQ6_eq hlow hhigh
  have hcircle : circle 6 = 23040 := by decide
  generalize angleBefore raw c second = angle at hwrap ⊢
  rw [hcircle] at hwrap
  obtain ⟨n, hn⟩ := Int.eq_ofNat_of_zero_le (show 0 ≤ wrapQ6 angle by omega)
  have hlt : n < 23040 := by omega
  have hbits : ((1 : UInt16) ||| .ofInt ((n : Int) <<< (1 : Nat))).toNat = n <<< 1 + 1 := by
    have hmod : ((n : Int) * 2 ^ 1 % 2 ^ 16).toNat = n * 2 := by omega
    rw [Nat.shiftLeft_add_eq_or_of_lt (by decide), UInt16.toNat_or, UInt16.ofInt, Int.shiftLeft_eq,
      hmod, UInt16.toNat_ofNat', Nat.mod_eq_of_lt (show n * 2 < 2 ^ 16 by omega), Nat.shiftLeft_eq,
      Nat.or_comm]
    rfl
  rw [hn, UInt16.toNat_shiftRight]
  simp only [hbits, Nat.shiftLeft_eq, Nat.shiftRight_eq_div_pow]
  norm_cast
  simp
  omega

end

theorem getElem?_cabinsToNodes (angleInc raw : Int) (cabins : List Cabin) (k : Nat) :
    (cabinsToNodes angleInc raw cabins)[k]? = cabins[k / 2]?.map fun c =>
      measurement angleInc (raw + k * angleInc) c (k % 2 = 1) := by
  induction cabins generalizing raw k with
  | nil => rfl
  | cons c cabins ih =>
      rcases k with - | - | k
      · simp [cabinsToNodes]
      · simp [cabinsToNodes]
      · have hdiv : (k + 1 + 1) / 2 = k / 2 + 1 := by omega
        have hmod : (k + 1 + 1) % 2 = k % 2 := by omega
        have hraw : raw + angleInc + angleInc + k * angleInc =
            raw + (k + 1 + 1 : Nat) * angleInc := by
          push_cast
          ring
        rw [cabinsToNodes, List.getElem?_cons_succ, List.getElem?_cons_succ, ih, hdiv, hmod, hraw]
        rfl

/-- `currentAngle_raw_q16` at measurement `k`. -/
def rawQ16 (previous capsule : Capsule) (k : Nat) : Int :=
  startQ16 previous + k * angleIncQ16 previous capsule

theorem nodesBetween_eq (previous capsule : Capsule) :
    nodesBetween previous capsule = (List.range 32).map fun k : Nat =>
      measurement (angleIncQ16 previous capsule) (rawQ16 previous capsule k) (previous.cabin k)
        (k % 2 = 1) := by
  refine List.ext_getElem? fun k => ?_
  rw [nodesBetween, getElem?_cabinsToNodes, List.getElem?_map, List.getElem?_ofFn]
  by_cases hk : k < 32
  · have hcabin : k / 2 < 16 := by omega
    have hfin : Fin.ofNat 16 (k / 2) = ⟨k / 2, hcabin⟩ := Fin.ext (Nat.mod_eq_of_lt hcabin)
    simp only [hcabin, hk, Capsule.cabin, hfin, rawQ16, List.getElem?_range, dif_pos,
      Option.map_some]
  · have hcabin : ¬ k / 2 < 16 := by omega
    simp [hk, hcabin]

@[simp] theorem length_nodesBetween (previous capsule : Capsule) :
    (nodesBetween previous capsule).length = 32 := by
  rw [nodesBetween_eq, List.length_map, List.length_range]

/-! ## The way from one capsule to the next -/

namespace Capsule

variable (previous capsule : Capsule)

theorem startAngle_lt_iff : capsule.startAngle < previous.startAngle ↔
    capsule.startAngleQ6 < previous.startAngleQ6 := by
  rw [startAngle, startAngle, div_lt_div_iff_of_pos_right (by norm_num)]
  exact_mod_cast Iff.rfl

theorem startAngle_lt_circle_iff : previous.startAngle < 360 ↔
    previous.startAngleQ6 < 23040 := by
  rw [startAngle, div_lt_iff₀ (by norm_num)]
  norm_num

theorem startAngleQ6_lt (c : Capsule) : c.startAngleQ6 < 2 ^ 15 := by
  rw [startAngleQ6, UInt16.toNat_and]
  exact lt_of_le_of_lt Nat.and_le_right (by decide)

theorem startQ16_eq : startQ16 previous = 1024 * previous.startAngleQ6 := by
  simp only [startQ16, Int.shiftLeft_eq]
  ring

theorem angleIncQ16_eq : angleIncQ16 previous capsule =
    32 * (capsule.startAngleQ6 - previous.startAngleQ6 : Int) +
      if capsule.startAngleQ6 < previous.startAngleQ6 then 737280 else 0 := by
  have hcircle : circle 8 = 92160 := by decide
  rw [angleIncQ16, hcircle]
  simp only [Int.shiftLeft_eq]
  split <;> split <;> omega

/-- The integers are the directions, in units of 2⁻¹⁶ degrees. -/
theorem rawQ16_eq (k : Nat) :
    (rawQ16 previous capsule k : ℚ) = 65536 * direction previous capsule k := by
  rw [rawQ16, startQ16_eq, angleIncQ16_eq, direction]
  simp only [startAngle_lt_iff]
  simp only [startAngle]
  split <;> push_cast <;> ring

theorem floor_measured (k : Nat) :
    angleBefore (rawQ16 previous capsule k) (previous.cabin k) (k % 2 = 1) =
      ⌊64 * measured previous capsule k⌋ := by
  have hscale : (64 : ℚ) * measured previous capsule k =
      ((rawQ16 previous capsule k - 8192 * (previous.cabin k).angleOffsetQ3 (k % 2 = 1) : Int) : ℚ) /
        ((1024 : Nat) : ℚ) := by
    rw [Int.cast_sub, rawQ16_eq, measured]
    push_cast
    ring
  rw [hscale, Rat.floor_intCast_div_natCast, angleBefore_eq]
  rfl

end Capsule

section
variable {previous capsule : Capsule}

/-- Whatever the capsules say, what is computed is an `int`. -/
theorem rawQ16_fits (previous capsule : Capsule) {k : Nat} (hk : k ≤ 32) (c : Cabin)
    (second : Bool) :
    let raw := rawQ16 previous capsule k
    raw + angleIncQ16 previous capsule < 2 ^ 31 ∧ -2 ^ 31 ≤ raw + angleIncQ16 previous capsule ∧
      -2 ^ 31 ≤ raw - 8192 * c.angleOffsetQ3 second := by
  have hoffset := c.angleOffsetQ3_lt second
  have hinc := previous.angleIncQ16_eq capsule
  have hstart := previous.startQ16_eq
  have hp := previous.startAngleQ6_lt
  have hc := capsule.startAngleQ6_lt
  have hk' : (k : Int) ≤ 32 := by omega
  rw [rawQ16]
  generalize angleIncQ16 previous capsule = inc at hinc
  rcases Int.le_total 0 inc with hpos | hneg
  · have hsteps : k * inc ≤ 32 * inc := Int.mul_le_mul_of_nonneg_right hk' hpos
    have hnonneg : 0 ≤ k * inc := Int.mul_nonneg (by omega) hpos
    split at hinc <;> omega
  · have hsteps : 32 * inc ≤ k * inc := Int.mul_le_mul_of_nonpos_right hk' hneg
    have hnonpos : k * inc ≤ 0 := Int.mul_nonpos_of_nonneg_of_nonpos (by omega) hneg
    split at hinc <;> omega

theorem rawQ16_bounds (hp : previous.startAngle < 360) (hc : capsule.startAngle < 360) {k : Nat}
    (hk : k ≤ 32) :
    0 ≤ angleIncQ16 previous capsule ∧ angleIncQ16 previous capsule < circle 16 ∧
      0 ≤ rawQ16 previous capsule k ∧ rawQ16 previous capsule k < 2 * circle 16 := by
  have hcircle : circle 16 = 23592960 := by decide
  have hinc := previous.angleIncQ16_eq capsule
  have hstart := previous.startQ16_eq
  rw [Capsule.startAngle_lt_circle_iff] at hp hc
  rw [rawQ16]
  generalize angleIncQ16 previous capsule = inc at hinc
  have hpos : 0 ≤ inc := by
    split at hinc <;> omega
  have hlast : 32 * inc < 2 * circle 16 - 1024 * previous.startAngleQ6 := by
    split at hinc <;> omega
  have hsteps : k * inc ≤ 32 * inc := Int.mul_le_mul_of_nonneg_right (by omega) hpos
  have hnonneg : 0 ≤ k * inc := Int.mul_nonneg (by omega) hpos
  refine ⟨hpos, ?_, by omega, by omega⟩
  split at hinc <;> omega

/-- A measurement is valid, has the direction it should, rounded down to 2⁻⁶ degrees, and is
marked if its step passes zero. -/
theorem nodesBetween_get (hp : previous.startAngle < 360) (hc : capsule.startAngle < 360) {k : Nat}
    {node : MeasurementNode} (h : (nodesBetween previous capsule)[k]? = some node) :
    node.Valid ∧ (node.angleQ6 : Int) = ⌊64 * previous.measured capsule k⌋ % circle 6 ∧
    node.distanceQ2 = (previous.cabin k).distQ2 (k % 2 = 1) ∧
    (node.sync = true ↔
      previous.direction capsule k < 360 ∧ 360 ≤ previous.direction capsule (k + 1)) := by
  have hcircle : circle 16 = 23592960 := by decide
  have hk : k < 32 := by
    have hlen := (List.getElem?_eq_some_iff.mp h).1
    rwa [length_nodesBetween] at hlen
  rw [nodesBetween_eq, List.getElem?_map, List.getElem?_range hk, Option.map_some] at h
  obtain rfl := Option.some.inj h
  obtain ⟨hpos, -, hraw, hhigh⟩ := rawQ16_bounds hp hc hk.le
  obtain ⟨-, -, -, hnext⟩ := rawQ16_bounds hp hc (show k + 1 ≤ 32 from hk)
  have hsucc : rawQ16 previous capsule (k + 1) =
      rawQ16 previous capsule k + angleIncQ16 previous capsule := by
    rw [rawQ16, rawQ16]
    push_cast
    ring
  refine ⟨measurement_valid .., ?_, rfl, ?_⟩
  · rw [measurement_angleQ6, Capsule.floor_measured]
    · exact (angleBefore_bounds hraw hhigh _ _).1
    · exact (angleBefore_bounds hraw hhigh _ _).2
  · have hhere := previous.rawQ16_eq capsule k
    have hthere := previous.rawQ16_eq capsule (k + 1)
    have hlow : rawQ16 previous capsule k < 23592960 ↔ previous.direction capsule k < 360 := by
      rw [← Int.cast_lt (R := ℚ), hhere]
      norm_num
      constructor <;> intro h <;> linarith
    have hup : 23592960 ≤ rawQ16 previous capsule (k + 1) ↔
        360 ≤ previous.direction capsule (k + 1) := by
      rw [← Int.cast_le (R := ℚ), hthere]
      norm_num
      constructor <;> intro h <;> linarith
    rw [hsucc] at hnext hup
    rw [measurement_sync (Int.add_nonneg hraw hpos), Circle.passes_iff hpos hraw hnext, hcircle,
      hlow, hup]

/-- **Revolutions.**  One measurement is marked if the start angle has fallen, and none
otherwise. -/
theorem countP_sync (hp : previous.startAngle < 360) (hc : capsule.startAngle < 360) :
    (nodesBetween previous capsule).countP MeasurementNode.sync =
      if capsule.startAngle < previous.startAngle then 1 else 0 := by
  have hcircle : circle 16 = 23592960 := by decide
  have hinc := previous.angleIncQ16_eq capsule
  have hstart := previous.startQ16_eq
  have hpass : (nodesBetween previous capsule).countP MeasurementNode.sync =
      (List.range 32).countP fun k : Nat => Circle.passes (circle 16)
        (angleIncQ16 previous capsule) (startQ16 previous + k * angleIncQ16 previous capsule) := by
    rw [nodesBetween_eq, List.countP_map]
    refine List.countP_congr fun k hk => ?_
    obtain ⟨hpos, -, hraw, -⟩ := rawQ16_bounds hp hc (List.mem_range.mp hk).le
    rw [Function.comp_apply, measurement_sync (Int.add_nonneg hraw hpos), rawQ16]
  obtain ⟨hpos, hlt, -, -⟩ := rawQ16_bounds hp hc (Nat.zero_le 32)
  have hturns := Circle.countP_passes hpos hlt (startQ16 previous) 32
  rw [← hpass, hcircle, hstart] at hturns
  rw [Capsule.startAngle_lt_circle_iff] at hp hc
  simp only [Capsule.startAngle_lt_iff]
  split at hinc <;> rename_i hfall <;> simp only [hfall, if_true, if_false] <;> omega

end

/-- **Measurements.**  Of two capsules whose start angles lie on the circle 32 valid nodes are
made, each at the direction it has in exact arithmetic, rounded down to 2⁻⁶ degrees and taken
on the circle, with its distance; a node is marked exactly where its step passes zero, and that
is one of them if the start angle has fallen, and none otherwise. -/
theorem capsule_measurements (previous capsule : Capsule) (hp : previous.startAngle < 360)
    (hc : capsule.startAngle < 360) :
    let nodes := nodesBetween previous capsule
    nodes.length = 32 ∧
      (∀ k node, nodes[k]? = some node →
        node.Valid ∧ (node.angleQ6 : Int) = ⌊64 * previous.measured capsule k⌋ % circle 6 ∧
        node.distanceQ2 = (previous.cabin k).distQ2 (k % 2 = 1) ∧
        (node.sync = true ↔
          previous.direction capsule k < 360 ∧ 360 ≤ previous.direction capsule (k + 1))) ∧
      nodes.countP MeasurementNode.sync =
        if capsule.startAngle < previous.startAngle then 1 else 0 :=
  ⟨length_nodesBetween previous capsule, fun _ _ h => nodesBetween_get hp hc h, countP_sync hp hc⟩

theorem capsule_measurements_falling :
    (nodesBetween (emptyCapsule 22400) (emptyCapsule 640)).countP MeasurementNode.sync =
      if (emptyCapsule 640).startAngle < (emptyCapsule 22400).startAngle then 1 else 0 :=
  (capsule_measurements (emptyCapsule 22400) (emptyCapsule 640)
    ((Capsule.startAngle_lt_circle_iff _).mpr (by decide +kernel))
    ((Capsule.startAngle_lt_circle_iff _).mpr (by decide +kernel))).2.2

end Rplidar

end Alex
