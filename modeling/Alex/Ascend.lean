/-
# `Alex.Ascend` — a scan in order of angle

`ascendScanData` gives every node without a distance an angle, by what the nodes would have
if they were spread evenly, and sorts the scan by angle:

    head    from the first node with a distance down to node 0
    tail    from the last node with a distance up to the end
    fill    every other, from the angle of node 0
    sort

The computations are of `float`s, whose arithmetic is a parameter here, and nothing that
follows depends on it.  `fill` goes over every node that `tail` has been over
(`fill_tuneTail`), so `tail` does nothing.
-/
import Alex.Lib.Exchange
import Alex.Lidar
import Mathlib.Order.Nat

namespace Alex

namespace Rplidar

/-- What `ascendScanData` computes with. -/
structure FloatOps (F : Type) where
  ofNat : Nat → F
  add : F → F → F
  sub : F → F → F
  mul : F → F → F
  div : F → F → F
  lt : F → F → Bool
  /-- `360.0/count` -/
  incOriginAngle : Nat → F
  /-- `(_u16)` -/
  toU16 : F → UInt16

section
variable {F : Type} (fl : FloatOps F)

/-- `(node.angle_q6_checkbit >> RPLIDAR_RESP_MEASUREMENT_ANGLE_SHIFT)/64.0f` -/
def FloatOps.angle (node : MeasurementNode) : F := fl.div (fl.ofNat node.angleQ6) (fl.ofNat 64)

/-- The angle `expect_angle`, and the check bit that was there. -/
def FloatOps.setAngle (node : MeasurementNode) (expectAngle : F) : MeasurementNode :=
  let checkbit := node.angleQ6Checkbit &&& 1
  { node with
    angleQ6Checkbit := fl.toU16 (fl.mul expectAngle (fl.ofNat 64)) <<< 1 + checkbit }

/-- `if (expect_angle > 360.0f) expect_angle -= 360.0f;` -/
def FloatOps.wrap (expectAngle : F) : F :=
  if fl.lt (fl.ofNat 360) expectAngle then fl.sub expectAngle (fl.ofNat 360) else expectAngle

/-! ## `ascendScanData` -/

/-- The `while` of the head, from node `i` down. -/
def tuneHead (inc : F) (nodebuffer : Nat → MeasurementNode) : Nat → Nat → MeasurementNode
  | 0 => nodebuffer
  | i + 1 =>
      let expectAngle := fl.sub (fl.angle (nodebuffer (i + 1))) inc
      let expectAngle := if fl.lt expectAngle (fl.ofNat 0) then fl.ofNat 0 else expectAngle
      tuneHead inc (Function.update nodebuffer i (fl.setAngle (nodebuffer i) expectAngle)) i

/-- The `while` of the tail, from node `i` up, `left` times. -/
def tuneTail (inc : F) (nodebuffer : Nat → MeasurementNode) (i : Nat) :
    Nat → Nat → MeasurementNode
  | 0 => nodebuffer
  | left + 1 =>
      let expectAngle := fl.wrap (fl.add (fl.angle (nodebuffer i)) inc)
      let node := fl.setAngle (nodebuffer (i + 1)) expectAngle
      tuneTail inc (Function.update nodebuffer (i + 1) node) (i + 1) left

def fillNode (inc frontAngle : F) (nodebuffer : Nat → MeasurementNode) (i : Nat) :
    Nat → MeasurementNode :=
  if (nodebuffer i).distanceQ2 = 0 then
    let expectAngle := fl.wrap (fl.add frontAngle (fl.mul (fl.ofNat i) inc))
    Function.update nodebuffer i (fl.setAngle (nodebuffer i) expectAngle)
  else nodebuffer

/-- Fill invalid angle in the scan. -/
def fill (inc : F) (nodebuffer : Nat → MeasurementNode) (count : Nat) : Nat → MeasurementNode :=
  (List.range' 1 (count - 1)).foldl (fillNode fl inc (fl.angle (nodebuffer 0))) nodebuffer

def hasDistance (nodebuffer : Nat → MeasurementNode) (i : Nat) : Bool :=
  (nodebuffer i).distanceQ2 ≠ 0

/-- The last of `count` nodes with a distance, which there is where the head has been tuned. -/
def lastWithDistance (nodebuffer : Nat → MeasurementNode) : Nat → Nat
  | 0 => 0
  | i + 1 => if hasDistance nodebuffer i then i else lastWithDistance nodebuffer i

def ascendScanData (nodebuffer : Nat → MeasurementNode) (count : Nat) :
    UResult × (Nat → MeasurementNode) :=
  let inc := fl.incOriginAngle count
  match (List.range count).find? (hasDistance nodebuffer) with
  | none => (.operationFail, nodebuffer)
  | some first =>
      let nodebuffer := tuneHead fl inc nodebuffer first
      let last := lastWithDistance nodebuffer count
      let nodebuffer := tuneTail fl inc nodebuffer last (count - 1 - last)
      let nodebuffer := fill fl inc nodebuffer count
      (.ok, Exchange.sort (fun node => node.angleQ6Checkbit.toNat) count nodebuffer)

end

/-! ## Nodes retold -/

/-- A node, but for the angle if it has no distance. -/
structure Retold (node node' : MeasurementNode) : Prop where
  quality : node'.syncQuality = node.syncQuality
  distance : node'.distanceQ2 = node.distanceQ2
  check : node'.angleQ6Checkbit &&& 1 = node.angleQ6Checkbit &&& 1
  kept : node.distanceQ2 ≠ 0 → node' = node

namespace Retold

variable {node node' node'' : MeasurementNode}

theorem refl (node : MeasurementNode) : Retold node node := ⟨rfl, rfl, rfl, fun _ => rfl⟩

theorem trans (h : Retold node node') (h' : Retold node' node'') : Retold node node'' := by
  refine ⟨h'.quality.trans h.quality, h'.distance.trans h.distance, h'.check.trans h.check,
    fun hne => ?_⟩
  have hkept := h.kept hne
  rw [← hkept] at hne
  exact (h'.kept hne).trans hkept

theorem valid (h : Retold node node') (hvalid : node.Valid) : node'.Valid := by
  refine ⟨?_, ?_⟩
  · rw [h.quality]
    exact hvalid.reversed
  · rw [h.check]
    exact hvalid.check

end Retold

section
variable {F : Type} {fl : FloatOps F} {node : MeasurementNode} {a b c : Nat → MeasurementNode}
  {count i : Nat}

theorem retold_setAngle (hnode : node.distanceQ2 = 0) (expectAngle : F) :
    Retold node (fl.setAngle node expectAngle) := by
  refine ⟨rfl, rfl, ?_, fun hne => absurd hnode hne⟩
  have hlow (x y : UInt16) : (x <<< 1 + (y &&& 1)) &&& 1 = y &&& 1 := by
    rw [← UInt16.toNat_inj]
    simp [Nat.shiftLeft_eq]
  exact hlow _ _

theorem setAngle_congr {node' : MeasurementNode} (h : Retold node node') (expectAngle : F) :
    fl.setAngle node' expectAngle = fl.setAngle node expectAngle := by
  simp only [FloatOps.setAngle, h.quality, h.distance, h.check]

/-- A buffer whose first `count` nodes are retold. -/
structure Tuned (count : Nat) (a b : Nat → MeasurementNode) : Prop where
  retold : ∀ i, Retold (a i) (b i)
  beyond : ∀ i, count ≤ i → b i = a i

namespace Tuned

theorem refl (count : Nat) (a : Nat → MeasurementNode) : Tuned count a a :=
  ⟨fun i => .refl (a i), fun _ _ => rfl⟩

theorem trans (h : Tuned count a b) (h' : Tuned count b c) : Tuned count a c :=
  ⟨fun i => (h.retold i).trans (h'.retold i), fun i hi => (h'.beyond i hi).trans (h.beyond i hi)⟩

theorem distance (h : Tuned count a b) (i : Nat) : (b i).distanceQ2 = (a i).distanceQ2 :=
  (h.retold i).distance

end Tuned

theorem tuned_update (hi : i < count) (hnode : (a i).distanceQ2 = 0) (expectAngle : F) :
    Tuned count a (Function.update a i (fl.setAngle (a i) expectAngle)) := by
  refine ⟨fun j => ?_, fun j hj => Function.update_of_ne (by omega) ..⟩
  rcases eq_or_ne j i with rfl | hne
  · rw [Function.update_self]
    exact retold_setAngle hnode expectAngle
  · rw [Function.update_of_ne hne]
    exact .refl (a j)

theorem tuned_tuneHead (inc : F) (hi : i ≤ count) (hnone : ∀ j, j < i → (a j).distanceQ2 = 0) :
    Tuned count a (tuneHead fl inc a i) := by
  induction i generalizing a with
  | zero => exact .refl count a
  | succ i ih =>
      have hstep : ∀ e : F, Tuned count a (Function.update a i (fl.setAngle (a i) e)) :=
        fun e => tuned_update (by omega) (hnone i (Nat.lt_succ_self i)) e
      exact (hstep _).trans (ih (by omega) fun j hj => by
        rw [(hstep _).distance]
        exact hnone j (by omega))

theorem tuned_tuneTail (inc : F) {left : Nat} (hi : i + left < count)
    (hnone : ∀ j, i < j → j < count → (a j).distanceQ2 = 0) :
    Tuned count a (tuneTail fl inc a i left) := by
  induction left generalizing a i with
  | zero => exact .refl count a
  | succ left ih =>
      have hstep : ∀ e : F,
          Tuned count a (Function.update a (i + 1) (fl.setAngle (a (i + 1)) e)) :=
        fun e => tuned_update (by omega) (hnone (i + 1) (by omega) (by omega)) e
      exact (hstep _).trans (ih (by omega) fun j hij hj => by
        rw [(hstep _).distance]
        exact hnone j (by omega) hj)

/-! ## What is filled -/

/-- **Step.**  The loop that fills, after `m` nodes. -/
theorem foldl_fillNode (inc front : F) (a : Nat → MeasurementNode) (m i : Nat) :
    (List.range' 1 m).foldl (fillNode fl inc front) a i =
      if (a i).distanceQ2 = 0 ∧ 0 < i ∧ i < m + 1 then
        fl.setAngle (a i) (fl.wrap (fl.add front (fl.mul (fl.ofNat i) inc)))
      else a i := by
  induction m generalizing i with
  | zero =>
      rw [if_neg fun h => by omega]
      rfl
  | succ m ih =>
      rw [List.range'_concat, List.foldl_append]
      generalize hb : (List.range' 1 m).foldl (fillNode fl inc front) a = b at ih
      have hnext : 1 + 1 * m = m + 1 := by omega
      have hhere : b (m + 1) = a (m + 1) := by
        rw [ih, if_neg fun h => by omega]
      show fillNode fl inc front b (1 + 1 * m) i = _
      rw [hnext, fillNode, hhere]
      rcases eq_or_ne i (m + 1) with rfl | hne
      · split
        · rename_i hnode
          rw [Function.update_self, if_pos ⟨hnode, by omega, by omega⟩]
        · rename_i hnode
          rw [hhere, if_neg fun h => hnode h.1]
      · have hsame : i < m + 1 + 1 ↔ i < m + 1 := by omega
        simp only [hsame]
        rw [← ih]
        split
        · rw [Function.update_of_ne hne]
        · rfl

theorem fill_eq (inc : F) (a : Nat → MeasurementNode) (count i : Nat) :
    fill fl inc a count i =
      if (a i).distanceQ2 = 0 ∧ 0 < i ∧ i < count then
        fl.setAngle (a i) (fl.wrap (fl.add (fl.angle (a 0)) (fl.mul (fl.ofNat i) inc)))
      else a i := by
  have hcount : 0 < i ∧ i < count - 1 + 1 ↔ 0 < i ∧ i < count := by omega
  rw [fill, foldl_fillNode]
  simp only [hcount]

theorem tuned_fill (inc : F) (a : Nat → MeasurementNode) (count : Nat) :
    Tuned count a (fill fl inc a count) := by
  refine ⟨fun i => ?_, fun i hi => ?_⟩
  · rw [fill_eq]
    split
    · rename_i hnode
      exact retold_setAngle hnode.1 _
    · exact .refl (a i)
  · rw [fill_eq, if_neg fun h => by omega]

theorem tuneTail_of_le (inc : F) {left j : Nat} (hj : j ≤ i) :
    tuneTail fl inc a i left j = a j := by
  induction left generalizing a i with
  | zero => rfl
  | succ left ih =>
      rw [tuneTail, ih (by omega)]
      exact Function.update_of_ne (by omega) ..

/-- **The tail.**  Tuning it changes nothing: what it sets is set again. -/
theorem fill_tuneTail (inc : F) {left : Nat} (hi : i + left < count)
    (hnone : ∀ j, i < j → j < count → (a j).distanceQ2 = 0) :
    fill fl inc (tuneTail fl inc a i left) count = fill fl inc a count := by
  have htuned : Tuned count a (tuneTail fl inc a i left) := tuned_tuneTail inc hi hnone
  have hfront : tuneTail fl inc a i left 0 = a 0 := tuneTail_of_le inc (Nat.zero_le i)
  funext j
  rw [fill_eq, fill_eq, hfront, htuned.distance]
  split
  · rw [setAngle_congr (htuned.retold j)]
  · rename_i hnot
    rcases Nat.eq_zero_or_pos j with rfl | hpos
    · exact hfront
    · rcases Nat.lt_or_ge j count with hlt | hge
      · exact (htuned.retold j).kept fun hnode => hnot ⟨hnode, hpos, hlt⟩
      · exact htuned.beyond j hge

/-! ## A scan in order -/

theorem first_spec (h : (List.range count).find? (hasDistance a) = some i) :
    i < count ∧ (a i).distanceQ2 ≠ 0 ∧ ∀ j, j < i → (a j).distanceQ2 = 0 := by
  obtain ⟨hnode, hi, hnone⟩ := List.find?_range_eq_some.mp h
  exact ⟨List.mem_range.mp hi, by simpa [hasDistance] using hnode,
    fun j hj => by simpa [hasDistance] using hnone j hj⟩

theorem last_spec (hexists : ∃ j, j < count ∧ (a j).distanceQ2 ≠ 0) :
    lastWithDistance a count < count ∧
      ∀ j, lastWithDistance a count < j → j < count → (a j).distanceQ2 = 0 := by
  induction count with
  | zero => exact absurd hexists (by simp)
  | succ count ih =>
      rw [lastWithDistance]
      split
      · exact ⟨Nat.lt_succ_self count, fun j hlow hhigh => by omega⟩
      · rename_i hnode
        replace hnode : (a count).distanceQ2 = 0 := by simpa [hasDistance] using hnode
        obtain ⟨j, hj, hne⟩ := hexists
        have hlt : j < count := by
          rcases Nat.lt_succ_iff_lt_or_eq.mp hj with hlt | rfl
          · exact hlt
          · exact absurd hnode hne
        obtain ⟨hlast, hafter⟩ := ih ⟨j, hlt, hne⟩
        refine ⟨by omega, fun k hlow hhigh => ?_⟩
        rcases Nat.lt_succ_iff_lt_or_eq.mp hhigh with hk | rfl
        · exact hafter k hlow hk
        · exact hnode

theorem ascendScanData_eq (h : (List.range count).find? (hasDistance a) = some i) :
    ascendScanData fl a count = (.ok, Exchange.sort (fun node => node.angleQ6Checkbit.toNat) count
      (fill fl (fl.incOriginAngle count) (tuneHead fl (fl.incOriginAngle count) a i) count)) := by
  obtain ⟨hi, hnode, hnone⟩ := first_spec h
  have htuned : Tuned count a (tuneHead fl (fl.incOriginAngle count) a i) :=
    tuned_tuneHead _ hi.le hnone
  obtain ⟨hlast, hafter⟩ := last_spec (a := tuneHead fl (fl.incOriginAngle count) a i)
    ⟨i, hi, by rwa [htuned.distance]⟩
  rw [ascendScanData, h]
  simp only []
  rw [fill_tuneTail _ (by omega) hafter]

/-- **Ascending.**  If no node has a distance, it fails and leaves the buffer as it is.
Otherwise the nodes are in order of angle, and are the nodes there were, each once: the sync
bits, the qualities, the distances and the check bits, and also the angles of those with a
distance; a valid node is valid still. -/
theorem ascend_sorts (fl : FloatOps F) (nodebuffer : Nat → MeasurementNode) (count : Nat) :
    let r := ascendScanData fl nodebuffer count
    r = (.operationFail, nodebuffer) ∧ (∀ i, i < count → (nodebuffer i).distanceQ2 = 0) ∨
    r.1 = .ok ∧ (∃ i, i < count ∧ (nodebuffer i).distanceQ2 ≠ 0) ∧
      (∀ i j, i ≤ j → j < count → (r.2 i).angleQ6Checkbit ≤ (r.2 j).angleQ6Checkbit) ∧
      ∃ places : Equiv.Perm Nat, (∀ i, count ≤ i → places i = i ∧ r.2 i = nodebuffer i) ∧
        ∀ i, Retold (nodebuffer (places i)) (r.2 i) ∧
          ((nodebuffer (places i)).Valid → (r.2 i).Valid) := by
  intro r
  cases h : (List.range count).find? (hasDistance nodebuffer) with
  | none =>
      refine .inl ⟨by simp [r, ascendScanData, h], fun i hi => ?_⟩
      have hnode := List.find?_eq_none.mp h i (List.mem_range.mpr hi)
      simpa [hasDistance] using hnode
  | some first =>
      obtain ⟨hfirst, hnode, hnone⟩ := first_spec h
      have hr : r = _ := ascendScanData_eq h
      have htuned : Tuned count nodebuffer (fill fl (fl.incOriginAngle count)
          (tuneHead fl (fl.incOriginAngle count) nodebuffer first) count) :=
        (tuned_tuneHead _ hfirst.le hnone).trans (tuned_fill _ _ _)
      obtain ⟨⟨places, hfixed, hmoved⟩, hsorted⟩ := Exchange.sort_sorted
        (fun node : MeasurementNode => node.angleQ6Checkbit.toNat) count
        (fill fl (fl.incOriginAngle count)
          (tuneHead fl (fl.incOriginAngle count) nodebuffer first) count)
      rw [hr]
      have hretold : ∀ i, Retold (nodebuffer (places i)) (Exchange.sort
          (fun node : MeasurementNode => node.angleQ6Checkbit.toNat) count
          (fill fl (fl.incOriginAngle count)
            (tuneHead fl (fl.incOriginAngle count) nodebuffer first) count) i) := fun i => by
        rw [hmoved]
        exact htuned.retold (places i)
      refine .inr ⟨rfl, ⟨first, hfirst, hnode⟩, fun i j hij hj => ?_, places, fun i hi => ?_,
        fun i => ⟨hretold i, (hretold i).valid⟩⟩
      · exact UInt16.le_iff_toNat_le.mpr (hsorted i j hij hj)
      · have hplace := hfixed i (.inr hi)
        refine ⟨hplace, ?_⟩
        show Exchange.sort _ _ _ i = _
        rw [hmoved, hplace]
        exact htuned.beyond i hi

end

end Rplidar

end Alex
