/-
# `Alex.ExpressScans` — scans from capsules

`_cacheCapsuledScanData` throws the first capsule away, keeps the last, and makes 32
measurements of it when the next one comes, if `_is_previous_capsuledataRdy` is up.  Capsules
that follow upon one another are a train, and what is received is, train by train, what
lies between the capsules of each:

    …… c ── c ── c ……… c …… c ── c ── c ── c …      ── 32 measurements, … bytes thrown away

Where the device sends nothing but intact capsules there is one train, and a revolution
begins wherever the start angle falls.

The driver does not set `_is_previous_capsuledataRdy` when it is made or when a scan begins,
so the first capsule may meet one from before the scan.  That the device marks the first
capsule of a scan is what keeps it from happening.
-/
import Alex.Express
import Alex.Scans

namespace Alex

namespace Rplidar

open Segments
open scoped List

/-! ## `_cacheCapsuledScanData` -/

/-- `_capsuleToNormal(capsule, nodebuffer, nodeCount)`: the nodes,
`_is_previous_capsuledataRdy` and `_cached_previous_capsuledata`. -/
def capsuleToNormal (ready : Bool) (previous capsule : Capsule) :
    List MeasurementNode × Bool × Capsule :=
  (if ready then nodesBetween previous capsule else [], true, capsule)

/-- What `_cacheCapsuledScanData` waits with: what the device sends,
`_is_previous_capsuledataRdy` and `_cached_previous_capsuledata`. -/
structure CapsuleMemory where
  stream : List UInt8
  ready : Bool
  previous : Capsule

/-- The waits of `_cacheCapsuledScanData()`; a capsule that is not used is no nodes. -/
def capsuleSource : Source CapsuleMemory (List Wait) where
  discard m waits :=
    match waitCapsuledNode m.ready waits m.stream with
    | (.error ans, ready, rest) => (⟨rest, ready, m.previous⟩, ans)
    | (.ok _, ready, rest) => (⟨rest, ready, m.previous⟩, .ok)
  wait m waits :=
    match waitCapsuledNode m.ready waits m.stream with
    | (.error ans, ready, rest) =>
        (⟨rest, ready, m.previous⟩, ans,
          if ans ≠ .operationTimeout ∧ ans ≠ .invalidData then none else some [])
    | (.ok capsule, ready, rest) =>
        let (nodes, ready, previous) := capsuleToNormal ready m.previous capsule
        (⟨rest, ready, previous⟩, .ok, some nodes)

/-- No wait has failed or timed out: a capsule, or one whose checksum is wrong. -/
def Came (ans : UResult) : Prop := ans = .ok ∨ ans = .invalidData

instance : DecidablePred Came := fun ans =>
  inferInstanceAs (Decidable (ans = .ok ∨ ans = .invalidData))

/-! ## Trains -/

/-- What lies between the capsules of a train. -/
def trainNodes : List Capsule → List MeasurementNode
  | [] => []
  | [_] => []
  | c :: d :: train => nodesBetween c d ++ trainNodes (d :: train)

/-- Intact capsules, none but the first of which is marked as a first one. -/
structure Train (train : List Capsule) : Prop where
  intact : ∀ c ∈ train, c.Intact
  later : ∀ c ∈ train.tail, c.first = false

/-- Trains, one behind the other, with anything between them. -/
inductive Trains : List (List Capsule) → List UInt8 → Prop
  | nil (gap : List UInt8) : Trains [] gap
  | concat {trains : List (List Capsule)} {before : List UInt8} (train : List Capsule)
      (gap : List UInt8) : Trains trains before → Train train →
      Trains (trains ++ [train]) (before ++ train.flatMap Capsule.bytes ++ gap)

section
variable {train : List Capsule} {c : Capsule}

theorem trainNodes_concat (hlast : train.getLast? = some c) (d : Capsule) :
    trainNodes (train ++ [d]) = trainNodes train ++ nodesBetween c d := by
  induction train using trainNodes.induct with
  | case1 => exact absurd hlast (by simp)
  | case2 e =>
      obtain rfl : e = c := by simpa using hlast
      simp [trainNodes]
  | case3 e f train ih =>
      rw [List.getLast?_cons_cons] at hlast
      have hmore := ih hlast
      simp only [List.cons_append] at hmore ⊢
      rw [trainNodes, trainNodes, hmore, List.append_assoc]

theorem train_nil : Train [] := ⟨by simp, by simp⟩

theorem train_singleton (hc : c.Intact) : Train [c] := ⟨by simpa using hc, by simp⟩

theorem Train.concat (h : Train train) (hc : c.Intact) (hfirst : c.first = false) :
    Train (train ++ [c]) := by
  refine ⟨fun d hd => ?_, fun d hd => ?_⟩
  · rcases List.mem_append.mp hd with hd | hd
    · exact h.intact d hd
    · rwa [List.mem_singleton.mp hd]
  · cases train with
    | nil => exact absurd hd (by simp)
    | cons e train =>
        rcases List.mem_append.mp hd with hd | hd
        · exact h.later d hd
        · rwa [List.mem_singleton.mp hd]

end

/-! ## Whatever comes -/

section
variable {stream : List UInt8}

/-- What has been made of the capsule that was there before the scan, where the flag was up. -/
def Stale (ready : Bool) (previous : Capsule) (nodes : List MeasurementNode) : Prop :=
  nodes = [] ∨ ready = true ∧ ∃ c : Capsule, c.Intact ∧ nodes = nodesBetween previous c

/-- As long as no wait fails: the trains that have come, the last of which may go on. -/
def Coupling (ready : Bool) (previous : Capsule) (stream : List UInt8) (m : CapsuleMemory)
    (nodes : List MeasurementNode) : Prop :=
  ∃ stale trains train before, Stale ready previous stale ∧ Trains trains before ∧ Train train ∧
    stream = before ++ train.flatMap Capsule.bytes ++ m.stream ∧
    nodes = stale ++ (trains ++ [train]).flatMap trainNodes ∧
    (m.ready = true → train.getLast? = some m.previous ∨
      ready = true ∧ m.previous = previous ∧ train = [] ∧ nodes = [])

/-- **Step.**  A capsule goes on with the train, or one begins behind it. -/
theorem coupling_keeps (stream : List UInt8) (ready : Bool) (previous : Capsule) :
    capsuleSource.Keeps Came (Coupling ready previous stream) ⟨stream, ready, previous⟩ where
  fails := by simp [Came]
  discards waits _ := by
    rcases hwait : waitCapsuledNode ready waits stream with ⟨ans | c, ready', rest⟩
    · obtain ⟨taken, htaken, hready, -⟩ := waitCapsuledNode_error hwait
      simp only [capsuleSource, hwait]
      exact ⟨[], [], [], taken, .inl rfl, .nil taken, train_nil, by simpa using htaken, rfl,
        fun hup => .inr ⟨(hready hup).1, rfl, rfl, rfl⟩⟩
    · obtain ⟨-, skipped, hskipped, hready⟩ := waitCapsuledNode_ok hwait
      simp only [capsuleSource, hwait]
      exact ⟨[], [], [], skipped ++ c.bytes, .inl rfl, .nil _, train_nil, by simpa using hskipped,
        rfl, fun hup => .inr ⟨(hready hup).1, rfl, rfl, rfl⟩⟩
  waits m received waits nodes h hcame hnodes := by
    obtain ⟨stale, trains, train, before, hstale, htrains, htrain, hstream, hreceived, hlast⟩ := h
    rcases hwait : waitCapsuledNode m.ready waits m.stream with ⟨ans | c, ready', rest⟩
    · simp only [capsuleSource, hwait] at hcame hnodes ⊢
      obtain ⟨taken, htaken, -, ⟨rfl, rfl, -⟩ | rfl | rfl⟩ := waitCapsuledNode_error hwait
      · obtain rfl : [] = nodes := by simpa using hnodes
        refine ⟨stale, trains ++ [train], [], _, hstale, .concat train taken htrains htrain,
          train_nil, ?_, by simp [hreceived, trainNodes], by simp⟩
        rw [hstream, htaken]
        simp
      · exact absurd hcame (by simp [Came])
      · exact absurd hcame (by simp [Came])
    · obtain ⟨hc, skipped, hskipped, hready⟩ := waitCapsuledNode_ok hwait
      simp only [capsuleSource, hwait, capsuleToNormal] at hnodes ⊢
      obtain rfl := Option.some.inj hnodes
      cases ready' with
      | true =>
          obtain ⟨hup, hfirst, rfl⟩ := hready rfl
          have hstream' : stream = before ++ (train ++ [c]).flatMap Capsule.bytes ++ rest := by
            rw [hstream, hskipped]
            simp
          rcases hlast hup with hlast | ⟨hinitial, hprevious, rfl, hnone⟩
          · refine ⟨stale, trains, train ++ [c], before, hstale, htrains,
              htrain.concat hc hfirst, hstream', ?_, by simp⟩
            simp [hreceived, trainNodes_concat hlast]
          · -- the first capsule after the one thrown away, with the one from before the scan
            rw [hnone] at hreceived
            obtain ⟨-, htrains'⟩ := List.append_eq_nil_iff.mp hreceived.symm
            have hempty : trains.flatMap trainNodes = [] := by
              simpa [trainNodes] using htrains'
            refine ⟨nodesBetween previous c, trains, [c], before, .inr ⟨hinitial, c, hc, rfl⟩,
              htrains, train_singleton hc, by simpa using hstream', ?_, by simp⟩
            rw [hnone, hprevious, List.flatMap_append, hempty]
            simp [trainNodes]
      | false =>
          refine ⟨stale, trains ++ [train], [c], _, hstale, .concat train skipped htrains htrain,
            train_singleton hc, ?_, by simp [hreceived, trainNodes], by simp⟩
          rw [hstream, hskipped]
          simp

end

/-! ## Where capsules are sent -/

/-- The number of times the start angle falls. -/
def falls : List Capsule → Nat
  | [] => 0
  | [_] => 0
  | c :: d :: train => (if d.startAngle < c.startAngle then 1 else 0) + falls (d :: train)

theorem countP_trainNodes {train : List Capsule} (h : ∀ c ∈ train, c.startAngle < 360) :
    (trainNodes train).countP MeasurementNode.sync = falls train := by
  induction train using trainNodes.induct with
  | case1 => rfl
  | case2 c => rfl
  | case3 c d train ih =>
      obtain ⟨hc, hmore⟩ := List.forall_mem_cons.mp h
      rw [trainNodes, falls, List.countP_append, countP_sync hc (hmore d List.mem_cons_self),
        ih hmore]

section
variable {sent : List Capsule}

theorem waitCapsuledNode_nil (ready : Bool) (waits : List Wait) :
    let r := waitCapsuledNode ready waits []
    r.1 = .error .operationTimeout ∨ r.1 = .error .operationFail := by
  intro r
  rcases hwait : r with ⟨ans | c, ready', rest⟩
  · obtain ⟨taken, htaken, -, ⟨-, -, hlen⟩ | rfl | rfl⟩ := waitCapsuledNode_error hwait
    · have hnil := congrArg List.length htaken
      simp only [List.length_nil, List.length_append, sizeofCapsule] at hnil hlen
      omega
    · exact .inl rfl
    · exact .inr rfl
  · obtain ⟨-, skipped, hskipped, -⟩ := waitCapsuledNode_ok hwait
    have hnil := congrArg List.length hskipped
    simp [sizeofCapsule] at hnil
    omega

theorem waitCapsuledNode_of_sent {left : List Capsule} (hleft : ∀ c ∈ left, c.Intact)
    (ready : Bool) (waits : List Wait) :
    let r := waitCapsuledNode ready waits (left.flatMap Capsule.bytes)
    (∃ c more, left = c :: more ∧
      r = (.ok c, ready && !c.first, more.flatMap Capsule.bytes)) ∨
      r.1 = .error .operationTimeout ∨ r.1 = .error .operationFail := by
  cases left with
  | nil => exact .inr (waitCapsuledNode_nil ready waits)
  | cons c more =>
      rw [List.flatMap_cons]
      rcases waitCapsuledNode_of_capsule (hleft c List.mem_cons_self) ready waits
        (more.flatMap Capsule.bytes) with h | h
      · exact .inl ⟨c, more, rfl, h⟩
      · exact .inr h

/-- What the device sends from the beginning of an express scan: intact capsules, of which
the first is marked and no other. -/
structure ExpressScan (sent : List Capsule) : Prop where
  intact : ∀ c ∈ sent, c.Intact
  first : ∀ c, sent.head? = some c → c.first = true
  later : ∀ c ∈ sent.tail, c.first = false

/-- As long as no wait fails: what has been received lies between capsules sent, and those
left come next. -/
def Following (sent : List Capsule) (m : CapsuleMemory) (nodes : List MeasurementNode) : Prop :=
  ∃ train left, sent.tail = train ++ left ∧ m.stream = left.flatMap Capsule.bytes ∧
    nodes = trainNodes train ∧
    (m.ready = false ∧ train = [] ∨ m.ready = true ∧ train.getLast? = some m.previous)

/-- **Step.**  The next capsule goes on with the train. -/
theorem following_keeps (hsent : ExpressScan sent) (ready : Bool) (previous : Capsule) :
    capsuleSource.Keeps Came (Following sent) ⟨sent.flatMap Capsule.bytes, ready, previous⟩ where
  fails := by simp [Came]
  discards waits hcame := by
    rcases waitCapsuledNode_of_sent hsent.intact ready waits with ⟨c, more, rfl, h⟩ | h
    · simp only [capsuleSource, h]
      exact ⟨[], more, rfl, rfl, rfl, .inl ⟨by simp [hsent.first c rfl], rfl⟩⟩
    · rcases hwait : waitCapsuledNode ready waits (sent.flatMap Capsule.bytes) with
        ⟨ans, ready', rest⟩
      rw [hwait] at h
      rcases h with rfl | rfl
      · simp [capsuleSource, hwait, Came] at hcame
      · simp [capsuleSource, hwait, Came] at hcame
  waits m received waits nodes h hcame hnodes := by
    obtain ⟨train, left, htail, hstream, rfl, hready⟩ := h
    have hleft : ∀ c ∈ left, c ∈ sent.tail := fun c hc => by
      rw [htail]
      exact List.mem_append_right train hc
    rcases waitCapsuledNode_of_sent
      (fun c hc => hsent.intact c (List.mem_of_mem_tail (hleft c hc))) m.ready waits with
      ⟨c, more, rfl, h⟩ | h
    · have hfirst := hsent.later c (hleft c List.mem_cons_self)
      simp only [capsuleSource, hstream, h, capsuleToNormal, hfirst, Bool.not_false,
        Bool.and_true] at hnodes ⊢
      obtain rfl := Option.some.inj hnodes
      refine ⟨train ++ [c], more, by simp [htail], rfl, ?_, .inr ⟨rfl, by simp⟩⟩
      rcases hready with ⟨hdown, rfl⟩ | ⟨hup, hlast⟩
      · simp [hdown, trainNodes]
      · simp [hup, trainNodes_concat hlast]
    · rcases hwait : waitCapsuledNode m.ready waits m.stream with ⟨ans, ready, rest⟩
      rw [← hstream, hwait] at h
      rcases h with rfl | rfl
      · simp [capsuleSource, hwait, Came] at hcame
      · simp [capsuleSource, hwait, Came] at hcame

end

theorem received_of_sent {sent : List Capsule} (hsent : ExpressScan sent) (ready : Bool)
    (previous : Capsule) (left : Leftover) (actions : List (DriverAction (List Wait)))
    (hcame : ∀ ans ∈ answers ((driver capsuleSource).trace
      (.initial ⟨sent.flatMap Capsule.bytes, ready, previous⟩ left) actions), Came ans) :
    ∃ train, train <+: sent.tail ∧ received ((driver capsuleSource).trace
      (.initial ⟨sent.flatMap Capsule.bytes, ready, previous⟩ left) actions) =
        trainNodes train := by
  rcases sourced (following_keeps hsent ready previous) left actions hcame with
    ⟨-, -, hnone⟩ | ⟨-, train, more, htail, -, hnodes, -⟩
  · exact ⟨[], List.nil_prefix, hnone⟩
  · exact ⟨train, ⟨more, htail.symm⟩, hnodes⟩

/-- **Express scans, from the device.**  Let no wait fail or time out.  Whatever comes, in
whatever pieces, and whichever thread moves when: the nodes received lie, in order, between
intact capsules that follow upon one another in what comes, but for 32 that may have been made
of the capsule from before the scan.  If the device sends an express scan there are none of
these, whatever was there before, and the nodes lie between the next capsules it sends, but
for the first.  What is published are revolutions of the nodes processed, and what callers get
are beginnings of these, in order and none twice, but for the first, which may be of the scan
left over from before. -/
theorem express_scans_from_device (stream : List UInt8) (ready : Bool) (previous : Capsule)
    (left : Leftover) (actions : List (DriverAction (List Wait))) :
    let start := Driver.initial (CapsuleMemory.mk stream ready previous) left
    let history := (driver capsuleSource).trace start actions
    (∀ ans ∈ answers history, Came ans) →
    (∃ stale trains taken rest, Stale ready previous stale ∧ stream = taken ++ rest ∧
      Trains trains taken ∧ received history = stale ++ trains.flatMap trainNodes) ∧
    (∀ sent, ExpressScan sent → stream = sent.flatMap Capsule.bytes →
      ∃ train, train <+: sent.tail ∧ received history = trainNodes train) ∧
    processed history <+: received history ∧
    ∃ before revolutions last, Cut MeasurementNode.sync (processed history) before revolutions
      last ∧ published history = revolutions.map (List.take (maxScanNodes - 1)) ∧
    ∃ picks, picks <+ available left history ∧
      List.Forall₂ (fun g scan => g.2 = scan.take g.1) (grabbed history) picks := by
  intro start history hcame
  refine ⟨?_, fun sent hsent hstream => ?_,
    (scanned capsuleSource (CapsuleMemory.mk stream ready previous) left actions).cut⟩
  · rcases sourced (coupling_keeps stream ready previous) left actions hcame with
      ⟨-, -, hnone⟩ | ⟨-, stale, trains, train, before, hstale, htrains, htrain, hwhole, hnodes, -⟩
    · exact ⟨[], [], [], stream, .inl rfl, rfl, .nil [], hnone⟩
    · refine ⟨stale, trains ++ [train], _, _, hstale, hwhole, ?_, hnodes⟩
      have hall := Trains.concat train [] htrains htrain
      rwa [List.append_nil] at hall
  · subst hstream
    exact received_of_sent hsent ready previous left actions hcame

def emptyScan : List Capsule :=
  [emptyCapsule 0x8000, emptyCapsule 6400, emptyCapsule 3200, emptyCapsule 1280]

theorem expressScan_emptyScan : ExpressScan emptyScan := by
  refine ⟨fun c hc => ?_, fun c hc => ?_, fun c hc => ?_⟩
  · simp only [emptyScan, List.mem_cons, List.not_mem_nil, or_false] at hc
    rcases hc with rfl | rfl | rfl | rfl <;>
      exact ⟨by decide +kernel, by decide +kernel, by decide +kernel⟩
  · obtain rfl : emptyCapsule 0x8000 = c := by simpa [emptyScan] using hc
    decide +kernel
  · simp only [emptyScan, List.tail_cons, List.mem_cons, List.not_mem_nil, or_false] at hc
    rcases hc with rfl | rfl | rfl <;> decide +kernel

/-- The scan is received whole, and all of it processed. -/
def emptyScanHistory : List DriverEvent :=
  (driver capsuleSource).trace
    (.initial ⟨emptyScan.flatMap Capsule.bytes, true, emptyCapsule 0⟩ ⟨[], false, none⟩)
    (List.replicate 71 (.cache [.ok 84]))

theorem express_scans_from_device_emptyScan :
    (∃ stale trains taken rest, Stale true (emptyCapsule 0) stale ∧
      emptyScan.flatMap Capsule.bytes = taken ++ rest ∧ Trains trains taken ∧
      received emptyScanHistory = stale ++ trains.flatMap trainNodes) ∧
    ∃ train, train <+: emptyScan.tail ∧ received emptyScanHistory = trainNodes train := by
  have h := express_scans_from_device (emptyScan.flatMap Capsule.bytes) true (emptyCapsule 0)
    ⟨[], false, none⟩ (List.replicate 71 (.cache [.ok 84])) (by decide +kernel)
  exact ⟨h.1, h.2.1 emptyScan expressScan_emptyScan rfl⟩

/-- **Revolutions.**  Let the device send an express scan whose start angles lie on the
circle, and let no wait fail or time out.  Whenever all that has been received is processed, a
scan has been published for each time the start angle has fallen but the first, and none if it
has not fallen. -/
theorem express_revolutions (sent : List Capsule) (hsent : ExpressScan sent)
    (hcircle : ∀ c ∈ sent, c.startAngle < 360) (ready : Bool) (previous : Capsule)
    (left : Leftover) (actions : List (DriverAction (List Wait))) :
    let start :=
      Driver.initial (CapsuleMemory.mk (sent.flatMap Capsule.bytes) ready previous) left
    let history := (driver capsuleSource).trace start actions
    (∀ ans ∈ answers history, Came ans) → processed history = received history →
    ∃ train, train <+: sent.tail ∧ received history = trainNodes train ∧
      (published history).length = falls train - 1 := by
  intro start history hcame hall
  obtain ⟨train, htrain, hnodes⟩ := received_of_sent hsent ready previous left actions hcame
  refine ⟨train, htrain, hnodes, ?_⟩
  obtain ⟨-, before, revolutions, last, hcut, hpublished, -⟩ :=
    (scanned capsuleSource (CapsuleMemory.mk (sent.flatMap Capsule.bytes) ready previous) left
      actions).cut
  have hon : ∀ c ∈ train, c.startAngle < 360 := fun c hc =>
    hcircle c (List.mem_of_mem_tail (htrain.subset hc))
  have hcount : (processed history).countP MeasurementNode.sync = _ := hcut.countP
  have hmarked : (processed history).countP MeasurementNode.sync = falls train := by
    rw [hall, hnodes]
    exact countP_trainNodes hon
  have hlen : (published history).length = revolutions.length := by
    rw [hpublished, List.length_map]
  rw [hmarked] at hcount
  rcases hcut.last_piece with ⟨rfl, rfl⟩ | hlast
  · rw [List.length_nil, if_pos rfl] at hcount
    rw [hlen, hcount]
    rfl
  · rw [if_neg hlast.ne_nil] at hcount
    rw [hlen, hcount]
    rfl

theorem express_revolutions_emptyScan :
    ∃ train, train <+: emptyScan.tail ∧ received emptyScanHistory = trainNodes train ∧
      (published emptyScanHistory).length = falls train - 1 := by
  have hcircle : ∀ c ∈ emptyScan, c.startAngle < 360 := by
    intro c hc
    rw [Capsule.startAngle_lt_circle_iff]
    simp only [emptyScan, List.mem_cons, List.not_mem_nil, or_false] at hc
    rcases hc with rfl | rfl | rfl | rfl <;> decide +kernel
  exact express_revolutions emptyScan expressScan_emptyScan hcircle true (emptyCapsule 0)
    ⟨[], false, none⟩ (List.replicate 71 (.cache [.ok 84])) (by decide +kernel) (by decide +kernel)

end Rplidar

end Alex
