/-
# `Alex.Lidar` — how the RPLIDAR driver finds a record in what comes

The laser scanner of the robot sends records of a fixed size, and the driver finds each
by what its first two bytes may be: `_waitNode` a measurement of 5 bytes,
`_waitResponseHeader` the 7 bytes before an answer.  Both are one loop, `waitRecord`:

    while there is time:
        waitfordata(remainSize)       how many bytes are there, or an error
        recvdata(min(recvSize, remainSize))
        for each byte: where it may not stand, start over behind it

The bytes the device sends, now and later, are one list; a wait that succeeds says how
many of them are there.  The time being up, a wait that fails and one that times out are
three ways of not going on.
-/
import Alex.Lib.Bytes
import Alex.Lib.Scanner

namespace Alex

namespace Rplidar

open Cells Bytes Scanner

/-! ## Results -/

/-- Those of the `RESULT_…` codes that the driver uses. -/
inductive UResult where
  | ok | alreadyDone | invalidData | operationFail | operationTimeout
  deriving DecidableEq, Repr

/-- `RESULT_OK` … `RESULT_OPERATION_TIMEOUT` -/
def UResult.code : UResult → UInt32
  | .ok => 0
  | .alreadyDone => 0x20
  | .invalidData => 0x80008000
  | .operationFail => 0x80008001
  | .operationTimeout => 0x80008002

/-- `IS_FAIL(x)` -/
def UResult.isFail (r : UResult) : Bool := r.code &&& 0x80000000 ≠ 0

/-- What `waitfordata` answers when there is not enough: `ANS_TIMEOUT`, `ANS_DEV_ERR`. -/
inductive WaitError where
  | timeout | devErr
  deriving DecidableEq, Repr

/-- A wait: the number of bytes that are there, or the error. -/
abbrev Wait := Except WaitError Nat

/-! ## Records -/

/-- What comes of it when a record has not been completed; `none` is the time being up. -/
def stopped : Option WaitError → UResult
  | some .devErr => .operationFail
  | some .timeout | none => .operationTimeout

theorem isFail_stopped (e : Option WaitError) : (stopped e).isFail = true := by
  rcases e with - | e
  · rfl
  · cases e <;> rfl

theorem stopped_ne_ok (e : Option WaitError) : stopped e ≠ .ok := by
  intro h
  have hfail := isFail_stopped e
  rw [h] at hfail
  exact absurd hfail (by decide)

/-- The loop of `_waitNode`, `_waitResponseHeader` and `_waitCapsuledNode`: the record, and
the bytes that have not been taken. -/
def waitRecord (S : Scanner UInt8) (waits : List Wait) (stream : List UInt8) :
    Except UResult (List UInt8) × List UInt8 :=
  match S.read [] stream waits with
  | .record r rest => (.ok r, rest)
  | .stopped e _ rest => (.error (stopped e), rest)

section
variable {S : Scanner UInt8} {waits : List Wait} {stream r rest : List UInt8}

theorem waitRecord_sound (h : waitRecord S waits stream = (.ok r, rest)) :
    S.IsRecord r ∧ ∃ skipped, stream = skipped ++ r ++ rest := by
  rw [waitRecord] at h
  cases hread : S.read [] stream waits with
  | stopped e held rest' => simp [hread] at h
  | record r' rest' =>
      obtain ⟨rfl, rfl⟩ : r' = r ∧ rest' = rest := by simpa [hread] using h
      exact scan_sound fits_nil (read_record hread)

theorem waitRecord_error {e : UResult} (h : waitRecord S waits stream = (.error e, rest)) :
    e ≠ .ok ∧ ∃ skipped, stream = skipped ++ rest := by
  rw [waitRecord] at h
  cases hread : S.read [] stream waits with
  | record r' rest' => simp [hread] at h
  | stopped e' held rest' =>
      obtain ⟨rfl, rfl⟩ : stopped e' = e ∧ rest' = rest := by simpa [hread] using h
      obtain ⟨taken, htaken, -⟩ := read_stopped hread
      exact ⟨stopped_ne_ok e', taken, htaken⟩

theorem isFail_waitRecord {e : UResult} (h : waitRecord S waits stream = (.error e, rest)) :
    e.isFail = true := by
  rw [waitRecord] at h
  cases hread : S.read [] stream waits with
  | record r' rest' => simp [hread] at h
  | stopped e' held rest' =>
      obtain ⟨rfl, rfl⟩ : stopped e' = e ∧ rest' = rest := by simpa [hread] using h
      exact isFail_stopped e'

theorem waitRecord_of_record {first after : List UInt8} (hfirst : S.IsRecord first)
    (hne : first ≠ []) (h : waitRecord S waits (first ++ after) = (.ok r, rest)) :
    r = first ∧ rest = after := by
  rw [waitRecord] at h
  cases hread : S.read [] (first ++ after) waits with
  | stopped e held rest' => simp [hread] at h
  | record r' rest' =>
      obtain ⟨rfl, rfl⟩ : r' = r ∧ rest' = rest := by simpa [hread] using h
      have hscan : S.scan [] (first ++ after) = .inr (first, after) := scan_record hfirst hne after
      exact Prod.mk.inj (Sum.inr.inj ((read_record hread).symm.trans hscan))

/-- As long as something comes at every wait, a record that is next is found, behind bytes
that cannot begin one. -/
theorem waitRecord_next (hr : S.IsRecord r) (hpos : 0 < S.size) {junk : List UInt8}
    (hjunk : ∀ b ∈ junk, S.accepts 0 b = false) (hwaits : ∀ w ∈ waits, ∃ n, w = .ok n ∧ 0 < n)
    (hlen : (junk ++ r ++ rest).length ≤ waits.length) :
    waitRecord S waits (junk ++ r ++ rest) = (.ok r, rest) := by
  have hne : r ≠ [] := by
    rintro rfl
    exact absurd hr.length_eq.symm (Nat.pos_iff_ne_zero.mp hpos)
  have hscan : S.scan [] (junk ++ r ++ rest) = .inr (r, rest) := by
    rw [List.append_assoc, scan_junk (Nat.pos_iff_ne_zero.mp hpos) hjunk]
    exact scan_record hr hne rest
  have hstart : ([] : List UInt8).length < S.size := hpos
  rw [waitRecord, read_of_scan hstart fits_nil hwaits hlen hscan]

end

/-- `_waitNode` and `_waitResponseHeader`: the record is received into what `ofMemory` reads. -/
def waitInto {α : Type} (S : Scanner UInt8) (ofMemory : (Nat → UInt8) → α) (waits : List Wait)
    (stream : List UInt8) : Except UResult α × List UInt8 :=
  let (result, rest) := waitRecord S waits stream
  (result.map fun r => ofMemory fun i => r.getD i 0, rest)

section
variable {α : Type} {S : Scanner UInt8} {ofMemory : (Nat → UInt8) → α} {waits : List Wait}
  {stream rest : List UInt8} {a : α}

theorem waitInto_ok (h : waitInto S ofMemory waits stream = (.ok a, rest)) :
    ∃ r, waitRecord S waits stream = (.ok r, rest) ∧ a = ofMemory fun i => r.getD i 0 := by
  rcases hwait : waitRecord S waits stream with ⟨result, rest'⟩
  cases result with
  | error e => simp [waitInto, hwait, Except.map] at h
  | ok r =>
      obtain ⟨rfl, rfl⟩ : _ = a ∧ rest' = rest := by simpa [waitInto, hwait, Except.map] using h
      exact ⟨r, rfl, rfl⟩

theorem waitInto_error {e : UResult} (h : waitInto S ofMemory waits stream = (.error e, rest)) :
    waitRecord S waits stream = (.error e, rest) := by
  rcases hwait : waitRecord S waits stream with ⟨result, rest'⟩
  cases result with
  | ok r => simp [waitInto, hwait, Except.map] at h
  | error e' =>
      obtain ⟨rfl, rfl⟩ : e' = e ∧ rest' = rest := by simpa [waitInto, hwait, Except.map] using h
      rfl

theorem waitInto_of_ok {r : List UInt8} (h : waitRecord S waits stream = (.ok r, rest)) :
    waitInto S ofMemory waits stream = (.ok (ofMemory fun i => r.getD i 0), rest) := by
  simp [waitInto, h, Except.map]

end

/-! ## Measurements -/

/-- `rplidar_response_measurement_node_t` -/
structure MeasurementNode where
  syncQuality : UInt8
  angleQ6Checkbit : UInt16
  distanceQ2 : UInt16
  deriving DecidableEq, Repr

/-- `sizeof(rplidar_response_measurement_node_t)` -/
def sizeofNode : Nat := 5

namespace MeasurementNode

def bytes (n : MeasurementNode) : List UInt8 :=
  n.syncQuality :: (ofHalf n.angleQ6Checkbit ++ ofHalf n.distanceQ2)

def ofMemory (f : Nat → UInt8) : MeasurementNode := ⟨f 0, half f 1, half f 3⟩

/-- The sync bit: a revolution begins here. -/
def sync (n : MeasurementNode) : Bool := n.syncQuality &&& 1 ≠ 0

/-- `angle_q6_checkbit >> RPLIDAR_RESP_MEASUREMENT_ANGLE_SHIFT` -/
def angleQ6 (n : MeasurementNode) : Nat := (n.angleQ6Checkbit >>> 1).toNat

/-- The next bit is the sync bit reversed, and the check bit is set. -/
structure Valid (n : MeasurementNode) : Prop where
  reversed : (n.syncQuality >>> 1 ^^^ n.syncQuality) &&& 1 ≠ 0
  check : n.angleQ6Checkbit &&& 1 ≠ 0

def zero : MeasurementNode := ⟨0, 0, 0⟩

@[simp] theorem length_bytes (n : MeasurementNode) : n.bytes.length = sizeofNode := rfl

theorem ofMemory_eq_iff {f : Nat → UInt8} {n : MeasurementNode} :
    ofMemory f = n ↔ slice f 0 sizeofNode = n.bytes := by
  obtain ⟨q, a, d⟩ := n
  have hslice : slice f 0 sizeofNode = f 0 :: (slice f 1 2 ++ slice f 3 2) := rfl
  have hlen : (slice f 1 2).length = (ofHalf a).length := by
    rw [length_slice]
    rfl
  have happend : slice f 1 2 ++ slice f 3 2 = ofHalf a ++ ofHalf d ↔
      slice f 1 2 = ofHalf a ∧ slice f 3 2 = ofHalf d :=
    ⟨fun h => List.append_inj h hlen, fun h => by rw [h.1, h.2]⟩
  rw [hslice, bytes, List.cons.injEq, happend]
  simp [ofMemory, half_eq_iff]

theorem ofMemory_bytes (n : MeasurementNode) : ofMemory (fun i => n.bytes.getD i 0) = n :=
  ofMemory_eq_iff.mpr rfl

theorem bytes_ofMemory {r : List UInt8} (hr : r.length = sizeofNode) :
    (ofMemory fun i => r.getD i 0).bytes = r := by
  have h := (ofMemory_eq_iff (f := fun i => r.getD i 0)).mp rfl
  rw [← h, ← hr, slice_eq_iff]
  intro i hi
  simp [hi]

end MeasurementNode

/-- What `_waitNode` lets pass: a sync bit and its reverse, then a check bit. -/
def nodeScanner : Scanner UInt8 where
  size := sizeofNode
  accepts i b :=
    match i with
    | 0 => (b >>> 1 ^^^ b) &&& 1 ≠ 0
    | 1 => b &&& 1 ≠ 0
    | _ => true

theorem isRecord_bytes_iff (n : MeasurementNode) : nodeScanner.IsRecord n.bytes ↔ n.Valid := by
  have hcheck : UInt8.ofNat n.angleQ6Checkbit.toNat &&& 1 ≠ 0 ↔ n.angleQ6Checkbit &&& 1 ≠ 0 := by
    rw [ne_eq, ne_eq, ← UInt8.toNat_inj, ← UInt16.toNat_inj]
    simp
  constructor
  · rintro ⟨-, h⟩
    have h₀ := h 0 (by simp [sizeofNode])
    have h₁ := h 1 (by simp [sizeofNode])
    exact ⟨by simpa [nodeScanner, MeasurementNode.bytes] using h₀, hcheck.mp
      (by simpa [nodeScanner, MeasurementNode.bytes, ofHalf] using h₁)⟩
  · rintro ⟨hreversed, hc⟩
    refine ⟨rfl, fun i hi => ?_⟩
    rcases i with - | - | i
    · simpa [nodeScanner, MeasurementNode.bytes] using hreversed
    · simpa [nodeScanner, MeasurementNode.bytes, ofHalf] using hcheck.mpr hc
    · rfl

/-- `_waitNode(node, timeout)`: the node, and the bytes that have not been taken. -/
def waitNode (waits : List Wait) (stream : List UInt8) :
    Except UResult MeasurementNode × List UInt8 :=
  waitInto nodeScanner .ofMemory waits stream

section
variable {waits : List Wait} {stream rest : List UInt8} {node : MeasurementNode}

/-- A node that `_waitNode` returns is valid, and lies in what has come. -/
theorem waitNode_sound (h : waitNode waits stream = (.ok node, rest)) :
    node.Valid ∧ ∃ skipped, stream = skipped ++ node.bytes ++ rest := by
  obtain ⟨r, hwait, rfl⟩ := waitInto_ok h
  obtain ⟨hr, hskipped⟩ := waitRecord_sound hwait
  have hbytes := MeasurementNode.bytes_ofMemory hr.length_eq
  rw [← hbytes] at hr hskipped
  exact ⟨(isRecord_bytes_iff _).mp hr, hskipped⟩

theorem waitNode_error {e : UResult} (h : waitNode waits stream = (.error e, rest)) :
    e ≠ .ok ∧ ∃ skipped, stream = skipped ++ rest :=
  waitRecord_error (waitInto_error h)

/-- As long as something comes at every wait, a valid node that is next is returned. -/
theorem waitNode_next (hnode : node.Valid) (hwaits : ∀ w ∈ waits, ∃ n, w = .ok n ∧ 0 < n)
    (hlen : (node.bytes ++ rest).length ≤ waits.length) :
    waitNode waits (node.bytes ++ rest) = (.ok node, rest) := by
  have hnext : waitRecord nodeScanner waits ([] ++ node.bytes ++ rest) = (.ok node.bytes, rest) :=
    waitRecord_next ((isRecord_bytes_iff node).mpr hnode) (by decide)
      (fun _ hb => absurd hb List.not_mem_nil) hwaits hlen
  rw [List.nil_append] at hnext
  rw [waitNode, waitInto_of_ok hnext, node.ofMemory_bytes]

theorem waitNode_of_node {first : MeasurementNode} {after : List UInt8} (hfirst : first.Valid)
    (h : waitNode waits (first.bytes ++ after) = (.ok node, rest)) :
    node = first ∧ rest = after := by
  obtain ⟨r, hwait, rfl⟩ := waitInto_ok h
  obtain ⟨rfl, rfl⟩ := waitRecord_of_record ((isRecord_bytes_iff first).mpr hfirst)
    (List.cons_ne_nil _ _) hwait
  exact ⟨first.ofMemory_bytes, rfl⟩

end

/-! ## One call after another -/

/-- What calls of `_waitNode` return, each with the waits it meets. -/
def waitNodes (calls : List (List Wait)) (stream : List UInt8) :
    List (Except UResult MeasurementNode) × List UInt8 :=
  match calls with
  | [] => ([], stream)
  | waits :: calls =>
      let (result, rest) := waitNode waits stream
      let (results, rest) := waitNodes calls rest
      (result :: results, rest)

/-- The nodes lie in what has been taken of a stream, one behind the other. -/
inductive Lie : List MeasurementNode → List UInt8 → List UInt8 → Prop
  | nil (skipped rest : List UInt8) : Lie [] (skipped ++ rest) rest
  | cons (skipped : List UInt8) (node : MeasurementNode) {nodes : List MeasurementNode}
      {stream rest : List UInt8} : Lie nodes stream rest →
      Lie (node :: nodes) (skipped ++ node.bytes ++ stream) rest

theorem Lie.behind {nodes : List MeasurementNode} {stream rest : List UInt8}
    (h : Lie nodes stream rest) (skipped : List UInt8) : Lie nodes (skipped ++ stream) rest := by
  cases h with
  | nil gap rest =>
      rw [← List.append_assoc]
      exact .nil _ rest
  | cons gap node hlie =>
      rw [← List.append_assoc, ← List.append_assoc]
      exact .cons _ node hlie

/-- **Nodes.**  Whatever comes and in whatever pieces, whatever fails: the nodes returned are
valid and lie in what has been taken, one behind the other.  And if what comes is nodes, and
something comes at every wait, these are returned, each once, and nothing behind them is
taken. -/
theorem nodes_read (calls : List (List Wait)) (stream : List UInt8) :
    let nodes := (waitNodes calls stream).1.filterMap Except.toOption
    (∀ node ∈ nodes, node.Valid) ∧ Lie nodes stream (waitNodes calls stream).2 ∧
    ∀ (sent : List MeasurementNode) (rest : List UInt8), (∀ node ∈ sent, node.Valid) →
      stream = sent.flatMap MeasurementNode.bytes ++ rest → calls.length = sent.length →
      (∀ waits ∈ calls, stream.length ≤ waits.length ∧ ∀ w ∈ waits, ∃ n, w = .ok n ∧ 0 < n) →
      waitNodes calls stream = (sent.map .ok, rest) := by
  induction calls generalizing stream with
  | nil =>
      refine ⟨by simp [waitNodes], .nil [] stream, fun sent rest _ hstream hlen _ => ?_⟩
      obtain rfl : sent = [] := List.eq_nil_of_length_eq_zero hlen.symm
      rw [hstream]
      rfl
  | cons waits calls ih =>
      rcases hwait : waitNode waits stream with ⟨result, after⟩
      obtain ⟨hvalid, hlie, hall⟩ := ih after
      have hnodes : waitNodes (waits :: calls) stream =
          (result :: (waitNodes calls after).1, (waitNodes calls after).2) := by
        simp [waitNodes, hwait]
      rw [hnodes]
      intro nodes
      refine ⟨?_, ?_, fun sent rest hsent hstream hlen hwaits => ?_⟩
      · cases result with
        | error e => exact hvalid
        | ok node => exact List.forall_mem_cons.mpr ⟨(waitNode_sound hwait).1, hvalid⟩
      · cases result with
        | error e =>
            obtain ⟨-, skipped, rfl⟩ := waitNode_error hwait
            exact hlie.behind skipped
        | ok node =>
            obtain ⟨-, skipped, rfl⟩ := waitNode_sound hwait
            exact .cons skipped node hlie
      · cases sent with
        | nil => exact absurd hlen (by simp)
        | cons node sent =>
            obtain ⟨hnode, hmore⟩ := List.forall_mem_cons.mp hsent
            obtain ⟨⟨hlong, hcome⟩, hlater⟩ := List.forall_mem_cons.mp hwaits
            rw [List.flatMap_cons, List.append_assoc] at hstream
            rw [hstream] at hwait hlong
            obtain ⟨rfl, rfl⟩ := Prod.mk.inj
              ((waitNode_next hnode hcome hlong).symm.trans hwait)
            have hrest := hall sent rest hmore rfl (by simpa using hlen) fun ws hws => by
              obtain ⟨hle, hgood⟩ := hlater ws hws
              refine ⟨?_, hgood⟩
              rw [hstream, List.length_append] at hle
              omega
            rw [hrest]
            rfl

end Rplidar

end Alex
