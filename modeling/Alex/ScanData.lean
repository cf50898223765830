/-
# `Alex.ScanData` — scans from nodes as they come

`_waitScanData` receives up to `count` nodes into `nodebuffer`, and `_cacheScanData` passes
it 128 and its `local_buf`, whose first filling it throws away.  A pass that times out is
processed all the same, with whatever `local_buf` holds; if the time is up between two
nodes, `count` is from then on the number received.

As long as nothing fails, the nodes processed are those the device has sent, from the
129th on.
-/
import Alex.Scans

namespace Alex

namespace Rplidar

open Cells Segments
open scoped List

/-! ## `_waitScanData` -/

/-- `_waitScanData(nodebuffer, count, timeout)`, after `recvNodeCount` nodes: the result,
`nodebuffer`, `count` and the bytes that have not been taken.  Each call of `_waitNode` is
given by the waits it meets; the list ends when the time is up. -/
def waitScanData (calls : List (List Wait)) (nodebuffer : Nat → MeasurementNode)
    (count recvNodeCount : Nat) (stream : List UInt8) :
    UResult × (Nat → MeasurementNode) × Nat × List UInt8 :=
  match calls with
  | [] => (.operationTimeout, nodebuffer, recvNodeCount, stream)
  | waits :: calls =>
      if recvNodeCount < count then
        match waitNode waits stream with
        | (.error ans, rest) => (ans, nodebuffer, count, rest)
        | (.ok node, rest) =>
            let nodebuffer := Function.update nodebuffer recvNodeCount node
            if recvNodeCount + 1 = count then (.ok, nodebuffer, count, rest)
            else waitScanData calls nodebuffer count (recvNodeCount + 1) rest
      else (.operationTimeout, nodebuffer, recvNodeCount, stream)

/-- Nodes that calls of `_waitNode` have taken from a stream, one after another. -/
inductive Reads : List MeasurementNode → List UInt8 → List UInt8 → Prop
  | nil (stream : List UInt8) : Reads [] stream stream
  | cons {waits : List Wait} {stream mid rest : List UInt8} {node : MeasurementNode}
      {nodes : List MeasurementNode} : waitNode waits stream = (.ok node, mid) →
      Reads nodes mid rest → Reads (node :: nodes) stream rest

section
variable {nodes nodes' : List MeasurementNode} {stream mid rest : List UInt8}

theorem Reads.append (h : Reads nodes stream mid) (h' : Reads nodes' mid rest) :
    Reads (nodes ++ nodes') stream rest := by
  induction h with
  | nil stream => exact h'
  | cons hnode _ ih => exact .cons hnode (ih h')

theorem Reads.lie (h : Reads nodes stream rest) :
    (∀ node ∈ nodes, node.Valid) ∧ Lie nodes stream rest := by
  induction h with
  | nil stream => exact ⟨by simp, .nil [] stream⟩
  | cons hnode _ ih =>
      obtain ⟨hvalid, skipped, rfl⟩ := waitNode_sound hnode
      exact ⟨List.forall_mem_cons.mpr ⟨hvalid, ih.1⟩, .cons skipped _ ih.2⟩

theorem Reads.sent (h : Reads nodes stream rest) {sent : List MeasurementNode}
    (hsent : ∀ node ∈ sent, node.Valid) (hstream : stream = sent.flatMap MeasurementNode.bytes) :
    nodes <+: sent := by
  induction h generalizing sent with
  | nil stream => exact List.nil_prefix
  | @cons waits stream mid rest node nodes hnode _ ih =>
      cases sent with
      | nil =>
          obtain ⟨-, skipped, hskipped⟩ := waitNode_sound hnode
          rw [hstream] at hskipped
          have hlen := congrArg List.length hskipped
          simp [sizeofNode] at hlen
          omega
      | cons first sent =>
          obtain ⟨hfirst, hmore⟩ := List.forall_mem_cons.mp hsent
          rw [List.flatMap_cons] at hstream
          rw [hstream] at hnode
          obtain ⟨rfl, rfl⟩ := waitNode_of_node hfirst hnode
          exact List.cons_prefix_cons.mpr ⟨rfl, ih hmore rfl⟩

end

/-- What a pass leaves: the nodes it has received are in `nodebuffer` from `recvNodeCount`
on, and the rest of it is as it was. -/
theorem waitScanData_spec (calls : List (List Wait)) (nodebuffer : Nat → MeasurementNode)
    {count recvNodeCount : Nat} (hle : recvNodeCount ≤ count) (stream : List UInt8) :
    let r := waitScanData calls nodebuffer count recvNodeCount stream
    ∃ fresh mid, Reads fresh stream mid ∧ recvNodeCount + fresh.length ≤ count ∧
      slice r.2.1 recvNodeCount fresh.length = fresh ∧
      (∀ i, i < recvNodeCount ∨ recvNodeCount + fresh.length ≤ i → r.2.1 i = nodebuffer i) ∧
      r.2.2.1 ≤ count ∧
      (r.1 = .ok → recvNodeCount + fresh.length = count ∧ r.2.2.1 = count ∧ r.2.2.2 = mid) := by
  induction calls generalizing nodebuffer recvNodeCount stream with
  | nil => exact ⟨[], stream, .nil stream, hle, rfl, fun _ _ => rfl, hle, by simp [waitScanData]⟩
  | cons waits calls ih =>
      by_cases hlt : recvNodeCount < count
      · rcases hnode : waitNode waits stream with ⟨result, rest⟩
        cases result with
        | error ans =>
            have hr : waitScanData (waits :: calls) nodebuffer count recvNodeCount stream =
                (ans, nodebuffer, count, rest) := by
              simp [waitScanData, hlt, hnode]
            rw [hr]
            refine ⟨[], stream, .nil stream, hle, rfl, fun _ _ => rfl, le_rfl, fun hok => ?_⟩
            exact absurd hok (waitNode_error hnode).1
        | ok node =>
            let nodebuffer' := Function.update nodebuffer recvNodeCount node
            have hself : nodebuffer' recvNodeCount = node := Function.update_self ..
            by_cases hcount : recvNodeCount + 1 = count
            · have hr : waitScanData (waits :: calls) nodebuffer count recvNodeCount stream =
                  (.ok, nodebuffer', count, rest) := by
                simp [waitScanData, hlt, hnode, hcount, nodebuffer']
              rw [hr]
              refine ⟨[node], rest, .cons hnode (.nil rest), hcount.le, ?_, fun i hi => ?_,
                le_rfl, fun _ => ⟨hcount, rfl, rfl⟩⟩
              · simpa [slice_succ] using hself
              · exact Function.update_of_ne (by simp at hi; omega) ..
            · have hr : waitScanData (waits :: calls) nodebuffer count recvNodeCount stream =
                  waitScanData calls nodebuffer' count (recvNodeCount + 1) rest := by
                simp [waitScanData, hlt, hnode, hcount, nodebuffer']
              rw [hr]
              obtain ⟨fresh, mid, hreads, hfit, hslice, hkept, hbound, hok⟩ :=
                ih nodebuffer' (show recvNodeCount + 1 ≤ count by omega) rest
              refine ⟨node :: fresh, mid, .cons hnode hreads, by simp; omega, ?_,
                fun i hi => ?_, hbound, fun hans => ?_⟩
              · rw [List.length_cons, slice_succ, hslice, hkept _ (.inl (by omega)), hself]
              · rw [List.length_cons] at hi
                rw [hkept i (by omega)]
                exact Function.update_of_ne (by omega) ..
              · obtain ⟨hlen, hcount', hrest⟩ := hok hans
                exact ⟨by simp; omega, hcount', hrest⟩
      · have hr : waitScanData (waits :: calls) nodebuffer count recvNodeCount stream =
            (.operationTimeout, nodebuffer, recvNodeCount, stream) := by
          simp [waitScanData, hlt]
        rw [hr]
        exact ⟨[], stream, .nil stream, hle, rfl, fun _ _ => rfl, hle, by simp⟩

/-! ## `_cacheScanData` -/

/-- `_countof(local_buf)` -/
def localBufSize : Nat := 128

/-- What `_cacheScanData` waits with: what the device sends, `local_buf` and `count`. -/
structure ScanMemory where
  stream : List UInt8
  localBuf : Nat → MeasurementNode
  count : Nat

/-- The waits of `_cacheScanData()`. -/
def scanSource : Source ScanMemory (List (List Wait)) where
  discard m calls :=
    let (ans, localBuf, count, stream) := waitScanData calls m.localBuf m.count 0 m.stream
    (⟨stream, localBuf, count⟩, ans)
  wait m calls :=
    let (ans, localBuf, count, stream) := waitScanData calls m.localBuf m.count 0 m.stream
    (⟨stream, localBuf, count⟩, ans,
      if ans.isFail ∧ ans ≠ .operationTimeout then none else some (slice localBuf 0 count))

/-- A pass that times out is processed all the same: what it has received, and behind it what
`local_buf` held before. -/
theorem wait_timeout (m : ScanMemory) (calls : List (List Wait))
    (hans : (scanSource.wait m calls).2.1 = .operationTimeout) :
    ∃ fresh mid, Reads fresh m.stream mid ∧ (scanSource.wait m calls).2.2 =
      some ((fresh ++ slice m.localBuf fresh.length (m.count - fresh.length)).take
        (scanSource.wait m calls).1.count) := by
  obtain ⟨fresh, mid, hreads, hfit, hslice, hkept, hbound, -⟩ :=
    waitScanData_spec calls m.localBuf (Nat.zero_le m.count) m.stream
  rcases hwait : waitScanData calls m.localBuf m.count 0 m.stream with ⟨ans, buf, count, rest⟩
  simp only [scanSource, hwait] at hans hslice hkept hbound ⊢
  subst hans
  refine ⟨fresh, mid, hreads, ?_⟩
  have hstale : slice buf fresh.length (m.count - fresh.length) =
      slice m.localBuf fresh.length (m.count - fresh.length) :=
    slice_congr fun i hi _ => hkept i (.inr (by omega))
  have hall : slice buf 0 m.count =
      fresh ++ slice m.localBuf fresh.length (m.count - fresh.length) := by
    rw [← hstale, ← Nat.add_sub_of_le (show fresh.length ≤ m.count by omega), slice_add, hslice]
    simp
  rw [← hall, take_slice _ hbound]
  rfl

theorem waitScanData_ok {m : ScanMemory} {calls : List (List Wait)}
    (hok : (scanSource.wait m calls).2.1 = .ok) :
    ∃ nodes, (scanSource.wait m calls).2.2 = some nodes ∧ nodes.length = m.count ∧
      (scanSource.wait m calls).1.count = m.count ∧
      Reads nodes m.stream (scanSource.wait m calls).1.stream := by
  obtain ⟨fresh, mid, hreads, -, hslice, -, -, hall⟩ :=
    waitScanData_spec calls m.localBuf (Nat.zero_le m.count) m.stream
  rcases hwait : waitScanData calls m.localBuf m.count 0 m.stream with ⟨ans, buf, count, rest⟩
  simp only [scanSource, hwait] at hok hslice hall ⊢
  subst hok
  obtain ⟨hlen, rfl, rfl⟩ := hall rfl
  replace hlen : fresh.length = m.count := (Nat.zero_add _).symm.trans hlen
  rw [hlen] at hslice
  exact ⟨fresh, by simp [UResult.isFail, UResult.code, hslice], hlen, rfl, hreads⟩

/-- As long as nothing fails: what has been received follows 128 nodes thrown away in what the
device sends. -/
def Receiving (stream : List UInt8) (m : ScanMemory) (nodes : List MeasurementNode) : Prop :=
  m.count = localBufSize ∧
    ∃ first, first.length = localBufSize ∧ Reads (first ++ nodes) stream m.stream

/-- **Step.**  Nothing is invented, and nothing is received twice. -/
theorem scanSource_keeps (stream : List UInt8) (localBuf : Nat → MeasurementNode) :
    scanSource.Keeps (· = .ok) (Receiving stream) ⟨stream, localBuf, localBufSize⟩ where
  fails := by decide
  discards calls hok := by
    have hwait : (scanSource.wait ⟨stream, localBuf, localBufSize⟩ calls).2.1 = .ok := hok
    obtain ⟨first, -, hlen, hcount, hreads⟩ := waitScanData_ok hwait
    refine ⟨hcount, first, hlen, ?_⟩
    rw [List.append_nil]
    exact hreads
  waits m received calls nodes h hok hnodes := by
    obtain ⟨hbuf, first, hfirst, hreads⟩ := h
    obtain ⟨fresh, hfresh, -, hcount, hmore⟩ := waitScanData_ok hok
    obtain rfl := Option.some.inj (hfresh.symm.trans hnodes)
    refine ⟨hcount.trans hbuf, first, hfirst, ?_⟩
    rw [← List.append_assoc]
    exact hreads.append hmore

/-- **Scans, from the device.**  Let nothing fail.  Whatever comes, in whatever pieces, and
whichever thread moves when: 128 nodes are thrown away, and those processed are valid and lie
behind them in what comes, one behind the other.  If the device sends nodes, they are the next
it sends, and so what is published are the revolutions it sends from then on, and what callers
get are beginnings of these, in order and none twice, but for the first, which may be of the
scan left over from before. -/
theorem scans_from_device (stream : List UInt8) (localBuf : Nat → MeasurementNode)
    (left : Leftover) (actions : List (DriverAction (List (List Wait)))) :
    let start := Driver.initial (ScanMemory.mk stream localBuf localBufSize) left
    let history := (driver scanSource).trace start actions
    (∀ ans ∈ answers history, ans = .ok) →
    ∃ first rest, (first = [] ∧ received history = [] ∨ first.length = localBufSize) ∧
      (∀ node ∈ first ++ received history, node.Valid) ∧
      Lie (first ++ received history) stream rest ∧
      (∀ sent : List MeasurementNode, (∀ node ∈ sent, node.Valid) →
        stream = sent.flatMap MeasurementNode.bytes →
        processed history <+: sent.drop localBufSize) ∧
      ∃ before revolutions last, Cut MeasurementNode.sync (processed history) before
        revolutions last ∧ published history = revolutions.map (List.take (maxScanNodes - 1)) ∧
      ∃ picks, picks <+ available left history ∧
        List.Forall₂ (fun g scan => g.2 = scan.take g.1) (grabbed history) picks := by
  intro start history hok
  obtain ⟨hprocessed, hcut⟩ := (scanned scanSource (ScanMemory.mk stream localBuf localBufSize)
    left actions).cut
  obtain ⟨first, rest, hfirst, hreads⟩ : ∃ first rest,
      (first = [] ∧ received history = [] ∨ first.length = localBufSize) ∧
        Reads (first ++ received history) stream rest := by
    rcases sourced (scanSource_keeps stream localBuf) left actions hok with
      ⟨-, -, hnone⟩ | ⟨-, -, first, hlen, hreads⟩
    · refine ⟨[], stream, .inl ⟨rfl, hnone⟩, ?_⟩
      rw [List.nil_append, hnone]
      exact .nil stream
    · exact ⟨first, _, .inr hlen, hreads⟩
  obtain ⟨hvalid, hlie⟩ := hreads.lie
  refine ⟨first, rest, hfirst, hvalid, hlie, fun sent hsent hstream => ?_, hcut⟩
  rcases hfirst with ⟨-, hnone⟩ | hlen
  · rw [hnone] at hprocessed
    rw [List.prefix_nil.mp hprocessed]
    exact List.nil_prefix
  · obtain ⟨more, hmore⟩ := hreads.sent hsent hstream
    refine hprocessed.trans ⟨more, ?_⟩
    rw [← hmore, List.append_assoc, List.drop_left' hlen]

/-- 256 nodes without a distance, each the beginning of a revolution. -/
def emptyRevolutions : List UInt8 :=
  (List.replicate 256 (MeasurementNode.mk 1 1 0)).flatMap MeasurementNode.bytes

/-- A scan of one node that nobody has grabbed. -/
def oldScan : Leftover := ⟨[.mk 1 1 0], true, none⟩

/-- The old scan is grabbed.  Half of the nodes are thrown away, and the others received and
processed. -/
def emptyRevolutionsHistory : List DriverEvent :=
  (driver scanSource).trace
    (.initial (ScanMemory.mk emptyRevolutions (fun _ => .zero) localBufSize) oldScan)
    (List.replicate 2 (.grab 4 false) ++
      List.replicate 131 (.cache (List.replicate 128 [.ok 5])))

theorem scans_from_device_emptyRevolutions :
    (grabbed emptyRevolutionsHistory).length = 1 ∧
    ∃ first rest, (first = [] ∧ received emptyRevolutionsHistory = [] ∨
        first.length = localBufSize) ∧
      Lie (first ++ received emptyRevolutionsHistory) emptyRevolutions rest ∧
      ∃ picks, picks <+ available oldScan emptyRevolutionsHistory ∧
        List.Forall₂ (fun g scan => g.2 = scan.take g.1) (grabbed emptyRevolutionsHistory)
          picks := by
  obtain ⟨first, rest, hfirst, -, hlie, -, -, -, -, -, -, picks⟩ :=
    scans_from_device emptyRevolutions (fun _ => .zero) oldScan
      (List.replicate 2 (.grab 4 false) ++
        List.replicate 131 (.cache (List.replicate 128 [.ok 5]))) (by decide +kernel)
  exact ⟨by decide +kernel, first, rest, hfirst, hlie, picks⟩

end Rplidar

end Alex
