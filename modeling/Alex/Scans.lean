/-
# `Alex.Scans` — revolutions, from the nodes received to the caller of `grabScanData`

The thread that `startScan` creates receives nodes and collects those of a revolution,
which begins where the sync bit is set.  When the next one begins it publishes the
nodes, under a lock, and sets an event; `grabScanData` waits for the event and takes
them.  The two threads share the published nodes and the event, and both outlive a scan:
`startScan` resets neither, so the first grab may hand out a scan from before.

    thread      discard   while(_isScanning) wait   for: process a node, publish
    grabber     wait(_dataEvt)   lock, copy, count = 0

What the thread waits for is its `Source`: nodes as they come (`_cacheScanData`, in this
module), or capsules of them (`_cacheCapsuledScanData`, in `Alex.ExpressScans`).  From there
on the two are the same code.  An action is one step of one thread.
-/
import Alex.Lib.Mealy
import Alex.Lib.Segments
import Alex.Lidar
import Mathlib.Data.List.Forall2

namespace Alex

namespace Rplidar

open Cells Segments
open scoped List

def maxScanNodes : Nat := 2048

/-! ## The driver -/

/-- What the thread waits with: the wait whose data is discarded, and the ones after it,
with the nodes to process, or `none` if the thread gives up. -/
structure Source (ρ ι : Type) where
  discard : ρ → ι → ρ × UResult
  wait : ρ → ι → ρ × UResult × Option (List MeasurementNode)

/-- Where the thread is. -/
inductive CachePc where
  | discard
  | loop
  | process (nodes : List MeasurementNode)
  | done

/-- The driver while it scans.  `cached` is the first `_cached_scan_node_count` nodes of
`_cached_scan_node_buf`; `grabber` the `count` of a grabber that has seen the event. -/
structure Driver (ρ : Type) where
  source : ρ
  pc : CachePc
  localScan : Nat → MeasurementNode
  scanCount : Nat
  isScanning : Bool
  cached : List MeasurementNode
  dataEvt : Bool
  grabber : Option Nat

/-- What is left over from before a scan: the scan cached, the event, and a grabber. -/
structure Leftover where
  cached : List MeasurementNode
  dataEvt : Bool
  grabber : Option Nat

/-- After `startScan`, which resets none of what is left over. -/
def Driver.initial {ρ : Type} (source : ρ) (left : Leftover) : Driver ρ where
  source := source
  pc := .discard
  localScan _ := .zero
  scanCount := 0
  isScanning := true
  cached := left.cached
  dataEvt := left.dataEvt
  grabber := left.grabber

inductive DriverEvent where
  | discarded (ans : UResult)
  | received (ans : UResult) (nodes : List MeasurementNode)
  | processed (node : MeasurementNode)
  | published (nodes : List MeasurementNode)
  | ended (ans : UResult)
  | grabbed (count : Nat) (nodes : List MeasurementNode)
  | notGrabbed (ans : UResult)

/-- A step of the thread; a grab of at most `count` nodes, which, if the event is not set,
times out or fails; `stop`. -/
inductive DriverAction (ι : Type) where
  | cache (input : ι)
  | grab (count : Nat) (failed : Bool)
  | stop

namespace Driver

variable {ρ ι : Type}

/-- A node of the `for` loop. -/
def process (s : Driver ρ) (node : MeasurementNode) : Driver ρ × List DriverEvent :=
  let (s, events) :=
    if node.sync then
      let (s, events) :=
        -- only publish the data when it contains a full 360 degree scan
        if (s.localScan 0).sync then
          let scan := slice s.localScan 0 s.scanCount
          ({ s with cached := scan, dataEvt := true }, [.published scan])
        else (s, [])
      ({ s with scanCount := 0 }, events)
    else (s, [])
  let scanCount := s.scanCount + 1
  ({ s with
      localScan := Function.update s.localScan s.scanCount node
      scanCount := if scanCount = maxScanNodes then scanCount - 1 else scanCount },
    events ++ [.processed node])

/-- `_cacheScanData()` or `_cacheCapsuledScanData()`, the next step. -/
def cache (src : Source ρ ι) (s : Driver ρ) (input : ι) : Driver ρ × List DriverEvent :=
  match s.pc with
  | .discard =>
      let (source, ans) := src.discard s.source input
      ({ s with source, pc := .loop }, [.discarded ans])
  | .loop =>
      if s.isScanning then
        match src.wait s.source input with
        | (source, ans, some nodes) =>
            ({ s with source, pc := .process nodes }, [.received ans nodes])
        | (source, _, none) =>
            ({ s with source, isScanning := false, pc := .done }, [.ended .operationFail])
      else ({ s with pc := .done }, [.ended .ok])
  | .process [] => ({ s with pc := .loop }, [])
  | .process (node :: nodes) =>
      let (s, events) := s.process node
      ({ s with pc := .process nodes }, events)
  | .done => (s, [])

/-- `grabScanData(nodebuffer, count, timeout)`, the next step. -/
def grab (s : Driver ρ) (count : Nat) (failed : Bool) : Driver ρ × List DriverEvent :=
  match s.grabber with
  | none =>
      if s.dataEvt then ({ s with dataEvt := false, grabber := some count }, [])
      else (s, [.notGrabbed (if failed then .operationFail else .operationTimeout)])
  | some count =>
      if s.cached.length = 0 then ({ s with grabber := none }, [.notGrabbed .operationTimeout])
      else
        ({ s with cached := [], grabber := none },
          [.grabbed count (s.cached.take (min count s.cached.length))])

end Driver

def driver {ρ ι : Type} (src : Source ρ ι) :
    Mealy (Driver ρ) (DriverAction ι) (List DriverEvent) where
  step s action :=
    match action with
    | .cache input => s.cache src input
    | .grab count failed => s.grab count failed
    | .stop => ({ s with isScanning := false }, [])

/-! ## Histories -/

def received (history : List DriverEvent) : List MeasurementNode :=
  (history.filterMap fun
    | .received _ nodes => some nodes
    | .discarded _ | .processed _ | .published _ | .ended _ | .grabbed _ _ | .notGrabbed _ =>
        none).flatten

def processed (history : List DriverEvent) : List MeasurementNode :=
  history.filterMap fun
    | .processed node => some node
    | .discarded _ | .received _ _ | .published _ | .ended _ | .grabbed _ _ | .notGrabbed _ =>
        none

def published (history : List DriverEvent) : List (List MeasurementNode) :=
  history.filterMap fun
    | .published nodes => some nodes
    | .discarded _ | .received _ _ | .processed _ | .ended _ | .grabbed _ _ | .notGrabbed _ =>
        none

/-- What there has been to hand out: a scan left over from before, then those published. -/
def available (left : Leftover) (history : List DriverEvent) : List (List MeasurementNode) :=
  (if left.cached = [] then [] else [left.cached]) ++ published history

def grabbed (history : List DriverEvent) : List (Nat × List MeasurementNode) :=
  history.filterMap fun
    | .grabbed count nodes => some (count, nodes)
    | .discarded _ | .received _ _ | .processed _ | .published _ | .ended _ | .notGrabbed _ =>
        none

/-- What the waits of the thread have answered. -/
def answers (history : List DriverEvent) : List UResult :=
  history.filterMap fun
    | .discarded ans | .received ans _ | .ended ans => some ans
    | .processed _ | .published _ | .grabbed _ _ | .notGrabbed _ => none

section
variable (history events : List DriverEvent)

@[simp] theorem received_append :
    received (history ++ events) = received history ++ received events := by
  simp [received]

@[simp] theorem processed_append :
    processed (history ++ events) = processed history ++ processed events := by
  simp [processed]

@[simp] theorem published_append :
    published (history ++ events) = published history ++ published events := by
  simp [published]

theorem available_append (left : Leftover) :
    available left (history ++ events) = available left history ++ published events := by
  simp [available]

@[simp] theorem grabbed_append :
    grabbed (history ++ events) = grabbed history ++ grabbed events := by
  simp [grabbed]

@[simp] theorem answers_append :
    answers (history ++ events) = answers history ++ answers events := by
  simp [answers]

end

/-! ## Collecting a revolution -/

theorem slice_fill {α : Type*} {buf : Nat → α} {xs : List α} {n : Nat}
    (h : slice buf 0 (min xs.length n) = xs.take n) (a : α) :
    slice (Function.update buf (min xs.length n) a) 0 (min (xs.length + 1) n) =
      (xs ++ [a]).take n := by
  have hkeep : slice (Function.update buf (min xs.length n) a) 0 (min xs.length n) =
      xs.take n := by
    rw [← h]
    exact slice_congr fun j _ hj => Function.update_of_ne (by omega) ..
  rcases Nat.lt_or_ge xs.length n with hlt | hge
  · rw [Nat.min_eq_left hlt.le] at hkeep ⊢
    rw [Nat.min_eq_left (show xs.length + 1 ≤ n from hlt), slice_add, hkeep,
      List.take_of_length_le hlt.le, List.take_of_length_le (by simp; omega)]
    simp [slice_succ]
  · rw [Nat.min_eq_right hge] at hkeep ⊢
    rw [Nat.min_eq_right (by omega), hkeep, List.take_append_of_le_length hge]

section
variable {ρ ι : Type} {s : Driver ρ} {left : Leftover} {history : List DriverEvent}
  {before last : List MeasurementNode} {revolutions : List (List MeasurementNode)}

/-- What the thread keeps: the nodes of the current revolution, as far as there is room. -/
structure Keeps (s : Driver ρ) (nodes : List MeasurementNode) : Prop where
  count : s.scanCount = min nodes.length (maxScanNodes - 1)
  scan : slice s.localScan 0 s.scanCount = nodes.take (maxScanNodes - 1)

theorem Keeps.store {nodes : List MeasurementNode} (h : Keeps s nodes) (node : MeasurementNode) :
    Keeps { s with
      localScan := Function.update s.localScan s.scanCount node
      scanCount := if s.scanCount + 1 = maxScanNodes then s.scanCount + 1 - 1
        else s.scanCount + 1 } (nodes ++ [node]) := by
  have hmax : 0 < maxScanNodes := by decide
  have hcount : (if s.scanCount + 1 = maxScanNodes then s.scanCount + 1 - 1
      else s.scanCount + 1) = min (nodes.length + 1) (maxScanNodes - 1) := by
    rw [h.count]
    split <;> omega
  refine ⟨?_, ?_⟩
  · show (if s.scanCount + 1 = maxScanNodes then s.scanCount + 1 - 1 else s.scanCount + 1) = _
    rw [hcount, List.length_append]
    rfl
  · show slice (Function.update s.localScan s.scanCount node) 0 (if s.scanCount + 1 = maxScanNodes
      then s.scanCount + 1 - 1 else s.scanCount + 1) = _
    have hscan := h.scan
    rw [h.count] at hscan
    rw [hcount, h.count]
    exact slice_fill hscan node

/-- The nodes processed are cut into revolutions; the complete ones have been published, as
far as there was room for them. -/
structure Caching (s : Driver ρ) (history : List DriverEvent) (before : List MeasurementNode)
    (revolutions : List (List MeasurementNode)) (last : List MeasurementNode) : Prop
    extends Keeps s (current before last) where
  cut : Cut MeasurementNode.sync (processed history) before revolutions last
  published_eq : published history = revolutions.map (List.take (maxScanNodes - 1))
  first : (s.localScan 0).sync = true ↔ last ≠ []

theorem caching_initial (source : ρ) (left : Leftover) :
    Caching (.initial source left) [] [] [] [] where
  count := rfl
  scan := rfl
  cut := cut_nil
  published_eq := rfl
  first := by simp [Driver.initial, MeasurementNode.zero, MeasurementNode.sync]

theorem Caching.quiet (h : Caching s history before revolutions last) {t : Driver ρ}
    {events : List DriverEvent} (hlocal : t.localScan = s.localScan)
    (hcount : t.scanCount = s.scanCount) (hprocessed : processed events = [])
    (hpublished : published events = []) :
    Caching t (history ++ events) before revolutions last := by
  refine ⟨⟨?_, ?_⟩, ?_, ?_, ?_⟩
  · rw [hcount]
    exact h.count
  · rw [hlocal, hcount]
    exact h.scan
  · rw [processed_append, hprocessed, List.append_nil]
    exact h.cut
  · rw [published_append, hpublished, List.append_nil]
    exact h.published_eq
  · rw [hlocal]
    exact h.first

/-- **Step.**  A node is processed. -/
theorem Caching.process (h : Caching s history before revolutions last) (node : MeasurementNode) :
    ∃ before' revolutions' last', Caching (s.process node).1 (history ++ (s.process node).2)
      before' revolutions' last' := by
  cases hnode : node.sync with
  | true =>
      refine ⟨before, if last = [] then revolutions else revolutions ++ [last], [node], ?_⟩
      have hkeeps : Keeps { s with scanCount := 0 } ([] : List MeasurementNode) := ⟨rfl, rfl⟩
      have hcut := h.cut.append_marked hnode
      by_cases hlast : last = []
      · -- the first revolution begins
        have hfirst : (s.localScan 0).sync = false := by
          simpa [hlast] using h.first
        have hstep : s.process node = ({ s with
            localScan := Function.update s.localScan 0 node
            scanCount := if 0 + 1 = maxScanNodes then 0 + 1 - 1 else 0 + 1 },
            [.processed node]) := by
          simp [Driver.process, hnode, hfirst]
        rw [hstep]
        have hstore := hkeeps.store node
        refine ⟨⟨hstore.count, hstore.scan⟩, ?_, ?_, ?_⟩
        · simpa [processed] using hcut
        · simpa [published, hlast] using h.published_eq
        · simpa using hnode
      · have hfirst : (s.localScan 0).sync = true := h.first.mpr hlast
        have hscan : slice s.localScan 0 s.scanCount = last.take (maxScanNodes - 1) := by
          have hkept := h.scan
          rwa [current, if_neg hlast] at hkept
        have hstep : s.process node = ({ s with
            cached := slice s.localScan 0 s.scanCount
            dataEvt := true
            localScan := Function.update s.localScan 0 node
            scanCount := if 0 + 1 = maxScanNodes then 0 + 1 - 1 else 0 + 1 },
            [.published (slice s.localScan 0 s.scanCount), .processed node]) := by
          simp [Driver.process, hnode, hfirst]
        rw [hstep]
        have hstore := hkeeps.store node
        refine ⟨⟨hstore.count, hstore.scan⟩, ?_, ?_, ?_⟩
        · simpa [processed] using hcut
        · rw [published_append, h.published_eq, if_neg hlast, List.map_append, hscan]
          rfl
        · simpa using hnode
  | false =>
      refine ⟨if last = [] then before ++ [node] else before, revolutions,
        if last = [] then [] else last ++ [node], ?_⟩
      have hstep : s.process node = ({ s with
          localScan := Function.update s.localScan s.scanCount node
          scanCount := if s.scanCount + 1 = maxScanNodes then s.scanCount + 1 - 1
            else s.scanCount + 1 }, [.processed node]) := by
        simp [Driver.process, hnode]
      rw [hstep]
      have hcurrent : current (if last = [] then before ++ [node] else before)
          (if last = [] then [] else last ++ [node]) = current before last ++ [node] := by
        by_cases hlast : last = [] <;> simp [current, hlast]
      have hstore := h.toKeeps.store node
      rw [← hcurrent] at hstore
      refine ⟨⟨hstore.count, hstore.scan⟩, ?_, ?_, ?_⟩
      · simpa [processed] using h.cut.append_unmarked hnode
      · simpa [published] using h.published_eq
      · show (Function.update s.localScan s.scanCount node 0).sync = true ↔ _
        by_cases hcount : s.scanCount = 0
        · -- nothing is kept, so this is the very first node
          have hlast : last = [] := by
            by_contra hne
            have hkept := h.count
            rw [current, if_neg hne, hcount] at hkept
            have hpos := List.length_pos_iff.mpr hne
            have hmax : 1 < maxScanNodes := by decide
            omega
          simp [hcount, hlast, hnode]
        · rw [Function.update_of_ne (Ne.symm hcount), h.first]
          by_cases hlast : last = [] <;> simp [hlast]

/-- What is published is what is kept. -/
theorem process_cases (s : Driver ρ) (node : MeasurementNode) :
    let r := s.process node
    r.1.source = s.source ∧ r.1.grabber = s.grabber ∧ received r.2 = [] ∧ processed r.2 = [node] ∧
      grabbed r.2 = [] ∧ (published r.2 = [] ∧ r.1.cached = s.cached ∨
        published r.2 = [r.1.cached]) := by
  cases hnode : node.sync with
  | true =>
      by_cases hfirst : (s.localScan 0).sync = true
      · simp [Driver.process, hnode, hfirst, received, processed, published, grabbed]
      · simp [Driver.process, hnode, hfirst, received, processed, published, grabbed]
  | false => simp [Driver.process, hnode, received, processed, published, grabbed]

/-! ## Handing out -/

/-- Callers have got beginnings of some of the available scans, in order and none twice; what
is cached, if there is anything, is the last of those and is not among them. -/
structure Handing (left : Leftover) (s : Driver ρ) (history : List DriverEvent)
    (picks : List (List MeasurementNode)) : Prop where
  handed : List.Forall₂ (fun g scan => g.2 = scan.take g.1) (grabbed history) picks
  waiting : s.cached = [] ∧ picks <+ available left history ∨
    ∃ earlier, available left history = earlier ++ [s.cached] ∧ picks <+ earlier

theorem handing_initial (source : ρ) (left : Leftover) :
    Handing left (.initial source left) [] [] := by
  refine ⟨.nil, ?_⟩
  by_cases hcached : left.cached = []
  · exact .inl ⟨hcached, List.nil_sublist _⟩
  · exact .inr ⟨[], by simp [available, published, hcached, Driver.initial], .slnil⟩

variable {picks : List (List MeasurementNode)}

theorem Handing.sublist (h : Handing left s history picks) : picks <+ available left history := by
  rcases h.waiting with ⟨-, hsub⟩ | ⟨earlier, havailable, hsub⟩
  · exact hsub
  · rw [havailable]
    exact hsub.trans (List.sublist_append_left ..)

theorem Handing.quiet (h : Handing left s history picks) {t : Driver ρ}
    {events : List DriverEvent} (hcached : t.cached = s.cached) (hgrabbed : grabbed events = [])
    (hpublished : published events = []) : Handing left t (history ++ events) picks := by
  refine ⟨?_, ?_⟩
  · rw [grabbed_append, hgrabbed, List.append_nil]
    exact h.handed
  · rw [available_append, hpublished, List.append_nil, hcached]
    exact h.waiting

theorem Handing.process (h : Handing left s history picks) (node : MeasurementNode) :
    Handing left (s.process node).1 (history ++ (s.process node).2) picks := by
  obtain ⟨-, -, -, -, hgrabbed, ⟨hpublished, hcached⟩ | hpublished⟩ := process_cases s node
  · exact h.quiet hcached hgrabbed hpublished
  · refine ⟨?_, .inr ⟨available left history, ?_, h.sublist⟩⟩
    · rw [grabbed_append, hgrabbed, List.append_nil]
      exact h.handed
    · rw [available_append, hpublished]

theorem Handing.grab (h : Handing left s history picks) (count : Nat) (failed : Bool) :
    ∃ picks', Handing left (s.grab count failed).1 (history ++ (s.grab count failed).2)
      picks' := by
  cases hg : s.grabber with
  | none =>
      refine ⟨picks, ?_⟩
      simp only [Driver.grab, hg]
      split
      · exact h.quiet rfl rfl rfl
      · exact h.quiet rfl rfl rfl
  | some room =>
      simp only [Driver.grab, hg]
      split
      · exact ⟨picks, h.quiet rfl rfl rfl⟩
      · rename_i hne
        have hcached : s.cached ≠ [] := fun hnil => hne (by rw [hnil]; rfl)
        obtain ⟨earlier, havailable, hsub⟩ := h.waiting.resolve_left fun hnil => hcached hnil.1
        have hhanded : s.cached.take (min room s.cached.length) = s.cached.take room := by
          rw [← List.take_take, List.take_length]
        refine ⟨picks ++ [s.cached], ?_, .inl ⟨rfl, ?_⟩⟩
        · rw [grabbed_append]
          exact List.rel_append h.handed (.cons hhanded .nil)
        · rw [available_append, havailable]
          exact (hsub.append_right _).trans (by simp [published])

/-! ## Runs -/

/-- The nodes the thread has still to process. -/
def CachePc.remaining : CachePc → List MeasurementNode
  | .process nodes => nodes
  | .discard | .loop | .done => []

/-- What holds of the driver and its history. -/
structure Scanned (left : Leftover) (s : Driver ρ) (history : List DriverEvent) : Prop where
  caching : ∃ before revolutions last, Caching s history before revolutions last
  handing : ∃ picks, Handing left s history picks
  received_eq : received history = processed history ++ s.pc.remaining

theorem scanned_initial (source : ρ) (left : Leftover) :
    Scanned left (.initial source left) [] where
  caching := ⟨[], [], [], caching_initial source left⟩
  handing := ⟨[], handing_initial source left⟩
  received_eq := rfl

theorem Scanned.quiet (h : Scanned left s history) {t : Driver ρ} {events : List DriverEvent}
    (hscan : t.localScan = s.localScan ∧ t.scanCount = s.scanCount ∧ t.cached = s.cached)
    (hevents : processed events = [] ∧ published events = [] ∧ grabbed events = [])
    (hreceived : s.pc.remaining ++ received events = t.pc.remaining) :
    Scanned left t (history ++ events) := by
  obtain ⟨hlocal, hcount, hcached⟩ := hscan
  obtain ⟨hprocessed, hpublished, hgrabbed⟩ := hevents
  obtain ⟨before, revolutions, last, hcaching⟩ := h.caching
  obtain ⟨picks, hhanding⟩ := h.handing
  refine ⟨⟨before, revolutions, last, hcaching.quiet hlocal hcount hprocessed hpublished⟩,
    ⟨picks, hhanding.quiet hcached hgrabbed hpublished⟩, ?_⟩
  rw [received_append, processed_append, hprocessed, List.append_nil, h.received_eq,
    List.append_assoc, hreceived]

theorem grab_keeps (s : Driver ρ) (count : Nat) (failed : Bool) :
    let r := s.grab count failed
    r.1.pc = s.pc ∧ r.1.source = s.source ∧ r.1.localScan = s.localScan ∧
      r.1.scanCount = s.scanCount ∧ received r.2 = [] ∧ processed r.2 = [] ∧
      published r.2 = [] := by
  cases hg : s.grabber with
  | none =>
      simp only [Driver.grab, hg]
      split <;> exact ⟨rfl, rfl, rfl, rfl, rfl, rfl, rfl⟩
  | some room =>
      simp only [Driver.grab, hg]
      split <;> exact ⟨rfl, rfl, rfl, rfl, rfl, rfl, rfl⟩

/-- **Step.**  Whichever thread moves. -/
theorem Scanned.step (h : Scanned left s history) (src : Source ρ ι) (action : DriverAction ι) :
    let r := (driver src).step s action
    Scanned left r.1 (history ++ r.2) := by
  cases action with
  | stop => exact h.quiet ⟨rfl, rfl, rfl⟩ ⟨rfl, rfl, rfl⟩ (List.append_nil _)
  | grab count failed =>
      obtain ⟨before, revolutions, last, hcaching⟩ := h.caching
      obtain ⟨picks, hhanding⟩ := h.handing
      obtain ⟨hpc, -, hlocal, hcount, hreceived, hprocessed, hpublished⟩ :=
        grab_keeps s count failed
      refine ⟨⟨before, revolutions, last, hcaching.quiet hlocal hcount hprocessed hpublished⟩,
        hhanding.grab count failed, ?_⟩
      show received (history ++ (s.grab count failed).2) =
        processed (history ++ (s.grab count failed).2) ++ (s.grab count failed).1.pc.remaining
      rw [received_append, processed_append, hreceived, hprocessed, List.append_nil,
        List.append_nil, hpc, h.received_eq]
  | cache input =>
      show Scanned left (s.cache src input).1 (history ++ (s.cache src input).2)
      cases hpc : s.pc with
      | discard =>
          simp only [Driver.cache, hpc]
          refine h.quiet ⟨rfl, rfl, rfl⟩ ⟨rfl, rfl, rfl⟩ ?_
          rw [hpc]
          rfl
      | loop =>
          simp only [Driver.cache, hpc]
          split
          · rcases src.wait s.source input with ⟨source, ans, nodes⟩
            cases nodes with
            | some nodes =>
                refine h.quiet ⟨rfl, rfl, rfl⟩ ⟨rfl, rfl, rfl⟩ ?_
                rw [hpc]
                exact List.append_nil nodes
            | none =>
                refine h.quiet ⟨rfl, rfl, rfl⟩ ⟨rfl, rfl, rfl⟩ ?_
                rw [hpc]
                rfl
          · refine h.quiet ⟨rfl, rfl, rfl⟩ ⟨rfl, rfl, rfl⟩ ?_
            rw [hpc]
            rfl
      | done =>
          simp only [Driver.cache, hpc]
          refine h.quiet ⟨rfl, rfl, rfl⟩ ⟨rfl, rfl, rfl⟩ ?_
          rw [hpc]
          rfl
      | process nodes =>
          cases nodes with
          | nil =>
              simp only [Driver.cache, hpc]
              refine h.quiet ⟨rfl, rfl, rfl⟩ ⟨rfl, rfl, rfl⟩ ?_
              rw [hpc]
              rfl
          | cons node nodes =>
              obtain ⟨before, revolutions, last, hcaching⟩ := h.caching
              obtain ⟨before', revolutions', last', hcaching'⟩ := hcaching.process node
              obtain ⟨picks, hhanding⟩ := h.handing
              have hhanding' := hhanding.process node
              obtain ⟨-, -, hreceived, hprocessed, -, -⟩ := process_cases s node
              simp only [Driver.cache, hpc]
              refine ⟨⟨before', revolutions', last', ⟨hcaching'.count, hcaching'.scan⟩,
                hcaching'.cut, hcaching'.published_eq, hcaching'.first⟩,
                ⟨picks, hhanding'.handed, hhanding'.waiting⟩, ?_⟩
              rw [received_append, processed_append, hreceived, hprocessed, h.received_eq, hpc]
              simp [CachePc.remaining]

/-! ## What the source keeps -/

/-- As long as answers are `P`: what the first wait, whose data is discarded, leaves, and what
every other keeps, of the source and of all that has been received. -/
structure Source.Keeps (src : Source ρ ι) (P : UResult → Prop)
    (I : ρ → List MeasurementNode → Prop) (source : ρ) : Prop where
  fails : ¬ P .operationFail
  discards : ∀ input, P (src.discard source input).2 → I (src.discard source input).1 []
  waits : ∀ m received input nodes, I m received → P (src.wait m input).2.1 →
    (src.wait m input).2.2 = some nodes → I (src.wait m input).1 (received ++ nodes)

/-- The first wait is still to come, or `I` holds. -/
def Sourced (I : ρ → List MeasurementNode → Prop) (source : ρ) (s : Driver ρ)
    (history : List DriverEvent) : Prop :=
  s.pc = .discard ∧ s.source = source ∧ received history = [] ∨
    s.pc ≠ .discard ∧ I s.source (received history)

variable {I : ρ → List MeasurementNode → Prop} {source : ρ} {src : Source ρ ι}
  {P : UResult → Prop}

theorem Sourced.quiet (h : Sourced I source s history) {t : Driver ρ} {events : List DriverEvent}
    (hsource : t.source = s.source) (hpc : t.pc = .discard ↔ s.pc = .discard)
    (hreceived : received events = []) : Sourced I source t (history ++ events) := by
  rw [Sourced, received_append, hreceived, List.append_nil, hsource, ne_eq, hpc]
  exact h

/-- **Step.**  The thread waits with its source and nobody else does. -/
theorem Sourced.step (hkeeps : src.Keeps P I source) (h : Sourced I source s history)
    (action : DriverAction ι) (hall : ∀ ans ∈ answers ((driver src).step s action).2, P ans) :
    let r := (driver src).step s action
    Sourced I source r.1 (history ++ r.2) := by
  cases action with
  | stop => exact h.quiet rfl Iff.rfl rfl
  | grab count failed =>
      obtain ⟨hpc, hsource, -, -, hreceived, -⟩ := grab_keeps s count failed
      exact h.quiet hsource (iff_of_eq (congrArg (· = CachePc.discard) hpc)) hreceived
  | cache input =>
      replace hall : ∀ ans ∈ answers (s.cache src input).2, P ans := hall
      show Sourced I source (s.cache src input).1 (history ++ (s.cache src input).2)
      cases hpc : s.pc with
      | discard =>
          obtain ⟨-, rfl, hnone⟩ := h.resolve_right fun h => h.1 hpc
          simp only [Driver.cache, hpc] at hall ⊢
          refine .inr ⟨by simp, ?_⟩
          rw [received_append, hnone]
          exact hkeeps.discards input (by simpa [answers] using hall)
      | loop =>
          have hheld := (h.resolve_left fun h => by simp [hpc] at h).2
          simp only [Driver.cache, hpc] at hall ⊢
          split
          · rename_i hscanning
            simp only [hscanning, if_true] at hall
            have hkept := hkeeps.waits s.source (received history) input
            rcases hw : src.wait s.source input with ⟨m, ans, - | nodes⟩
            · simp only [hw] at hall
              exact absurd (by simpa [answers] using hall) hkeeps.fails
            · simp only [hw] at hall hkept ⊢
              have hreceived := hkept nodes hheld (by simpa [answers] using hall) rfl
              exact .inr ⟨by simp, by simpa [received] using hreceived⟩
          · exact h.quiet rfl (by simp [hpc]) rfl
      | done =>
          simp only [Driver.cache, hpc]
          exact h.quiet rfl (by simp [hpc]) rfl
      | process nodes =>
          cases nodes with
          | nil =>
              simp only [Driver.cache, hpc]
              exact h.quiet rfl (by simp [hpc]) rfl
          | cons node nodes =>
              obtain ⟨hsource, -, hreceived, -, -, -⟩ := process_cases s node
              simp only [Driver.cache, hpc]
              exact h.quiet hsource (by simp [hpc]) hreceived

theorem sourced (hkeeps : src.Keeps P I source) (left : Leftover)
    (actions : List (DriverAction ι))
    (hall : ∀ ans ∈ answers ((driver src).trace (.initial source left) actions), P ans) :
    Sourced I source ((driver src).final (.initial source left) actions)
      ((driver src).trace (.initial source left) actions) := by
  revert hall
  refine (driver src).trace_invariant (I := fun s history => (∀ ans ∈ answers history, P ans) →
    Sourced I source s history) (fun s history action ih hall => ?_) actions
    fun _ => .inl ⟨rfl, rfl, rfl⟩
  rw [answers_append, List.forall_mem_append] at hall
  exact (ih hall.1).step hkeeps action hall.2

/-! ## What callers get -/

theorem Scanned.cut (h : Scanned left s history) :
    processed history <+: received history ∧
    ∃ before revolutions last, Cut MeasurementNode.sync (processed history) before revolutions
      last ∧ published history = revolutions.map (List.take (maxScanNodes - 1)) ∧
    ∃ picks, picks <+ available left history ∧
      List.Forall₂ (fun g scan => g.2 = scan.take g.1) (grabbed history) picks := by
  obtain ⟨before, revolutions, last, hcaching⟩ := h.caching
  obtain ⟨picks, hhanding⟩ := h.handing
  refine ⟨?_, before, revolutions, last, hcaching.cut, hcaching.published_eq, picks,
    hhanding.sublist, hhanding.handed⟩
  rw [h.received_eq]
  exact List.prefix_append ..

theorem scanned (src : Source ρ ι) (source : ρ) (left : Leftover)
    (actions : List (DriverAction ι)) :
    Scanned left ((driver src).final (.initial source left) actions)
      ((driver src).trace (.initial source left) actions) :=
  (driver src).trace_invariant (fun _ _ action h => h.step src action) actions
    (scanned_initial source left)

end

/-- **Scans.**  Whatever is received and whichever thread moves when: the nodes processed are
cut into revolutions, each of which begins with the sync bit; exactly those that are complete
are published, in order, the first `MAX_SCAN_NODES - 1` nodes of each; and what callers of
`grabScanData` get are beginnings of published scans, in order and none twice, but for the
first, which may be of the scan left over from before. -/
theorem scans_in_order {ρ ι : Type} (src : Source ρ ι) (source : ρ) (left : Leftover)
    (actions : List (DriverAction ι)) :
    let history := (driver src).trace (.initial source left) actions
    processed history <+: received history ∧
    ∃ before revolutions last, Cut MeasurementNode.sync (processed history) before revolutions
      last ∧ published history = revolutions.map (List.take (maxScanNodes - 1)) ∧
    ∃ picks, picks <+ available left history ∧
      List.Forall₂ (fun g scan => g.2 = scan.take g.1) (grabbed history) picks := by
  intro history
  exact (scanned src source left actions).cut

end Rplidar

end Alex
