/-
# `Alex.ClientThreads` — the two threads of the laptop

`readerThread` and `writerThread` share `networkActive`, which `main` sets before there
are threads.  As on the Pi, every access to it and every `sslRead` and `sslWrite` is one
step, and an action names the thread that moves:

    reader     while(networkActive)  sslRead  networkActive =  if(networkActive)
               guard                 read     assign           test
                                     stopClient, EXIT_THREAD
                                     stop
    writer     scanf    if(networkActive)  sslWrite  networkActive =  stopClient, EXIT_THREAD
               prompt   test               write     assign           stop

What `sendData` assigns is not the result of its `sslWrite`: `KeepsLink` holds in just
those runs in which the `c` that stands for it happens to be positive.
-/
import Alex.ClientLoop
import Alex.Reader

namespace Alex

namespace Client

inductive LinkEvent where
  | sslRead (len : Int)
  | handled (buffer : Nat → UInt8)
  | passed (data : List UInt8)
  | sslWrite (data : List UInt8) (count : Int)
  | stopped (thread : ClientThread)

/-! ## The reader -/

inductive ReaderPc where
  | guard | read | assign (len : Int) | test | stop | done
  deriving DecidableEq, Repr

/-- `readerThread(conn)`, the next step. -/
def Reader.step (s : Reader) (pc : ReaderPc) (input : ReaderInput) :
    Reader × ReaderPc × List LinkEvent :=
  match pc with
  | .guard => (s, if s.client.networkActive then .read else .stop, [])
  | .read =>
      let (buffer, len) := sslRead s.buffer input
      ({ s with buffer }, .assign len, [.sslRead len])
  | .assign len => ({ s with client := ⟨len > 0⟩ }, .test, [])
  | .test =>
      (s, .guard, if s.client.networkActive then [.handled s.buffer.get] else [])
  | .stop => (s, .done, [.stopped .reader])
  | .done => (s, .done, [])

/-! ## The writer -/

inductive WriterPc where
  | prompt
  | test (data : List UInt8)
  | write (data : List UInt8)
  | assign
  | stop | done
  deriving DecidableEq, Repr

/-- What the writer thread meets: the keys pressed, the result of `sslWrite`, and what
the local `c` of `sendData` holds. -/
structure WriterInput where
  ch : UInt8
  scanned : Params
  count : Int
  c : Int

/-- `writerThread(conn)` and `sendData`, the next step. -/
def WriterPc.step (abi : DataModel) (s : Client) (pc : WriterPc) (input : WriterInput) :
    Client × WriterPc × List LinkEvent :=
  match pc with
  | .prompt =>
      match writerThread input.ch input.scanned with
      | .send ch params => (s, .test (commandBuffer ch params), [.passed (commandBuffer ch params)])
      | .quit => (s, .stop, [])
      | .badCommand => (s, .prompt, [])
  | .test data => (s, if s.networkActive then .write data else .prompt, [])
  | .write data =>
      (s, .assign, [.sslWrite (data.take abi.sizeofPointer) input.count])
  | .assign => (⟨input.c > 0⟩, .prompt, [])
  | .stop => (s, .done, [.stopped .writer])
  | .done => (s, .done, [])

/-! ## The client -/

structure Threads where
  client : Client
  buffer : Cells UInt8
  reader : ReaderPc
  writer : WriterPc

/-- After `networkActive = 1` in `main`. -/
def Threads.initial (buffer : Nat → UInt8) : Threads :=
  ⟨⟨true⟩, ⟨buffer, []⟩, .guard, .prompt⟩

inductive ClientAction where
  | reader (input : ReaderInput)
  | writer (input : WriterInput)

def threads (abi : DataModel) : Mealy Threads ClientAction (List LinkEvent) where
  step s action :=
    match action with
    | .reader input =>
        let (r, pc, events) := Reader.step ⟨s.client, s.buffer⟩ s.reader input
        ({ s with client := r.client, buffer := r.buffer, reader := pc }, events)
    | .writer input =>
        let (client, pc, events) := s.writer.step abi s.client input
        ({ s with client, writer := pc }, events)

/-! ## The threads by themselves -/

section
variable {s : Threads}

/-- A reader nobody interrupts makes the passes of `readerThread`. -/
theorem reader_pass (abi : DataModel) (hs : s.reader = .guard)
    (hactive : s.client.networkActive = true) (input : ReaderInput) :
    let pass := readerThread.step ⟨s.client, s.buffer⟩ input
    let actions := List.replicate 4 (ClientAction.reader input)
    (threads abi).final s actions =
        { s with client := pass.1.client, buffer := pass.1.buffer, reader := .guard } ∧
      (threads abi).trace s actions =
        .sslRead (sslRead s.buffer input).2 :: pass.2.toList.map .handled := by
  obtain ⟨⟨active⟩, buffer, reader, writer⟩ := s
  subst hs hactive
  refine ⟨rfl, ?_⟩
  show LinkEvent.sslRead _ :: ((if decide ((sslRead buffer input).2 > 0) then _ else _) ++ []) =
    _ :: (if decide ((sslRead buffer input).2 > 0) then _ else _ : Option _).toList.map _
  cases decide ((sslRead buffer input).2 > 0) with
  | true => rfl
  | false => rfl

/-- A `sendData` nobody interrupts is `sendData`. -/
theorem writer_sendData (abi : DataModel) {data : List UInt8} (hs : s.writer = .test data)
    (hactive : s.client.networkActive = true) (input : WriterInput) :
    let sent := sendData abi s.client data input.c
    let actions := List.replicate 3 (ClientAction.writer input)
    (threads abi).final s actions = { s with client := sent.1, writer := .prompt } ∧
      (threads abi).trace s actions = sent.2.toList.map fun bytes => .sslWrite bytes input.count := by
  obtain ⟨⟨active⟩, buffer, reader, writer⟩ := s
  subst hs hactive
  exact ⟨rfl, rfl⟩

end

/-! ## Links that last -/

/-- A read or write that came back with no bytes. -/
def LinkEvent.Failed : LinkEvent → Prop
  | .sslRead len => len ≤ 0
  | .sslWrite _ count => count ≤ 0
  | .handled _ | .passed _ | .stopped _ => False

/-- The commands passed to `sendData`. -/
def passed (events : List LinkEvent) : List (List UInt8) :=
  events.filterMap fun
    | .passed data => some data
    | .sslRead _ | .handled _ | .sslWrite _ _ | .stopped _ => none

def written (events : List LinkEvent) : List (List UInt8) :=
  events.filterMap fun
    | .sslWrite data _ => some data
    | .sslRead _ | .handled _ | .passed _ | .stopped _ => none

/-- The command `sendData` is about to write. -/
def WriterPc.pending : WriterPc → List (List UInt8)
  | .test data | .write data => [data]
  | .prompt | .assign | .stop | .done => []

/-- The link is up: the flag is set, every command passed to `sendData` is written, the
reader has not left its loop. -/
structure Kept (abi : DataModel) (s : Threads) (events : List LinkEvent) : Prop where
  active : s.client.networkActive = true
  written : (passed events).map (List.take abi.sizeofPointer) =
    written events ++ s.writer.pending.map (List.take abi.sizeofPointer)
  reading : s.reader ≠ .stop ∧ s.reader ≠ .done

/-- As long as no read and no write has failed the link is up. -/
def KeepsLink (abi : DataModel) (s : Threads) (actions : List ClientAction) : Prop :=
  ∀ before after, actions = before ++ after →
    (∀ e ∈ (threads abi).trace s before, ¬ e.Failed) →
    Kept abi ((threads abi).final s before) ((threads abi).trace s before)

/-- What a link that is up goes on: a length about to be assigned is positive. -/
structure Running (abi : DataModel) (s : Threads) (events : List LinkEvent) : Prop
    extends Kept abi s events where
  received : ∀ len, s.reader = .assign len → 0 < len

theorem running_initial (abi : DataModel) (buffer : Nat → UInt8) :
    Running abi (.initial buffer) [] where
  active := rfl
  written := rfl
  reading := ⟨nofun, nofun⟩
  received := nofun

section
variable {abi : DataModel} {s : Threads} {events : List LinkEvent}

theorem passed_append (events more : List LinkEvent) :
    passed (events ++ more) = passed events ++ passed more := List.filterMap_append ..

theorem written_append (events more : List LinkEvent) :
    Client.written (events ++ more) = Client.written events ++ Client.written more :=
  List.filterMap_append ..

/-- The reader takes the flag down for a failure only. -/
theorem Running.reader (hr : Running abi s events) (input : ReaderInput)
    (hok : ∀ e ∈ ((threads abi).step s (.reader input)).2, ¬ e.Failed) :
    Running abi ((threads abi).step s (.reader input)).1
      (events ++ ((threads abi).step s (.reader input)).2) := by
  obtain ⟨⟨active⟩, buffer, reader, writer⟩ := s
  obtain ⟨⟨hactive, hwritten, hreading⟩, hreceived⟩ := hr
  replace hactive : active = true := hactive
  subst hactive
  -- nothing is passed and nothing written
  have hframe (more : List LinkEvent) (hp : passed more = []) (hw : Client.written more = []) :
      (passed (events ++ more)).map (List.take abi.sizeofPointer) =
        Client.written (events ++ more) ++ writer.pending.map (List.take abi.sizeofPointer) := by
    rw [passed_append, written_append, hp, hw, List.append_nil, List.append_nil]
    exact hwritten
  cases reader with
  | guard => exact ⟨⟨rfl, hframe [] rfl rfl, nofun, nofun⟩, nofun⟩
  | read =>
      refine ⟨⟨rfl, hframe [_] rfl rfl, nofun, nofun⟩, ?_⟩
      intro len hlen
      cases hlen
      exact Int.not_le.mp (hok _ (List.mem_singleton_self _))
  | assign len =>
      have hlen : 0 < len := hreceived len rfl
      exact ⟨⟨decide_eq_true hlen, hframe [] rfl rfl, nofun, nofun⟩, nofun⟩
  | test => exact ⟨⟨rfl, hframe [_] rfl rfl, nofun, nofun⟩, nofun⟩
  | stop => exact absurd rfl hreading.1
  | done => exact absurd rfl hreading.2

/-- The writer takes it down for what is in `c`. -/
theorem Running.writer (hr : Running abi s events) (input : WriterInput)
    (hc : s.writer = .assign → 0 < input.c) :
    Running abi ((threads abi).step s (.writer input)).1
      (events ++ ((threads abi).step s (.writer input)).2) := by
  obtain ⟨⟨active⟩, buffer, reader, writer⟩ := s
  obtain ⟨⟨hactive, hwritten, hreading⟩, hreceived⟩ := hr
  replace hactive : active = true := hactive
  subst hactive
  replace hwritten : (passed events).map (List.take abi.sizeofPointer) =
    Client.written events ++ writer.pending.map (List.take abi.sizeofPointer) := hwritten
  -- a step of `writer` to `w` that passes `p` and writes `d`
  have hframe (more : List LinkEvent) {w : WriterPc}
      (hnew : writer.pending.map (List.take abi.sizeofPointer) ++
          (passed more).map (List.take abi.sizeofPointer) =
        Client.written more ++ w.pending.map (List.take abi.sizeofPointer)) :
      (passed (events ++ more)).map (List.take abi.sizeofPointer) =
        Client.written (events ++ more) ++ w.pending.map (List.take abi.sizeofPointer) := by
    rw [passed_append, written_append, List.map_append, hwritten, List.append_assoc, hnew,
      List.append_assoc]
  cases writer with
  | prompt =>
      cases hk : writerThread input.ch input.scanned with
      | send ch params =>
          simp only [threads, WriterPc.step, hk]
          exact ⟨⟨rfl, hframe [_] rfl, hreading⟩, hreceived⟩
      | quit =>
          simp only [threads, WriterPc.step, hk]
          exact ⟨⟨rfl, hframe [] rfl, hreading⟩, hreceived⟩
      | badCommand =>
          simp only [threads, WriterPc.step, hk]
          exact ⟨⟨rfl, hframe [] rfl, hreading⟩, hreceived⟩
  | test data =>
      exact ⟨⟨rfl, hframe [] rfl, hreading⟩, hreceived⟩
  | write data => exact ⟨⟨rfl, hframe [_] rfl, hreading⟩, hreceived⟩
  | assign => exact ⟨⟨decide_eq_true (hc rfl), hframe [] rfl, hreading⟩, hreceived⟩
  | stop => exact ⟨⟨rfl, hframe [_] rfl, hreading⟩, hreceived⟩
  | done => exact ⟨⟨rfl, hframe [] rfl, hreading⟩, hreceived⟩

end

section
variable (abi : DataModel) (buffer : Nat → UInt8)

theorem running_final {before : List ClientAction}
    (hok : ∀ e ∈ (threads abi).trace (.initial buffer) before, ¬ e.Failed)
    (hc : ∀ earlier input later, before = earlier ++ .writer input :: later →
      ((threads abi).final (.initial buffer) earlier).writer = .assign → 0 < input.c) :
    Running abi ((threads abi).final (.initial buffer) before)
      ((threads abi).trace (.initial buffer) before) := by
  induction before using List.reverseRecOn with
  | nil => exact running_initial abi buffer
  | append_singleton before action ih =>
      rw [Mealy.trace_concat] at hok ⊢
      rw [Mealy.final_concat]
      have hr := ih (fun e he => hok e (List.mem_append_left _ he)) fun earlier input later h =>
        hc earlier input (later ++ [action]) (by rw [h, List.append_assoc]; rfl)
      cases action with
      | reader input => exact hr.reader input fun e he => hok e (List.mem_append_right _ he)
      | writer input => exact hr.writer input (hc before input [] rfl)

theorem step_assign {s : Threads} (hs : s.writer = .assign) (input : WriterInput) :
    (threads abi).step s (.writer input) =
      ({ s with client := ⟨input.c > 0⟩, writer := .prompt }, []) := by
  obtain ⟨client, buffer, reader, writer⟩ := s
  subst hs
  rfl

/-- The link is kept in exactly the runs in which every `c` that `sendData` uses is
positive, unless a read or write has failed by then. -/
theorem keeps_link_iff (actions : List ClientAction) :
    KeepsLink abi (.initial buffer) actions ↔
      ∀ before input after, actions = before ++ .writer input :: after →
        ((threads abi).final (.initial buffer) before).writer = .assign → input.c ≤ 0 →
        ∃ e ∈ (threads abi).trace (.initial buffer) before, e.Failed := by
  constructor
  · intro hkeeps before input after hactions hassign hc
    by_contra hnone
    have hok : ∀ e ∈ (threads abi).trace (.initial buffer) before, ¬ e.Failed := fun e he hf =>
      hnone ⟨e, he, hf⟩
    have hstep := step_assign abi hassign input
    have hkept := hkeeps (before ++ [.writer input]) after (by rw [hactions, List.append_assoc]; rfl)
      (by rw [Mealy.trace_concat, hstep, List.append_nil]; exact hok)
    rw [Mealy.final_concat, hstep] at hkept
    exact absurd (of_decide_eq_true hkept.active) (Int.not_lt.mpr hc)
  · intro hc before after hactions hok
    refine (running_final abi buffer hok fun earlier input later hbefore hassign => ?_).toKept
    by_contra hneg
    obtain ⟨e, he, hf⟩ := hc earlier input (later ++ after)
      (by rw [hactions, hbefore, List.append_assoc]; rfl) hassign (Int.not_lt.mp hneg)
    refine hok e ?_ hf
    rw [hbefore, Mealy.trace_append]
    exact List.mem_append_left _ he

end

/-- One `s` is sent, all eight bytes of it, and the laptop is deaf. -/
theorem link_lost_after_stop :
    ¬ KeepsLink .lp64 (.initial fun _ => 0)
      (List.replicate 4 (.writer ⟨'s'.toUInt8, ⟨0, 0⟩, 8, 0⟩)) := by
  intro h
  have hkept := h (List.replicate 4 (.writer ⟨'s'.toUInt8, ⟨0, 0⟩, 8, 0⟩)) []
    (List.append_nil _).symm ?_
  · exact absurd hkept.active (by decide)
  · intro e he
    replace he : e ∈ [LinkEvent.passed (commandBuffer 's'.toUInt8 ⟨0, 0⟩),
      .sslWrite ((commandBuffer 's'.toUInt8 ⟨0, 0⟩).take 8) 8] := he
    rcases List.mem_cons.mp he with rfl | he
    · exact id
    · obtain rfl := List.mem_singleton.mp he
      exact Int.not_le.mpr (by decide)

end Client

end Alex
