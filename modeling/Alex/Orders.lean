/-
# `Alex.Orders` — from the keyboards to the wheels

What the laptops send, the Pi forwards and the Arduino handles, over all runs of the
system.  The list that connects them is that of the frames on the serial line, each with
the connection it was made for:

    messages read by the workers  ↔  frames on the line  ↔  commands handled
             one by one, connection by connection       in order, so far

The bytes of a message that the laptop does not send are those the worker's `buffer`
held when the connection was accepted: no message is long enough to change them
(`Stands.behind`).
-/
import Alex.Motors
import Alex.System

namespace Alex

open Channel

/-! ## Orders -/

/-- A command and its parameters. -/
structure Order where
  command : TCommandType
  p0 : UInt32
  p1 : UInt32
  deriving DecidableEq, Repr

def TPacket.order? (p : TPacket) : Option Order :=
  (TCommandType.ofCode? p.command).map fun c => ⟨c, p.params 0, p.params 1⟩

/-- The order that `handleNetworkData` finds in its buffer. -/
def orderIn (buffer : Nat → UInt8) : Option Order :=
  if buffer 0 = TNetConstants.commandPacket.code then
    (handleCommand .zeroes buffer).bind TPacket.order?
  else none

def Event.order? : Event → Option Order
  | .handled c p0 p1 => some ⟨c, p0, p1⟩
  | .sent _ | .autoStop _ | .idle => none

def ordersHandled (history : List SystemEvent) : List Order :=
  (history.filterMap SystemEvent.arduino?).filterMap Event.order?

def messagesSent (conn : Conn) (history : List SystemEvent) : List (List UInt8) :=
  (history.filterMap (SystemEvent.laptop? conn)).filterMap Client.LinkEvent.sent?

/-- The orders in some messages, as a worker with this `stack` under its buffer reads
them. -/
def ordersOf (stack : Nat → UInt8) (messages : List (List UInt8)) : List Order :=
  messages.filterMap fun m => orderIn (overlay m stack)

theorem ordersOf_concat (stack : Nat → UInt8) (messages : List (List UInt8)) (m : List UInt8) :
    ordersOf stack (messages ++ [m]) =
      ordersOf stack messages ++ (orderIn (overlay m stack)).toList := by
  rw [ordersOf, List.filterMap_append]
  cases h : orderIn (overlay m stack) <;> simp [ordersOf, h]

theorem order?_handleCommand (p q : TPacket) (buffer : Nat → UInt8) :
    (handleCommand p buffer).bind TPacket.order? =
      (handleCommand q buffer).bind TPacket.order? := by
  simp only [handleCommand]
  split <;> rfl

/-! ## The line -/

/-- A frame the Pi puts on the line: HELLO, or what it makes of a message of a laptop. -/
inductive Forwarded where
  | hello (helloPacket : TPacket) (comms : Nat → UInt8)
  | command (conn : Conn) (commandPacket : TPacket) (comms buffer : Nat → UInt8)
      (packet : TPacket) (forwarded : handleCommand commandPacket buffer = some packet)

def Forwarded.frame : Forwarded → Incoming
  | .hello helloPacket comms => .hello helloPacket comms
  | .command _ commandPacket comms buffer packet forwarded =>
      .command commandPacket comms buffer packet forwarded

def Forwarded.bytes (x : Forwarded) : List UInt8 := x.frame.bytes

/-- The order in a frame, and who has given it. -/
def Forwarded.order? : Forwarded → Option (Conn × Order)
  | .hello _ _ => none
  | .command conn _ _ _ packet _ => packet.order?.map fun o => (conn, o)

/-- The orders on the line, with the laptops that gave them. -/
def served (line : List Forwarded) : List (Conn × Order) := line.filterMap Forwarded.order?

def servedTo (conn : Conn) (line : List Forwarded) : List Order :=
  ((served line).filter fun o => o.1 = conn).map Prod.snd

theorem served_append (line line' : List Forwarded) :
    served (line ++ line') = served line ++ served line' := List.filterMap_append ..

theorem servedTo_append (conn : Conn) (line line' : List Forwarded) :
    servedTo conn (line ++ line') = servedTo conn line ++ servedTo conn line' := by
  rw [servedTo, served_append, List.filter_append, List.map_append]
  rfl

theorem servedTo_eq {conn : Conn} {frames : List Forwarded} {orders : List Order}
    (h : served frames = orders.map fun o => (conn, o)) (c : Conn) :
    servedTo c frames = if c = conn then orders else [] := by
  rw [servedTo, h, List.filter_map, List.map_map]
  by_cases hc : c = conn
  · subst hc
    simp [Function.comp_def]
  · simp [Function.comp_def, hc, Ne.symm hc]

theorem flatMap_frame (xs : List Forwarded) :
    xs.flatMap Forwarded.bytes = (xs.map Forwarded.frame).flatMap Incoming.bytes := by
  rw [List.flatMap_map]
  rfl

/-! ## A worker -/

/-- The order a worker has read and not yet forwarded. -/
def Worker.inHand (w : Worker) : Option Order :=
  match w.pc with
  | .assign len => if len > 0 then orderIn w.buffer.get else none
  | .handle | .forward => orderIn w.buffer.get
  | .guard | .read | .reset | .free | .done => none

theorem get_write_overlay (c : Cells UInt8) (m : List UInt8) :
    (c.write 0 m).get = overlay m c.get := by
  funext j
  rw [Cells.get_write, overlay, List.getD_eq_getElem?_getD]
  by_cases h : j < m.length
  · rw [dif_pos (by omega), List.getElem?_eq_getElem h]
    rfl
  · rw [dif_neg (by omega), List.getElem?_eq_none (by omega)]
    rfl

theorem overlay_congr {m : List UInt8} {f g : Nat → UInt8} (h : ∀ i, m.length ≤ i → f i = g i) :
    overlay m f = overlay m g := by
  funext j
  rw [overlay, overlay, List.getD_eq_getElem?_getD, List.getD_eq_getElem?_getD]
  by_cases hj : j < m.length
  · rw [List.getElem?_eq_getElem hj]
    rfl
  · rw [h j (by omega)]

/-- What a worker writes to the line is a frame with the order it has in hand, or
nothing. -/
theorem handleNetworkData_frames (conn : Conn) (commandPacket : TPacket)
    (comms buffer : Nat → UInt8) :
    ∃ frames : List Forwarded, handleNetworkData commandPacket comms buffer =
        frames.flatMap Forwarded.bytes ∧
      served frames = (orderIn buffer).toList.map fun o => (conn, o) := by
  rw [handleNetworkData, orderIn]
  split
  · rw [order?_handleCommand .zeroes commandPacket]
    cases hp : handleCommand commandPacket buffer with
    | none => exact ⟨[], rfl, rfl⟩
    | some packet =>
        let frame : Forwarded := .command conn commandPacket comms buffer packet hp
        refine ⟨[frame], (List.append_nil _).symm, ?_⟩
        have hframe : frame.order? = packet.order?.map fun o => (conn, o) := rfl
        cases h : packet.order? <;> simp [served, hframe, h]
  · exact ⟨[], rfl, rfl⟩

/-- **Step.**  A worker forwards what it has in hand, or goes on with it; a message that
it reads is what it has in hand next. -/
theorem Worker.step_orders (conn : Conn) (g : Globals) (w : Worker) (input : NetworkInput)
    (commandPacket : TPacket) (comms : Nat → UInt8) :
    let r := w.step conn g input commandPacket comms
    ∃ (frames : List Forwarded) (orders : List Order),
      r.2.2.flatMap ServerEvent.wired = frames.flatMap Forwarded.bytes ∧
      served frames = orders.map (fun o => (conn, o)) ∧
      if w.pc = .read then
        frames = [] ∧ r.2.1.buffer = (sslRead w.buffer input).1 ∧
          r.2.1.inHand = if (sslRead w.buffer input).2 > 0 then
            orderIn (sslRead w.buffer input).1.get else none
      else r.2.1.buffer = w.buffer ∧
        orders ++ r.2.1.inHand.toList = w.inHand.toList := by
  obtain ⟨pc, buffer⟩ := w
  cases pc with
  | guard =>
      obtain ⟨active, tlsConn⟩ := g
      cases active with
      | false => exact ⟨[], [], rfl, rfl, rfl, rfl⟩
      | true => exact ⟨[], [], rfl, rfl, rfl, rfl⟩
  | read => exact ⟨[], [], rfl, rfl, rfl, rfl, rfl⟩
  | assign len =>
      refine ⟨[], [], rfl, rfl, rfl, ?_⟩
      show (Worker.inHand ⟨if len > 0 then .handle else .guard, buffer⟩).toList =
        (Worker.inHand ⟨.assign len, buffer⟩).toList
      by_cases h : len > 0 <;> simp [inHand, h]
  | handle => exact ⟨[], [], rfl, rfl, rfl, rfl⟩
  | forward =>
      obtain ⟨frames, hbytes, horders⟩ :=
        handleNetworkData_frames conn commandPacket comms buffer.get
      exact ⟨frames, _, (List.append_nil _).trans hbytes, horders, rfl, List.append_nil _⟩
  | reset => exact ⟨[], [], rfl, rfl, rfl, rfl⟩
  | free => exact ⟨[], [], rfl, rfl, rfl, rfl⟩
  | done => exact ⟨[], [], rfl, rfl, rfl, rfl⟩

/-! ## One call of `loop()` -/

theorem order?_sent (frames : List (List UInt8)) :
    (frames.map Event.sent).filterMap Event.order? = [] := by
  rw [List.filterMap_map, List.filterMap_eq_nil_iff]
  exact fun _ _ => rfl

theorem order?_check (r : Robot) : r.check.2.filterMap Event.order? = [] := by
  rw [List.filterMap_eq_nil_iff]
  intro e he
  rcases Robot.mem_check he with ⟨_, rfl⟩ | rfl
  · rfl
  · rfl

theorem order?_reactTo (r : Robot) (input : LoopInput) (x : Forwarded) :
    (r.reactTo input x.bytes).2.filterMap Event.order? = (served [x]).map Prod.snd := by
  cases x with
  | hello helloPacket comms =>
      show (r.reactTo input (serialize comms _)).2.filterMap Event.order? = []
      rw [Robot.reactTo_serialize]
      rfl
  | command conn commandPacket comms buffer packet forwarded =>
      obtain ⟨ht, c, hc⟩ := handleCommand_some forwarded
      have horder : packet.order? = some ⟨c, packet.params 0, packet.params 1⟩ := by
        rw [TPacket.order?, hc, TCommandType.ofCode?_code]
        rfl
      have hserved : served [.command conn commandPacket comms buffer packet forwarded] =
          [(conn, ⟨c, packet.params 0, packet.params 1⟩)] := by
        simp [served, Forwarded.order?, horder]
      show (r.reactTo input (serialize comms packet.bytes)).2.filterMap Event.order? = _
      rw [hserved, Robot.reactTo_serialize, Robot.handlePacket_command ht hc,
        List.filterMap_append, order?_sent]
      rfl

/-- **Step.**  A call of `loop()` takes bytes off the line and completes no frame, or the
next one. -/
theorem loop_line {s : Firmware} {line : Channel UInt8} {arrived coming : List Forwarded}
    (hb : s.uart.assembler.Between)
    (hline : line.Carries Forwarded.bytes s.uart.assembler.pending arrived coming)
    {len : Nat} (hshort : len ≤ packetSize) (input : LoopInput) :
    let read : LoopInput := { input with bytes := line.waiting.take len }
    (s.loop read).1.uart.assembler.Between ∧
      ((line.pop len).Carries Forwarded.bytes (s.loop read).1.uart.assembler.pending arrived
          coming ∧ (s.loop read).2 = s.robot.check.2 ∨
        ∃ x later, coming = x :: later ∧
          (line.pop len).Carries Forwarded.bytes (s.loop read).1.uart.assembler.pending
            (arrived ++ [x]) later ∧
          (s.loop read).2 = (s.robot.reactTo read x.bytes).2 ++
            (s.robot.reactTo read x.bytes).1.check.2) := by
  intro read
  have hlen : read.bytes.length ≤ packetSize := (List.length_take_le ..).trans hshort
  have hsplit : s.uart.assembler.pending ++ (read.bytes ++ (line.pop len).waiting) =
      (coming.map Forwarded.frame).flatMap Incoming.bytes := by
    rw [← flatMap_frame]
    exact hline.split len
  obtain ⟨hb', ⟨hrest, -, hevents⟩ | ⟨f, later, hf, hrest, -, -, hevents⟩⟩ :=
    acknowledges_loop hb hlen hsplit
  · refine ⟨hb', .inl ⟨hline.hold ?_, hevents⟩⟩
    rw [flatMap_frame]
    exact hrest
  · obtain ⟨x, xs, rfl, rfl, rfl⟩ := List.map_eq_cons_iff.mp hf
    refine ⟨hb', .inr ⟨x, xs, rfl, hline.arrive ?_, hevents⟩⟩
    rw [flatMap_frame]
    exact hrest

/-! ## What the laptops send -/

namespace Client

/-- The writer has commands to send, and has sent the beginnings of some. -/
structure SendsCommands (abi : DataModel) (s : Threads) (events : List LinkEvent) : Prop where
  pending : ∀ data ∈ s.writer.pending, ∃ ch params, data = commandBuffer ch params
  written : ∀ m ∈ written events, ∃ ch params, m = (commandBuffer ch params).take abi.sizeofPointer

theorem SendsCommands.step {abi : DataModel} {s : Threads} {events : List LinkEvent}
    (h : SendsCommands abi s events) (action : ClientAction) :
    SendsCommands abi ((threads abi).step s action).1
      (events ++ ((threads abi).step s action).2) := by
  obtain ⟨client, buffer, reader, writer⟩ := s
  obtain ⟨hpending, hwritten⟩ := h
  -- steps that write nothing
  have hquiet {more : List LinkEvent} (hmore : Client.written more = []) :
      ∀ m ∈ Client.written (events ++ more), ∃ ch params,
        m = (commandBuffer ch params).take abi.sizeofPointer := by
    rw [written_append, hmore, List.append_nil]
    exact hwritten
  cases action with
  | reader input =>
      refine ⟨hpending, hquiet ?_⟩
      cases reader with
      | guard => rfl
      | read => rfl
      | assign len => rfl
      | test =>
          show Client.written (if client.networkActive = true then [_] else []) = []
          split <;> rfl
      | stop => rfl
      | done => rfl
  | writer input =>
      cases writer with
      | prompt =>
          cases hk : writerThread input.ch input.scanned with
          | send ch params =>
              simp only [threads, WriterPc.step, hk]
              refine ⟨fun data hdata => ?_, hquiet rfl⟩
              exact ⟨ch, params, List.mem_singleton.mp hdata⟩
          | quit =>
              simp only [threads, WriterPc.step, hk]
              exact ⟨fun _ h => absurd h List.not_mem_nil, hquiet rfl⟩
          | badCommand =>
              simp only [threads, WriterPc.step, hk]
              exact ⟨fun _ h => absurd h List.not_mem_nil, hquiet rfl⟩
      | test data =>
          refine ⟨?_, hquiet rfl⟩
          show ∀ d ∈
            (if client.networkActive = true then WriterPc.write data else .prompt).pending, _
          split
          · exact hpending
          · exact fun _ h => absurd h List.not_mem_nil
      | write data =>
          refine ⟨fun _ h => absurd h List.not_mem_nil, fun m hm => ?_⟩
          replace hm : m ∈ Client.written (events ++
            [LinkEvent.sslWrite (data.take abi.sizeofPointer) input.count]) := hm
          rw [written_append] at hm
          rcases List.mem_append.mp hm with hm | hm
          · exact hwritten m hm
          · obtain ⟨ch, params, hdata⟩ := hpending data (List.mem_singleton_self data)
            refine ⟨ch, params, ?_⟩
            rw [← hdata]
            exact List.mem_singleton.mp hm
      | assign => exact ⟨fun _ h => absurd h List.not_mem_nil, hquiet rfl⟩
      | stop => exact ⟨fun _ h => absurd h List.not_mem_nil, hquiet rfl⟩
      | done => exact ⟨fun _ h => absurd h List.not_mem_nil, hquiet rfl⟩

theorem mem_written_of_sent {events : List LinkEvent} {m : List UInt8}
    (h : m ∈ events.filterMap LinkEvent.sent?) : m ∈ written events := by
  obtain ⟨e, he, hm⟩ := List.mem_filterMap.mp h
  refine List.mem_filterMap.mpr ⟨e, he, ?_⟩
  cases e with
  | sslWrite data count =>
      simp only [LinkEvent.sent?] at hm
      split at hm
      · exact hm
      · exact nomatch hm
  | sslRead len => exact nomatch hm
  | handled buffer => exact nomatch hm
  | passed data => exact nomatch hm
  | stopped thread => exact nomatch hm

end Client

theorem length_take_commandBuffer (abi : DataModel) (ch : UInt8) (params : Params) :
    ((commandBuffer ch params).take abi.sizeofPointer).length = abi.sizeofPointer := by
  have hle := sizeofPointer_le abi
  rw [List.length_take, length_commandBuffer]
  omega

section
variable (abi : DataModel) (stack : Conn → Nat → UInt8) (vincentCirc : ℚ)
  (laptop : Conn → Nat → UInt8) (pi arduino : Boot)

/-- What a laptop sends is the beginning of a command. -/
theorem messagesSent_eq (actions : List SystemAction) (conn : Conn) :
    ∀ m ∈ messagesSent conn
        ((system abi stack).trace (.initial vincentCirc laptop pi arduino) actions),
      ∃ ch params, m = (commandBuffer ch params).take abi.sizeofPointer := by
  intro m hm
  obtain ⟨inputs, -, htrace⟩ :=
    laptop_runs abi stack (.initial vincentCirc laptop pi arduino) actions conn
  rw [messagesSent, htrace] at hm
  have hstart : Client.SendsCommands abi (.initial (laptop conn)) [] :=
    ⟨fun _ h => absurd h List.not_mem_nil, fun _ h => absurd h List.not_mem_nil⟩
  have hstep (s : Client.Threads) (events : List Client.LinkEvent) (action : Client.ClientAction)
      (h : Client.SendsCommands abi s events) := h.step action
  have hsends := (Client.threads abi).trace_invariant hstep inputs hstart
  exact hsends.written m (Client.mem_written_of_sent hm)

end

/-! ## From the laptops to the line -/

/-- Where a worker stands: what it has read is on the line, but for what it has in hand,
and behind a message its buffer is as it was. -/
structure Stands (abi : DataModel) (stack : Nat → UInt8) (worker : Option Worker)
    (read : List (List UInt8)) (orders : List Order) : Prop where
  orders_eq : orders ++ (worker.bind Worker.inHand).toList = ordersOf stack read
  behind : ∀ w, worker = some w → ∀ i, abi.sizeofPointer ≤ i → w.buffer.get i = stack i

section
variable {abi : DataModel} {stack : Nat → UInt8} {read : List (List UInt8)} {orders : List Order}

theorem Stands.reads {w : Worker} (h : Stands abi stack (some w) read orders)
    (hpc : w.pc = .read) {m : List UInt8} (hm : m.length = abi.sizeofPointer) (conn : Conn)
    (g : Globals) (commandPacket : TPacket) (comms : Nat → UInt8) :
    let r := w.step conn g (deliver m) commandPacket comms
    r.2.2.flatMap ServerEvent.wired = [] ∧ Stands abi stack (some r.2.1) (read ++ [m]) orders := by
  intro r
  obtain ⟨frames, _, hbytes, _, hcases⟩ := w.step_orders conn g (deliver m) commandPacket comms
  rw [if_pos hpc] at hcases
  obtain ⟨rfl, hbuffer, hhand⟩ := hcases
  have hle := sizeofPointer_le abi
  have htake : m.take bufLen = m := List.take_of_length_le (by simp only [bufLen]; omega)
  have hread : sslRead w.buffer (deliver m) = (w.buffer.write 0 m, (m.length : Int)) := by
    simp only [deliver, sslRead, htake]
  rw [hread] at hbuffer hhand
  have hover : (w.buffer.write 0 m).get = overlay m stack := by
    rw [get_write_overlay]
    exact overlay_congr fun i hi => h.behind w rfl i (hm ▸ hi)
  refine ⟨hbytes, ?_, ?_⟩
  · have hempty : (w.inHand).toList = [] := by
      rw [Worker.inHand, hpc]
      rfl
    have horders := h.orders_eq
    rw [Option.bind_some, hempty, List.append_nil] at horders
    rw [Option.bind_some, hhand, if_pos (by omega), hover, ordersOf_concat, horders]
  · rintro v hv i hi
    obtain rfl := Option.some.inj hv
    rw [hbuffer, Cells.get_write_of_lt (by omega)]
    exact h.behind w rfl i hi

theorem Stands.goesOn {w : Worker} (h : Stands abi stack (some w) read orders)
    {input : NetworkInput} (hinput : w.pc = .read → input = none ∨ input = deliver [])
    (conn : Conn) (g : Globals) (commandPacket : TPacket) (comms : Nat → UInt8) :
    let r := w.step conn g input commandPacket comms
    ∃ (frames : List Forwarded) (more : List Order),
      r.2.2.flatMap ServerEvent.wired = frames.flatMap Forwarded.bytes ∧
      served frames = more.map (fun o => (conn, o)) ∧
      Stands abi stack (some r.2.1) read (orders ++ more) := by
  intro r
  obtain ⟨frames, more, hbytes, hserved, hcases⟩ := w.step_orders conn g input commandPacket comms
  refine ⟨frames, more, hbytes, hserved, ?_⟩
  have horders := h.orders_eq
  rw [Option.bind_some] at horders
  by_cases hpc : w.pc = .read
  · rw [if_pos hpc] at hcases
    obtain ⟨rfl, hbuffer, hhand⟩ := hcases
    have hread : (sslRead w.buffer input).1 = w.buffer ∧ ¬ (sslRead w.buffer input).2 > 0 := by
      rcases hinput hpc with rfl | rfl
      · exact ⟨rfl, (by decide : ¬ (-1 : Int) > 0)⟩
      · exact ⟨rfl, (by decide : ¬ ((0 : Nat) : Int) > 0)⟩
    rw [if_neg hread.2] at hhand
    have hempty : (w.inHand).toList = [] := by
      rw [Worker.inHand, hpc]
      rfl
    have hmore : more = [] := (List.map_eq_nil_iff.mp hserved.symm)
    refine ⟨?_, ?_⟩
    · rw [Option.bind_some, hhand, ← horders, hempty, hmore]
      exact List.append_nil _
    · rintro v hv i hi
      obtain rfl := Option.some.inj hv
      rw [hbuffer, hread.1]
      exact h.behind w rfl i hi
  · rw [if_neg hpc] at hcases
    obtain ⟨hbuffer, hhand⟩ := hcases
    refine ⟨?_, ?_⟩
    · rw [Option.bind_some, List.append_assoc, hhand, horders]
    · rintro v hv i hi
      obtain rfl := Option.some.inj hv
      rw [hbuffer]
      exact h.behind w rfl i hi

end

/-! ## From the laptops to the Arduino -/

/-- What is on its way: the frames that have arrived have been handled, and all frames
there have been are what the workers have read. -/
structure Ordered (abi : DataModel) (stack : Conn → Nat → UInt8) (s : System)
    (history : List SystemEvent) (arrived coming : List Forwarded) : Prop where
  between : s.arduino.uart.assembler.Between
  line : s.toArduino.Carries Forwarded.bytes s.arduino.uart.assembler.pending arrived coming
  handled : ordersHandled history = (served arrived).map Prod.snd
  stands : ∀ c, Stands abi (stack c) (s.pi.workers c) (s.toPi c).read
    (servedTo c (arrived ++ coming))
  sent : ∀ c, (s.toPi c).sent = messagesSent c history

theorem ordered_initial (abi : DataModel) (stack : Conn → Nat → UInt8) (vincentCirc : ℚ)
    (laptop : Conn → Nat → UInt8) (pi arduino : Boot) :
    Ordered abi stack (.initial vincentCirc laptop pi arduino) [] [] [] where
  between := Assembler.between_initial ..
  line := carries_empty
  handled := rfl
  stands _ := ⟨rfl, fun _ h => nomatch h⟩
  sent _ := rfl

section
variable {abi : DataModel} {stack : Conn → Nat → UInt8} {s : System}
  {history : List SystemEvent} {arrived coming : List Forwarded}

theorem ordersHandled_append (history events : List SystemEvent) :
    ordersHandled (history ++ events) = ordersHandled history ++ ordersHandled events := by
  rw [ordersHandled, List.filterMap_append, List.filterMap_append]
  rfl

theorem ordersHandled_quiet {events : List SystemEvent}
    (h : events.filterMap SystemEvent.arduino? = []) (history : List SystemEvent) :
    ordersHandled (history ++ events) = ordersHandled history := by
  have hnone : ordersHandled events = [] := by
    rw [ordersHandled, h]
    rfl
  rw [ordersHandled_append, hnone, List.append_nil]

theorem messagesSent_append (conn : Conn) (history events : List SystemEvent) :
    messagesSent conn (history ++ events) =
      messagesSent conn history ++ messagesSent conn events := by
  rw [messagesSent, List.filterMap_append, List.filterMap_append]
  rfl

theorem Ordered.laptop (h : Ordered abi stack s history arrived coming)
    (toLaptop : Conn → Channel (List UInt8)) (conn : Conn)
    (step : Client.Threads × List Client.LinkEvent) :
    let r := System.afterLaptop { s with toLaptop := toLaptop } conn step
    Ordered abi stack r.1 (history ++ r.2) arrived coming := by
  intro r
  have harduino : r.2.filterMap SystemEvent.arduino? = [] := arduino?_laptop conn step.2
  have hchannel (c : Conn) : r.1.toPi c = (s.toPi c).push (messagesSent c r.2) := by
    show Function.update s.toPi conn _ c = _
    rw [messagesSent,
      show r.2.filterMap (SystemEvent.laptop? c) = _ from laptop?_laptop c conn step.2]
    by_cases hc : c = conn
    · subst hc
      rw [Function.update_self, if_pos rfl]
    · rw [Function.update_of_ne hc, if_neg (Ne.symm hc), List.filterMap_nil, push_nil]
  refine ⟨h.between, h.line, ?_, fun c => ?_, fun c => ?_⟩
  · rw [ordersHandled_quiet harduino, h.handled]
  · rw [hchannel, read_push]
    exact h.stands c
  · rw [hchannel, sent_push, h.sent, messagesSent_append]

theorem Ordered.pi (h : Ordered abi stack s history arrived coming)
    {toPi : Conn → Channel (List UInt8)} (fromArduino : Channel UInt8)
    {step : Server × List ServerEvent} (hsent : ∀ c, (toPi c).sent = (s.toPi c).sent)
    (frames : List Forwarded)
    (hwired : step.2.flatMap ServerEvent.wired = frames.flatMap Forwarded.bytes)
    (hstands : ∀ c, Stands abi (stack c) (step.1.workers c) (toPi c).read
      (servedTo c (arrived ++ coming) ++ servedTo c frames)) :
    let r := System.afterPi { s with toPi := toPi, fromArduino := fromArduino } step
    Ordered abi stack r.1 (history ++ r.2) arrived (coming ++ frames) := by
  intro r
  have harduino : r.2.filterMap SystemEvent.arduino? = [] := arduino?_pi step.2
  have hmessages (c : Conn) : messagesSent c r.2 = [] := by
    rw [messagesSent]
    exact congrArg (List.filterMap Client.LinkEvent.sent?) (laptop?_pi c step.2)
  refine ⟨h.between, ?_, ?_, fun c => ?_, fun c => ?_⟩
  · have hpush := h.line.push frames
    rw [← hwired] at hpush
    exact hpush
  · rw [ordersHandled_quiet harduino, h.handled]
  · rw [← List.append_assoc, servedTo_append]
    exact hstands c
  · rw [messagesSent_append, hmessages, List.append_nil, ← h.sent]
    exact hsent c

theorem Ordered.interrupt (h : Ordered abi stack s history arrived coming)
    (step : Firmware × List Event) (huart : step.1.uart = s.arduino.uart) (hnone : step.2.filterMap Event.order? = []) :
    let r := s.afterArduino step
    Ordered abi stack r.1 (history ++ r.2) arrived coming := by
  intro r
  have hmessages (c : Conn) : messagesSent c r.2 = [] := by
    rw [messagesSent]
    exact congrArg (List.filterMap Client.LinkEvent.sent?) (laptop?_arduino c step.2)
  have hhandled : ordersHandled r.2 = [] := by
    rw [ordersHandled, show r.2.filterMap SystemEvent.arduino? = _ from arduino?_arduino step.2]
    exact hnone
  refine ⟨?_, ?_, ?_, h.stands, fun c => ?_⟩
  · show step.1.uart.assembler.Between
    rw [huart]
    exact h.between
  · show s.toArduino.Carries _ step.1.uart.assembler.pending _ _
    rw [huart]
    exact h.line
  · rw [ordersHandled_append, hhandled, List.append_nil, h.handled]
  · rw [messagesSent_append, hmessages, List.append_nil, ← h.sent]
    rfl

theorem Ordered.loop (h : Ordered abi stack s history arrived coming) {len : Nat}
    (hshort : len ≤ packetSize) (input : LoopInput) :
    let r := s.loop len input
    ∃ arrived' coming', Ordered abi stack r.1 (history ++ r.2) arrived' coming' := by
  intro r
  have hmessages (c : Conn) : messagesSent c r.2 = [] := by
    rw [messagesSent]
    exact congrArg (List.filterMap Client.LinkEvent.sent?) (laptop?_arduino c _)
  have hsent (c : Conn) : (r.1.toPi c).sent = messagesSent c (history ++ r.2) := by
    rw [messagesSent_append, hmessages, List.append_nil, ← h.sent]
    rfl
  have hhandled : ordersHandled r.2 = (s.arduino.loop { input with
      bytes := s.toArduino.waiting.take len }).2.filterMap Event.order? :=
    congrArg (List.filterMap Event.order?) (arduino?_arduino _)
  obtain ⟨hb, ⟨hline, hevents⟩ | ⟨x, later, rfl, hline, hevents⟩⟩ :=
    loop_line h.between h.line hshort input
  · refine ⟨arrived, coming, hb, hline, ?_, h.stands, hsent⟩
    rw [ordersHandled_append, hhandled, hevents, order?_check, List.append_nil, h.handled]
  · have hshift : arrived ++ [x] ++ later = arrived ++ x :: later := List.append_cons .. |>.symm
    refine ⟨arrived ++ [x], later, hb, hline, ?_, fun c => ?_, hsent⟩
    · rw [ordersHandled_append, hhandled, hevents, List.filterMap_append, order?_reactTo,
        order?_check, List.append_nil, h.handled, served_append, List.map_append]
    · rw [hshift]
      exact h.stands c

end

/-! ## Runs -/

theorem Outcome.read_cases {outcome : Outcome} {channel channel' : Channel (List UInt8)}
    {bytes : Option (List UInt8)} (h : outcome.read channel = some (bytes, channel')) :
    (∃ m rest, channel.waiting = m :: rest ∧ bytes = some m ∧ channel' = channel.pop 1) ∨
      (bytes = none ∨ bytes = some []) ∧ channel' = channel := by
  cases outcome with
  | message =>
      obtain ⟨m, hm, heq⟩ := Option.map_eq_some_iff.mp h
      obtain ⟨rest, hrest⟩ := List.head?_eq_some_iff.mp hm
      obtain ⟨rfl, rfl⟩ := Prod.mk.inj heq
      exact .inl ⟨m, rest, hrest, rfl, rfl⟩
  | closed =>
      obtain ⟨rfl, rfl⟩ := Prod.mk.inj (Option.some.inj h)
      exact .inr ⟨.inr rfl, rfl⟩
  | error =>
      obtain ⟨rfl, rfl⟩ := Prod.mk.inj (Option.some.inj h)
      exact .inr ⟨.inl rfl, rfl⟩

section
variable {abi : DataModel} {stack : Conn → Nat → UInt8} {s : System}
  {history : List SystemEvent} {arrived coming : List Forwarded}

theorem Ordered.worker (h : Ordered abi stack s history arrived coming)
    (hlen : ∀ c, ∀ m ∈ (s.toPi c).sent, m.length = abi.sizeofPointer) (conn : Conn)
    (outcome : Outcome) (commandPacket : TPacket) (comms : Nat → UInt8) :
    let r := s.worker conn outcome commandPacket comms
    ∃ arrived' coming', Ordered abi stack r.1 (history ++ r.2) arrived' coming' := by
  intro r
  -- the worker and its step, when there is one
  have hmoves {input : NetworkInput} {toPi : Conn → Channel (List UInt8)}
      {w : Worker} (hw : s.pi.workers conn = some w)
      (hsent : ∀ c, (toPi c).sent = (s.toPi c).sent)
      (hother : ∀ c, c ≠ conn → (toPi c).read = (s.toPi c).read)
      (frames : List Forwarded) (orders : List Order)
      (hwired : (w.step conn s.pi.globals input commandPacket comms).2.2.flatMap
        ServerEvent.wired = frames.flatMap Forwarded.bytes)
      (hserved : served frames = orders.map fun o => (conn, o))
      (hstands : Stands abi (stack conn)
        (some (w.step conn s.pi.globals input commandPacket comms).2.1) (toPi conn).read
        (servedTo conn (arrived ++ coming) ++ orders)) :
      let r := System.afterPi { s with toPi := toPi }
        (server.step s.pi (.worker conn input commandPacket comms))
      ∃ arrived' coming', Ordered abi stack r.1 (history ++ r.2) arrived' coming' := by
    have hstep : server.step s.pi (.worker conn input commandPacket comms) =
        ({ s.pi.setWorker conn (w.step conn s.pi.globals input commandPacket comms).2.1 with
            globals := (w.step conn s.pi.globals input commandPacket comms).1 },
          (w.step conn s.pi.globals input commandPacket comms).2.2) := by
      simp only [server, hw]
    rw [hstep]
    refine ⟨_, _, h.pi s.fromArduino hsent frames hwired fun c => ?_⟩
    rw [servedTo_eq hserved]
    by_cases hc : c = conn
    · subst hc
      rw [if_pos rfl]
      show Stands abi (stack c) ((s.pi.setWorker c _).workers c) _ _
      rw [Server.setWorker_self]
      exact hstands
    · rw [if_neg hc, List.append_nil, hother c hc]
      show Stands abi (stack c) ((s.pi.setWorker conn _).workers c) _ _
      rw [Server.setWorker_of_ne _ hc]
      exact h.stands c
  have hsame (c : Conn) : (s.toPi c).sent = (s.toPi c).sent := rfl
  -- a read that does not take a message, or no read
  have hgoes {input : NetworkInput} {w : Worker} (hw : s.pi.workers conn = some w)
      (hinput : w.pc = .read → input = none ∨ input = deliver []) :
      let r := System.afterPi { s with toPi := s.toPi }
        (server.step s.pi (.worker conn input commandPacket comms))
      ∃ arrived' coming', Ordered abi stack r.1 (history ++ r.2) arrived' coming' := by
    have hstands := h.stands conn
    rw [hw] at hstands
    obtain ⟨frames, orders, hwired, hserved, hnext⟩ :=
      hstands.goesOn hinput conn s.pi.globals commandPacket comms
    exact hmoves hw hsame (fun _ _ => rfl) frames orders hwired hserved hnext
  cases hw : s.pi.workers conn with
  | none =>
      have hr : r = s.afterPi (s.pi, []) := by
        show s.worker conn outcome commandPacket comms = _
        simp only [System.worker, hw, Option.map_none, reduceCtorEq, if_false, server]
      rw [hr]
      refine ⟨_, _, h.pi s.fromArduino hsame [] rfl fun c => ?_⟩
      exact (List.append_nil _).symm ▸ h.stands c
  | some w =>
      by_cases hpc : w.pc = .read
      · have hread : (s.pi.workers conn).map Worker.pc = some .read := by
          rw [hw, Option.map_some, hpc]
        cases ho : outcome.read (s.toPi conn) with
        | none =>
            have hr : r = (s, []) := System.worker_waits hread ho
            refine ⟨arrived, coming, ?_⟩
            rw [hr, List.append_nil]
            exact h
        | some pair =>
            obtain ⟨bytes, channel⟩ := pair
            have hr : r = System.afterPi { s with toPi := Function.update s.toPi conn channel }
                (server.step s.pi (.worker conn (bytes.bind deliver) commandPacket comms)) :=
              System.worker_reads hread ho
            rw [hr]
            rcases Outcome.read_cases ho with ⟨m, rest, hm, rfl, rfl⟩ | ⟨hbytes, rfl⟩
            · have hmem : m ∈ (s.toPi conn).sent :=
                mem_of_mem_waiting (hm ▸ List.mem_cons_self)
              have hstands := h.stands conn
              rw [hw] at hstands
              obtain ⟨hwired, hnext⟩ := hstands.reads hpc (hlen conn m hmem) conn s.pi.globals
                commandPacket comms
              refine hmoves hw (fun c => ?_) (fun c hc => ?_) [] [] hwired rfl ?_
              · by_cases hc : c = conn
                · rw [hc, Function.update_self, sent_pop]
                · rw [Function.update_of_ne hc]
              · rw [Function.update_of_ne hc]
              · rw [Function.update_self, read_pop_one hm, List.append_nil]
                exact hnext
            · have hupdate : Function.update s.toPi conn (s.toPi conn) = s.toPi :=
                Function.update_eq_self ..
              simp only [hupdate]
              refine hgoes hw fun _ => ?_
              rcases hbytes with rfl | rfl
              · exact .inl rfl
              · exact .inr rfl
      · have hr : r = s.afterPi (server.step s.pi (.worker conn none commandPacket comms)) := by
          refine if_neg fun hread => hpc ?_
          rw [hw, Option.map_some] at hread
          exact Option.some.inj hread
        rw [hr]
        exact hgoes hw fun hc => absurd hc hpc

theorem Ordered.other (h : Ordered abi stack s history arrived coming)
    (fromArduino : Channel UInt8) {step : Server × List ServerEvent}
    (hworkers : ∀ c, step.1.workers c = s.pi.workers c) (frames : List Forwarded)
    (hwired : step.2.flatMap ServerEvent.wired = frames.flatMap Forwarded.bytes)
    (hnone : served frames = []) :
    let r := System.afterPi { s with fromArduino := fromArduino } step
    ∃ arrived' coming', Ordered abi stack r.1 (history ++ r.2) arrived' coming' := by
  refine ⟨_, _, h.pi fromArduino (fun _ => rfl) frames hwired fun c => ?_⟩
  rw [servedTo, servedTo, hnone, List.filter_nil, List.map_nil, List.append_nil, hworkers]
  exact h.stands c

/-- **Step.**  Whatever the system does. -/
theorem Ordered.step (h : Ordered abi stack s history arrived coming)
    (hlen : ∀ c, ∀ m ∈ (s.toPi c).sent, m.length = abi.sizeofPointer) {action : SystemAction}
    (hshort : action.Short) :
    let r := (system abi stack).step s action
    ∃ arrived' coming', Ordered abi stack r.1 (history ++ r.2) arrived' coming' := by
  cases action with
  | reader conn outcome =>
      show ∃ arrived' coming', Ordered abi stack (s.reader abi conn outcome).1 _ arrived' coming'
      simp only [system, System.reader]
      split
      · split
        · exact ⟨_, _, h.laptop _ conn _⟩
        · refine ⟨arrived, coming, ?_⟩
          rw [List.append_nil]
          exact h
      · exact ⟨_, _, h.laptop s.toLaptop conn _⟩
  | writer conn input =>
      show ∃ arrived' coming', Ordered abi stack (s.writer abi conn input).1 _ arrived' coming'
      simp only [system, System.writer]
      split
      · refine ⟨arrived, coming, ?_⟩
        rw [List.append_nil]
        exact h
      · exact ⟨_, _, h.laptop s.toLaptop conn _⟩
  | main helloPacket comms =>
      simp only [system, server]
      split
      · exact h.other s.fromArduino (fun _ => rfl) [] rfl rfl
      · exact h.other s.fromArduino (fun _ => rfl) [.hello helloPacket comms] rfl rfl
      · exact h.other s.fromArduino (fun _ => rfl) [] rfl rfl
  | connect conn =>
      simp only [system, server]
      split
      · rename_i hnew
        have hnone : s.pi.workers conn = none := Option.isNone_iff_eq_none.mp hnew.2
        refine ⟨_, _, h.pi s.fromArduino (fun _ => rfl) [] rfl fun c => ?_⟩
        rw [show servedTo c [] = [] from rfl, List.append_nil]
        by_cases hc : c = conn
        · subst hc
          have hstands := h.stands c
          rw [hnone] at hstands
          show Stands abi (stack c) ((s.pi.setWorker c _).workers c) _ _
          rw [Server.setWorker_self]
          exact ⟨hstands.orders_eq, fun w hw i _ => Option.some.inj hw ▸ rfl⟩
        · show Stands abi (stack c) ((s.pi.setWorker conn _).workers c) _ _
          rw [Server.setWorker_of_ne _ hc]
          exact h.stands c
      · exact h.other s.fromArduino (fun _ => rfl) [] rfl rfl
  | worker conn outcome commandPacket comms =>
      exact h.worker hlen conn outcome commandPacket comms
  | uart len count =>
      have hquiet (input : SerialInput) :
          (server.step s.pi (.uart input count)).2.flatMap ServerEvent.wired = [] := by
        have hstep := Receiver.step_step s.pi.globals s.pi.receiver input count
        show (s.pi.receiver.step s.pi.globals input count).2.2.flatMap ServerEvent.wired = []
        generalize s.pi.receiver.step s.pi.globals input count = r at hstep ⊢
        cases hstep <;> rfl
      show ∃ arrived' coming', Ordered abi stack (s.uart len count).1 _ arrived' coming'
      simp only [system, System.uart]
      split
      · exact h.other _ (fun _ => rfl) [] (hquiet _) rfl
      · exact h.other s.fromArduino (fun _ => rfl) [] (hquiet _) rfl
  | int0 => exact ⟨_, _, h.interrupt _ rfl rfl⟩
  | int1 => exact ⟨_, _, h.interrupt _ rfl rfl⟩
  | loop len input => exact h.loop hshort input

end

section
variable (abi : DataModel) (stack : Conn → Nat → UInt8) (vincentCirc : ℚ)
  (laptop : Conn → Nat → UInt8) (pi arduino : Boot) (actions : List SystemAction)

/-- **Run.**  After whatever run of short reads. -/
theorem ordered_final (hshort : ∀ a ∈ actions, a.Short) : ∃ arrived coming, Ordered abi stack
    ((system abi stack).final (.initial vincentCirc laptop pi arduino) actions)
    ((system abi stack).trace (.initial vincentCirc laptop pi arduino) actions) arrived coming := by
  induction actions using List.reverseRecOn with
  | nil => exact ⟨[], [], ordered_initial abi stack vincentCirc laptop pi arduino⟩
  | append_singleton actions action ih =>
      obtain ⟨arrived, coming, h⟩ := ih fun a ha => hshort a (List.mem_append_left _ ha)
      rw [Mealy.final_concat, Mealy.trace_concat]
      refine h.step (fun c m hm => ?_)
        (hshort action (List.mem_append_right _ (List.mem_singleton_self _)))
      rw [h.sent] at hm
      obtain ⟨ch, params, rfl⟩ :=
        messagesSent_eq abi stack vincentCirc laptop pi arduino actions c m hm
      exact length_take_commandBuffer abi ch params

end

theorem bytes_ne_nil (x : Forwarded) : x.bytes ≠ [] := by
  intro h
  have hlen := congrArg List.length h
  rw [Forwarded.bytes, Incoming.length_bytes] at hlen
  exact absurd hlen (by decide)

section
variable {abi : DataModel} {stack : Conn → Nat → UInt8} {s : System}
  {history : List SystemEvent} {arrived coming : List Forwarded}

end

/-- An order that the Pi finds in a message is that of the letter in it. -/
theorem letter_of_orderIn {buffer : Nat → UInt8} {o : Order} (h : orderIn buffer = some o) :
    ∃ (a : Letter) (upper : Bool), buffer 1 = a.key upper ∧ o.command = a.command ∧
      o.p0 = (if a = .c then 0 else Bytes.word buffer 2) ∧ o.p1 = Bytes.word buffer 6 := by
  rw [orderIn] at h
  split at h
  · obtain ⟨packet, hpacket, ho⟩ := Option.bind_eq_some_iff.mp h
    obtain ⟨a, upper, ha⟩ := isLetter_of_handleCommand hpacket
    obtain ⟨p, hp, -, hc, h₀, h₁⟩ := handleCommand_key a upper .zeroes ha
    obtain rfl := Option.some.inj (hp.symm.trans hpacket)
    rw [TPacket.order?, hc, TCommandType.ofCode?_code] at ho
    obtain rfl := Option.some.inj ho
    exact ⟨a, upper, ha, rfl, h₀, h₁⟩
  · exact nomatch h

section
variable (abi : DataModel) (stack : Conn → Nat → UInt8) (vincentCirc : ℚ)
  (laptop : Conn → Nat → UInt8) (pi arduino : Boot) (actions : List SystemAction)

theorem sent_of_handled (hshort : ∀ a ∈ actions, a.Short) {o : Order}
    (ho : o ∈ ordersHandled
      ((system abi stack).trace (.initial vincentCirc laptop pi arduino) actions)) :
    ∃ (conn : Conn) (a : Letter) (upper : Bool) (params : Params),
      (commandBuffer (a.key upper) params).take abi.sizeofPointer ∈ messagesSent conn
        ((system abi stack).trace (.initial vincentCirc laptop pi arduino) actions) ∧
      orderIn (overlay ((commandBuffer (a.key upper) params).take abi.sizeofPointer)
        (stack conn)) = some o ∧ o.command = a.command := by
  obtain ⟨arrived, coming, h⟩ :=
    ordered_final abi stack vincentCirc laptop pi arduino actions hshort
  rw [h.handled] at ho
  obtain ⟨⟨conn, o⟩, hserved, rfl⟩ := List.mem_map.mp ho
  have hline : (conn, o) ∈ served (arrived ++ coming) := by
    rw [served_append]
    exact List.mem_append_left _ hserved
  have hto : o ∈ servedTo conn (arrived ++ coming) :=
    List.mem_map.mpr ⟨_, List.mem_filter.mpr ⟨hline, by simp⟩, rfl⟩
  have hread : o ∈ ordersOf (stack conn) (((system abi stack).final
      (.initial vincentCirc laptop pi arduino) actions).toPi conn).read :=
    (h.stands conn).orders_eq ▸ List.mem_append_left _ hto
  obtain ⟨m, hm, horder⟩ := List.mem_filterMap.mp hread
  have hsent := mem_of_mem_read hm
  rw [h.sent] at hsent
  obtain ⟨ch, params, rfl⟩ :=
    messagesSent_eq abi stack vincentCirc laptop pi arduino actions conn m hsent
  obtain ⟨a, upper, hkey, hcommand, -, -⟩ := letter_of_orderIn horder
  have hle := sizeofPointer_le abi
  obtain rfl : ch = a.key upper := by
    rw [← hkey, overlay, List.getD_eq_getElem?_getD, List.getElem?_take, if_pos (by omega)]
    rfl
  exact ⟨conn, a, upper, params, hsent, horder, hcommand⟩

end

/-- **Wheels.**  Where no read of the line exceeds `PACKET_SIZE`: if a wheel of the robot is
driven, some laptop has sent the letter of a movement, that movement is the last thing that
happened to the motors, and their registers hold what it writes. -/
theorem wheels_turn_on_order (abi : DataModel) (stack : Conn → Nat → UInt8) (vincentCirc : ℚ)
    (laptop : Conn → Nat → UInt8) (pi arduino : Boot) (actions : List SystemAction)
    (hshort : ∀ a ∈ actions, a.Short) :
    let start := System.initial vincentCirc laptop pi arduino
    let s := (system abi stack).final start actions
    let history := (system abi stack).trace start actions
    s.arduino.robot.motors = .off ∨ ∃ (conn : Conn) (a : Letter) (upper : Bool) (params : Params)
        (o : Order),
      (commandBuffer (a.key upper) params).take abi.sizeofPointer ∈ messagesSent conn history ∧
      orderIn (overlay ((commandBuffer (a.key upper) params).take abi.sizeofPointer)
        (stack conn)) = some o ∧
      o.command = a.command ∧ a.command.isMovement = true ∧
      lastMotorEvent (history.filterMap SystemEvent.arduino?) =
        some (.handled o.command o.p0 o.p1) ∧
      s.arduino.robot.motors = written o.command o.p0 o.p1 := by
  intro start s history
  obtain ⟨inputs, hfinal, htrace⟩ := arduino_runs abi stack start actions
  have hmotors : s.arduino.robot.motors =
      explained (lastMotorEvent (history.filterMap SystemEvent.arduino?)) := by
    rw [show s.arduino = _ from hfinal, motors_final, show history.filterMap _ = _ from htrace,
      ← foldl_follow]
    rfl
  cases hlast : lastMotorEvent (history.filterMap SystemEvent.arduino?) with
  | none => exact .inl (by rw [hmotors, hlast]; rfl)
  | some e =>
      cases e with
      | autoStop dir => exact .inl (by rw [hmotors, hlast]; rfl)
      | sent frame => exact .inl (by rw [hmotors, hlast]; rfl)
      | idle => exact .inl (by rw [hmotors, hlast]; rfl)
      | handled c p0 p1 =>
          rw [hlast, explained] at hmotors
          cases hc : c.isMovement with
          | false => exact .inl (by rw [hmotors, hc]; rfl)
          | true =>
              rw [hc, if_pos rfl] at hmotors
              -- the order has been handled, so it has been sent
              have hmem : Event.handled c p0 p1 ∈ history.filterMap SystemEvent.arduino? :=
                (List.mem_filter.mp (List.mem_of_getLast? hlast)).1
              have hhandled : (⟨c, p0, p1⟩ : Order) ∈ ordersHandled history :=
                List.mem_filterMap.mpr ⟨_, hmem, rfl⟩
              obtain ⟨conn, a, upper, params, hsent, horder, hcommand⟩ :=
                sent_of_handled abi stack vincentCirc laptop pi arduino actions hshort hhandled
              refine .inr ⟨conn, a, upper, params, ⟨c, p0, p1⟩, hsent, horder, hcommand, ?_, rfl,
                hmotors⟩
              rw [← hcommand]
              exact hc

theorem wheels_turn_on_order_forward :
    let start := System.initial (14072823 / 262144) (fun _ _ => 0) .cleared .cleared
    let s := (system .lp64 fun _ _ => 0).final start (SystemAction.oneCommand 0x66 ⟨50, 100⟩)
    let history := (system .lp64 fun _ _ => 0).trace start
      (SystemAction.oneCommand 0x66 ⟨50, 100⟩)
    s.arduino.robot.motors = written .forward 50 100 ∧ (s.arduino.robot.motors = .off ∨
      ∃ (conn : Conn) (a : Letter) (upper : Bool) (params : Params) (o : Order),
        (commandBuffer (a.key upper) params).take DataModel.lp64.sizeofPointer ∈
          messagesSent conn history ∧
        orderIn (overlay ((commandBuffer (a.key upper) params).take DataModel.lp64.sizeofPointer)
          fun _ => 0) = some o ∧
        o.command = a.command ∧ a.command.isMovement = true ∧
        lastMotorEvent (history.filterMap SystemEvent.arduino?) =
          some (.handled o.command o.p0 o.p1) ∧
        s.arduino.robot.motors = written o.command o.p0 o.p1) :=
  ⟨by decide +kernel, wheels_turn_on_order .lp64 (fun _ _ => 0) (14072823 / 262144)
    (fun _ _ => 0) .cleared .cleared (SystemAction.oneCommand 0x66 ⟨50, 100⟩) short_oneCommand⟩

end Alex
