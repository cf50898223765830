/-
# `Alex.Answers` — from the wheels back to the screens

What the Arduino answers, the Pi relays and the laptops show, over all runs of the
system; the other half of `Alex.Orders`.

    orders handled  →  packets sent  →  packets relayed  →  messages read  →  displays
                    one by one       some of them, to      some of them       some of them
                                     some laptop

On every arrow something may be lost, nothing changes places, and nothing comes twice.
An answer may go to a laptop that has not asked: it goes to the one that is served last.
-/
import Alex.Leak
import Alex.Orders
import Mathlib.Data.List.Forall2

namespace Alex

open Cells Channel
open scoped List

/-! ## What the Arduino answers -/

def framesSent (history : List SystemEvent) : List (List UInt8) :=
  sentFrames (history.filterMap SystemEvent.arduino?)

theorem framesSent_append (history events : List SystemEvent) :
    framesSent (history ++ events) = framesSent history ++ framesSent events := by
  rw [framesSent, List.filterMap_append, sentFrames_append]
  rfl

theorem framesSent_quiet {events : List SystemEvent}
    (h : events.filterMap SystemEvent.arduino? = []) (history : List SystemEvent) :
    framesSent (history ++ events) = framesSent history := by
  have hnone : framesSent events = [] := by
    rw [framesSent, h]
    rfl
  rw [framesSent_append, hnone, List.append_nil]

def Order.replies (o : Order) : List TResponseType :=
  match o.command with
  | .getStats => [.status, .ok]
  | .forward | .reverse | .turnLeft | .turnRight | .stop | .clearStats => [.ok]

def TResponseType.kind (t : TResponseType) : UInt8 × UInt8 := (TPacketType.response.code, t.code)

def TPacket.kind (p : TPacket) : UInt8 × UInt8 := (p.packetType, p.command)

/-- The responses are those to the orders, in order. -/
def Replies (orders : List Order) (responses : List Response) : Prop :=
  responses.map (fun r => r.2.kind) = (orders.flatMap Order.replies).map TResponseType.kind

theorem Replies.append {orders orders' : List Order} {responses responses' : List Response}
    (h : Replies orders responses) (h' : Replies orders' responses') :
    Replies (orders ++ orders') (responses ++ responses') := by
  rw [Replies, List.map_append, h, h', List.flatMap_append, List.map_append]

theorem exists_acknowledge (r : Robot) (input : LoopInput) (o : Order) :
    ∃ responses : List Response, r.acknowledge input o.command = responses.map Response.frame ∧
      Replies [o] responses := by
  have hok : ∃ responses : List Response, [sendOK input.first] = responses.map Response.frame ∧
      responses.map (fun r => r.2.kind) = [TResponseType.kind .ok] :=
    ⟨[(input.first, Reply.ok.packet input.first.packet)], rfl, rfl⟩
  obtain ⟨command, p0, p1⟩ := o
  cases command with
  | getStats =>
      exact ⟨[(input.first, (Reply.status r).packet input.first.packet),
        (input.second, Reply.ok.packet input.second.packet)], rfl, rfl⟩
  | forward => exact hok
  | reverse => exact hok
  | turnLeft => exact hok
  | turnRight => exact hok
  | stop => exact hok
  | clearStats => exact hok

theorem replies_reactTo (r : Robot) (input : LoopInput) (x : Forwarded) :
    ∃ responses : List Response,
      sentFrames (r.reactTo input x.bytes).2 = responses.map Response.frame ∧
      Replies ((r.reactTo input x.bytes).2.filterMap Event.order?) responses := by
  cases x with
  | hello helloPacket comms =>
      show ∃ responses : List Response, sentFrames (r.reactTo input (serialize comms _)).2 = _ ∧
        Replies ((r.reactTo input (serialize comms _)).2.filterMap Event.order?) responses
      rw [Robot.reactTo_serialize]
      exact ⟨[], rfl, rfl⟩
  | command conn commandPacket comms buffer packet forwarded =>
      obtain ⟨ht, c, hc⟩ := handleCommand_some forwarded
      obtain ⟨responses, hframes, hreplies⟩ :=
        exists_acknowledge r input ⟨c, packet.params 0, packet.params 1⟩
      refine ⟨responses, ?_, ?_⟩
      · show sentFrames (r.reactTo input (serialize comms packet.bytes)).2 = _
        rw [Robot.reactTo_serialize, Robot.handlePacket_command ht hc, sentFrames_append,
          sentFrames_map, ← hframes]
        exact List.append_nil _
      · show Replies ((r.reactTo input (serialize comms packet.bytes)).2.filterMap Event.order?) _
        rw [Robot.reactTo_serialize, Robot.handlePacket_command ht hc, List.filterMap_append,
          order?_sent]
        exact hreplies

section
variable {abi : DataModel} {stack : Conn → Nat → UInt8} {s : System}
  {history : List SystemEvent} {arrived coming : List Forwarded}

theorem Ordered.loop_replies (h : Ordered abi stack s history arrived coming) {len : Nat}
    (hshort : len ≤ packetSize) (input : LoopInput) :
    let r := s.loop len input
    ∃ responses : List Response, framesSent r.2 = responses.map Response.frame ∧
      Replies (ordersHandled r.2) responses := by
  intro r
  have harduino : r.2.filterMap SystemEvent.arduino? = (s.arduino.loop { input with
      bytes := s.toArduino.waiting.take len }).2 := arduino?_arduino _
  rw [framesSent, ordersHandled, harduino]
  obtain ⟨-, ⟨-, hevents⟩ | ⟨x, later, -, -, hevents⟩⟩ := loop_line h.between h.line hshort input
  · rw [hevents, sentFrames_check, order?_check]
    exact ⟨[], rfl, rfl⟩
  · rw [hevents, sentFrames_append, sentFrames_check, List.append_nil, List.filterMap_append,
      order?_check, List.append_nil]
    exact replies_reactTo ..

end

/-! ## What the Pi relays -/

/-- What is written to a connection, and to which. -/
def ServerEvent.relayed? : ServerEvent → Option (Conn × List UInt8)
  | .sslWrite conn data count => if count > 0 then conn.map fun conn => (conn, data) else none
  | .connected _ | .entered _ | .left _ | .sslRead _ _ | .assigned _ _ | .uartSent _
  | .freed _ => none

theorem sentTo?_eq (conn : Conn) (events : List ServerEvent) :
    events.filterMap (ServerEvent.sentTo? conn) =
      ((events.filterMap ServerEvent.relayed?).filter fun w => w.1 = conn).map Prod.snd := by
  induction events with
  | nil => rfl
  | cons e events ih =>
      rw [List.filterMap_cons, List.filterMap_cons, ih]
      cases e with
      | sslWrite c data count =>
          by_cases hcount : count > 0
          · cases c with
            | none => simp [ServerEvent.sentTo?, ServerEvent.relayed?, hcount]
            | some c =>
                by_cases hc : c = conn <;>
                  simp [ServerEvent.sentTo?, ServerEvent.relayed?, hcount, hc]
          · simp [ServerEvent.sentTo?, ServerEvent.relayed?, hcount]
      | connected c => rfl
      | entered c => rfl
      | left c => rfl
      | sslRead c len => rfl
      | assigned source value => rfl
      | uartSent bytes => rfl
      | freed c => rfl

/-- What the Pi has written, and to whom. -/
def writesOf (history : List SystemEvent) : List (Conn × List UInt8) :=
  (history.filterMap SystemEvent.pi?).filterMap ServerEvent.relayed?

theorem writesOf_append (history events : List SystemEvent) :
    writesOf (history ++ events) = writesOf history ++ writesOf events := by
  rw [writesOf, List.filterMap_append, List.filterMap_append]
  rfl

theorem writesOf_quiet {events : List SystemEvent}
    (h : events.filterMap SystemEvent.pi? = []) (history : List SystemEvent) :
    writesOf (history ++ events) = writesOf history := by
  have hnone : writesOf events = [] := by
    rw [writesOf, h]
    rfl
  rw [writesOf_append, hnone, List.append_nil]

/-- What the UART thread is about to write. -/
def ReceiverPc.data? : ReceiverPc → Option (List UInt8)
  | .testActive data | .testConn data | .load data | .write _ data => some data
  | .receive | .assign _ _ => none

/-- The ways in which the UART thread loses what it is about to write: the network is not
active, there is no connection, or the write fails. -/
inductive Receiver.Loses (g : Globals) (r : Receiver) (count : Int) : Prop
  | inactive (data : List UInt8) : r.pc = .testActive data → g.networkActive = false →
      Loses g r count
  | noConn (data : List UInt8) : r.pc = .testConn data → g.tlsConn = none → Loses g r count
  | toNobody (data : List UInt8) : r.pc = .write none data → Loses g r count
  | fails (conn : Option Conn) (data : List UInt8) : r.pc = .write conn data → count ≤ 0 →
      Loses g r count

/-- **Step.**  The UART thread that is not receiving goes on with what it is about to
write, loses it, or writes it. -/
theorem Receiver.step_relays (g : Globals) (r : Receiver) (input : SerialInput) (count : Int)
    (hpc : r.pc ≠ .receive) :
    let next := r.step g input count
    next.2.1.uart = r.uart ∧
      (next.2.2.filterMap ServerEvent.relayed? = [] ∧
          (next.2.1.pc.data? = r.pc.data? ∨ next.2.1.pc.data? = none ∧ r.Loses g count) ∨
        ∃ conn data, r.pc = .write (some conn) data ∧ next.2.1.pc.data? = none ∧
          next.2.2.filterMap ServerEvent.relayed? = [(conn, data)]) := by
  obtain ⟨pc, uart⟩ := r
  cases pc with
  | receive => exact absurd rfl hpc
  | testActive data =>
      obtain ⟨active, tlsConn⟩ := g
      cases active with
      | false => exact ⟨rfl, .inl ⟨rfl, .inr ⟨rfl, .inactive data rfl rfl⟩⟩⟩
      | true => exact ⟨rfl, .inl ⟨rfl, .inl rfl⟩⟩
  | testConn data =>
      obtain ⟨active, tlsConn⟩ := g
      cases tlsConn with
      | none => exact ⟨rfl, .inl ⟨rfl, .inr ⟨rfl, .noConn data rfl rfl⟩⟩⟩
      | some conn => exact ⟨rfl, .inl ⟨rfl, .inl rfl⟩⟩
  | load data => exact ⟨rfl, .inl ⟨rfl, .inl rfl⟩⟩
  | write conn data =>
      by_cases hcount : count > 0
      · cases conn with
        | none =>
            refine ⟨rfl, .inl ⟨?_, .inr ⟨rfl, .toNobody data rfl⟩⟩⟩
            simp [step, ServerEvent.relayed?]
        | some conn =>
            refine ⟨rfl, .inr ⟨conn, data, rfl, rfl, ?_⟩⟩
            simp [step, ServerEvent.relayed?, hcount]
      · refine ⟨rfl, .inl ⟨?_, .inr ⟨rfl, .fails conn data rfl (Int.not_lt.mp hcount)⟩⟩⟩
        simp [step, ServerEvent.relayed?, hcount]
  | assign source count' => exact ⟨rfl, .inl ⟨rfl, .inl rfl⟩⟩

theorem relayed?_of_not_uart (s : Server) {a : Action} (ha : ∀ input count, a ≠ .uart input count) :
    (server.step s a).1.receiver = s.receiver ∧
      (server.step s a).2.filterMap ServerEvent.relayed? = [] := by
  refine ⟨(receiver_step s a).resolve_left fun ⟨input, count, h⟩ => ha input count h, ?_⟩
  rw [List.filterMap_eq_nil_iff]
  intro e he
  cases server_emits he with
  | starts _ _ _ => rfl
  | greets _ _ _ => rfl
  | accepts _ _ _ => rfl
  | enters _ _ _ _ _ _ _ _ => rfl
  | leaves _ _ _ _ _ _ _ _ => rfl
  | reads _ _ _ _ _ _ _ _ => rfl
  | takes _ _ _ _ _ _ _ _ => rfl
  | forwards _ _ _ _ _ _ _ _ => rfl
  | frees _ _ _ _ _ _ _ => rfl
  | writes input _ _ _ _ _ => exact absurd rfl (ha input _)
  | assigns _ _ _ _ _ => rfl

theorem handleUARTPacket_of_replies {orders : List Order} {responses : List Response}
    (h : Replies orders responses) {r : Response} (hr : r ∈ responses) :
    ∃ data, handleUARTPacket r.2 = some data := by
  have hkind : r.2.kind ∈ (orders.flatMap Order.replies).map TResponseType.kind := by
    rw [← h]
    exact List.mem_map_of_mem hr
  obtain ⟨t, ht, hkind⟩ := List.mem_map.mp hkind
  obtain ⟨htype, hcode⟩ := Prod.mk.inj hkind
  obtain ⟨o, -, ho⟩ := List.mem_flatMap.mp ht
  have hcases : t = .status ∨ t = .ok := by
    rw [Order.replies] at ho
    split at ho <;> simp_all
  rw [handleUARTPacket, ← htype, TPacketType.ofCode?_code]
  rcases hcases with rfl | rfl
  · exact ⟨handleStatus r.2, by simp [handleResponse, ← hcode, TResponseType.code]⟩
  · exact ⟨[TNetConstants.errorPacket.code, TResponseType.ok.code],
      by simp [handleResponse, ← hcode]⟩

def relaysTo (conn : Conn) (relays : List (Conn × TPacket)) : List TPacket :=
  (relays.filter fun x => x.1 = conn).map Prod.snd

/-- A packet that is relayed, and the write that relays it. -/
def Relays (x : Conn × TPacket) (w : Conn × List UInt8) : Prop :=
  x.1 = w.1 ∧ handleUARTPacket x.2 = some w.2

theorem relaysTo_writes {relays : List (Conn × TPacket)} {writes : List (Conn × List UInt8)}
    (h : List.Forall₂ Relays relays writes) (conn : Conn) :
    List.Forall₂ (fun p m => handleUARTPacket p = some m) (relaysTo conn relays)
      ((writes.filter fun w => w.1 = conn).map Prod.snd) := by
  have hfilter := List.rel_filter (p := fun x : Conn × TPacket => x.1 = conn)
    (q := fun w : Conn × List UInt8 => w.1 = conn) (fun x w hxw => by simp [hxw.1]) h
  exact List.rel_map (fun _ _ hxw => hxw.2) hfilter

/-- What has become of the packets that have arrived at the Pi: some have been relayed, and
one may be about to be.  If nothing has been lost (`ok`), these are all. -/
structure Relayed (ok : Prop) (s : System) (history : List SystemEvent)
    (arrived coming : List Response) (relays : List (Conn × TPacket)) (held : Option TPacket) :
    Prop where
  between : s.pi.receiver.uart.assembler.Between
  line : s.fromArduino.Carries Response.frame s.pi.receiver.uart.assembler.pending arrived coming
  frames : framesSent history = (arrived ++ coming).map Response.frame
  replies : Replies (ordersHandled history) (arrived ++ coming)
  held_eq : held.map handleUARTPacket = s.pi.receiver.pc.data?.map some
  sublist : relays.map Prod.snd ++ held.toList <+ arrived.map Prod.snd
  complete : ok → relays.map Prod.snd ++ held.toList = arrived.map Prod.snd
  relayed : List.Forall₂ Relays relays (writesOf history)
  sent : ∀ c, (s.toLaptop c).sent = ((writesOf history).filter fun w => w.1 = c).map Prod.snd

section
variable {ok : Prop} {s : System} {history : List SystemEvent} {arrived coming : List Response}
  {relays : List (Conn × TPacket)} {held : Option TPacket}

theorem Relayed.written (h : Relayed ok s history arrived coming relays held) (c : Conn) :
    List.Forall₂ (fun p m => handleUARTPacket p = some m) (relaysTo c relays)
      (s.toLaptop c).sent := by
  rw [h.sent]
  exact relaysTo_writes h.relayed c

theorem Relayed.laptop (h : Relayed ok s history arrived coming relays held)
    {toLaptop : Conn → Channel (List UInt8)} (hsent : ∀ c, (toLaptop c).sent = (s.toLaptop c).sent)
    (conn : Conn) (step : Client.Threads × List Client.LinkEvent) :
    let r := System.afterLaptop { s with toLaptop := toLaptop } conn step
    Relayed ok r.1 (history ++ r.2) arrived coming relays held := by
  intro r
  have harduino : r.2.filterMap SystemEvent.arduino? = [] := arduino?_laptop conn step.2
  have hpi : r.2.filterMap SystemEvent.pi? = [] := pi?_laptop conn step.2
  refine ⟨h.between, h.line, ?_, ?_, h.held_eq, h.sublist, h.complete, ?_, fun c => ?_⟩
  · rw [framesSent_quiet harduino]
    exact h.frames
  · rw [ordersHandled_quiet harduino]
    exact h.replies
  · rw [writesOf_quiet hpi]
    exact h.relayed
  · rw [writesOf_quiet hpi]
    exact (hsent c).trans (h.sent c)

theorem Relayed.arduino (h : Relayed ok s history arrived coming relays held)
    (toArduino : Channel UInt8) (step : Firmware × List Event) {responses : List Response} :
    let r := System.afterArduino { s with toArduino := toArduino } step
    framesSent r.2 = responses.map Response.frame → Replies (ordersHandled r.2) responses →
    Relayed ok r.1 (history ++ r.2) arrived (coming ++ responses) relays held := by
  intro r hframes hreplies
  have harduino : r.2.filterMap SystemEvent.arduino? = step.2 := arduino?_arduino step.2
  have hpi : r.2.filterMap SystemEvent.pi? = [] := pi?_arduino step.2
  refine ⟨h.between, ?_, ?_, ?_, h.held_eq, h.sublist, h.complete, ?_, fun c => ?_⟩
  · have hpush := h.line.push responses
    rw [List.flatMap_def, ← hframes, framesSent, harduino] at hpush
    exact hpush
  · rw [framesSent_append, h.frames, hframes, ← List.map_append, List.append_assoc]
  · rw [ordersHandled_append, ← List.append_assoc]
    exact h.replies.append hreplies
  · rw [writesOf_quiet hpi]
    exact h.relayed
  · rw [writesOf_quiet hpi]
    exact h.sent c

/-- The Pi moves.  What is held, and what is written, is as before, or one packet has been
written. -/
theorem Relayed.pi (h : Relayed ok s history arrived coming relays held)
    (toPi : Conn → Channel (List UInt8)) {fromArduino : Channel UInt8}
    {step : Server × List ServerEvent} {arrived' coming' : List Response}
    {relays' : List (Conn × TPacket)} {held' : Option TPacket}
    (hbetween : step.1.receiver.uart.assembler.Between)
    (hline : fromArduino.Carries Response.frame step.1.receiver.uart.assembler.pending arrived'
      coming')
    (hall : arrived' ++ coming' = arrived ++ coming)
    (hheld : held'.map handleUARTPacket = step.1.receiver.pc.data?.map some)
    (hsublist : relays'.map Prod.snd ++ held'.toList <+ arrived'.map Prod.snd)
    (hcomplete : ok → relays'.map Prod.snd ++ held'.toList = arrived'.map Prod.snd)
    (hrelayed : List.Forall₂ Relays relays'
      (writesOf history ++ step.2.filterMap ServerEvent.relayed?)) :
    let r := System.afterPi { s with toPi := toPi, fromArduino := fromArduino } step
    Relayed ok r.1 (history ++ r.2) arrived' coming' relays' held' := by
  intro r
  have harduino : r.2.filterMap SystemEvent.arduino? = [] := arduino?_pi step.2
  have hwrites : writesOf (history ++ r.2) =
      writesOf history ++ step.2.filterMap ServerEvent.relayed? := by
    rw [writesOf_append]
    exact congrArg _ (congrArg _ (pi?_pi step.2))
  refine ⟨hbetween, hline, ?_, ?_, hheld, hsublist, hcomplete, ?_, fun c => ?_⟩
  · rw [framesSent_quiet harduino, hall]
    exact h.frames
  · rw [ordersHandled_quiet harduino, hall]
    exact h.replies
  · rw [hwrites]
    exact hrelayed
  · rw [hwrites, List.filter_append, List.map_append, ← h.sent, ← sentTo?_eq]
    rfl

theorem Relayed.relayed_of_nil (h : Relayed ok s history arrived coming relays held)
    {events : List ServerEvent} (hnone : events.filterMap ServerEvent.relayed? = []) :
    List.Forall₂ Relays relays (writesOf history ++ events.filterMap ServerEvent.relayed?) := by
  rw [hnone, List.append_nil]
  exact h.relayed

theorem Relayed.quiet (h : Relayed ok s history arrived coming relays held)
    (toPi : Conn → Channel (List UInt8)) {a : Action} (ha : ∀ input count, a ≠ .uart input count) :
    let r := System.afterPi { s with toPi := toPi } (server.step s.pi a)
    Relayed ok r.1 (history ++ r.2) arrived coming relays held := by
  obtain ⟨hreceiver, hnone⟩ := relayed?_of_not_uart s.pi ha
  refine h.pi toPi ?_ ?_ rfl ?_ h.sublist h.complete (h.relayed_of_nil hnone)
  · rw [hreceiver]
    exact h.between
  · rw [hreceiver]
    exact h.line
  · rw [hreceiver]
    exact h.held_eq

theorem Relayed.receives (h : Relayed ok s history arrived coming relays held)
    (hpc : s.pi.receiver.pc = .receive) {len : Nat} (hshort : len ≤ packetSize) (count : Int) :
    let r := System.afterPi { s with fromArduino := s.fromArduino.pop (min len maxBufferLen) }
      (server.step s.pi (.uart (s.serialInput len) count))
    ∃ arrived' coming' held', Relayed ok r.1 (history ++ r.2) arrived' coming' relays held' := by
  intro r
  obtain rfl : held = none := by
    have hheld := h.held_eq
    rw [hpc] at hheld
    exact Option.map_eq_none_iff.mp hheld
  have hlen : (s.serialInput len).bytes.length ≤ packetSize :=
    (List.length_take_le ..).trans ((Nat.min_le_left ..).trans hshort)
  obtain ⟨hb, ⟨hquiet, hrest⟩ | ⟨x, later, rfl, hok, hpacket, hrest⟩⟩ :=
    uartReceiveThread_frames h.between hlen (h.line.split (min len maxBufferLen))
  · have hstep : server.step s.pi (.uart (s.serialInput len) count) =
        ({ s.pi with receiver :=
          ⟨.receive, (uartReceiveThread.step s.pi.receiver.uart (s.serialInput len)).1⟩ }, []) := by
      simp only [server, Receiver.step, hpc, if_neg hquiet]
    refine ⟨arrived, coming, none, ?_⟩
    simp only [r, hstep]
    exact h.pi s.toPi hb (h.line.hold hrest) rfl rfl h.sublist h.complete (h.relayed_of_nil rfl)
  · obtain ⟨data, hdata⟩ := handleUARTPacket_of_replies h.replies
      (List.mem_append_right arrived (List.mem_cons_self (a := x)))
    have hstep : server.step s.pi (.uart (s.serialInput len) count) =
        ({ s.pi with receiver := ⟨.testActive data,
          (uartReceiveThread.step s.pi.receiver.uart (s.serialInput len)).1⟩ }, []) := by
      simp only [server, Receiver.step, hpc, if_pos hok, hpacket, hdata]
    have hsub := h.sublist
    rw [Option.toList_none, List.append_nil] at hsub
    refine ⟨arrived ++ [x], later, some x.2, ?_⟩
    simp only [r, hstep]
    refine h.pi s.toPi hb (h.line.arrive hrest) ?_ (congrArg some hdata) ?_ (fun hok => ?_)
      (h.relayed_of_nil rfl)
    · rw [List.append_assoc]
      rfl
    · rw [List.map_append]
      exact hsub.append (List.Sublist.refl _)
    · have hall := h.complete hok
      rw [Option.toList_none, List.append_nil] at hall
      rw [List.map_append, hall]
      rfl

theorem Relayed.goesOn (h : Relayed ok s history arrived coming relays held)
    (hpc : s.pi.receiver.pc ≠ .receive) {count : Int}
    (hok : ok → ¬ s.pi.receiver.Loses s.pi.globals count) :
    let r := s.afterPi (server.step s.pi (.uart none count))
    ∃ relays' held', Relayed ok r.1 (history ++ r.2) arrived coming relays' held' := by
  intro r
  obtain ⟨huart, hcases⟩ := s.pi.receiver.step_relays s.pi.globals none count hpc
  have hb : (server.step s.pi (.uart none count)).1.receiver.uart.assembler.Between :=
    huart.symm ▸ h.between
  have hline : s.fromArduino.Carries Response.frame
      (server.step s.pi (.uart none count)).1.receiver.uart.assembler.pending arrived coming :=
    huart.symm ▸ h.line
  rcases hcases with ⟨hnone, hsame | ⟨hdata, hloses⟩⟩ | ⟨conn, data, hwrite, hdata, hrelayed⟩
  · refine ⟨relays, held, h.pi s.toPi hb hline rfl ?_ h.sublist h.complete
      (h.relayed_of_nil hnone)⟩
    exact h.held_eq.trans (congrArg _ hsame.symm)
  · refine ⟨relays, none, h.pi s.toPi hb hline rfl ?_ ?_ (fun hyes => absurd hloses (hok hyes))
      (h.relayed_of_nil hnone)⟩
    · exact (congrArg (Option.map some) hdata).symm
    · exact ((List.Sublist.refl _).append (List.nil_sublist _)).trans h.sublist
  · -- the packet that was held has been written
    obtain ⟨p, rfl, hp⟩ : ∃ p, held = some p ∧ handleUARTPacket p = some data := by
      have hheld := h.held_eq
      rw [hwrite] at hheld
      obtain ⟨p, hp, hdata⟩ := Option.map_eq_some_iff.mp hheld
      exact ⟨p, hp, hdata⟩
    have hmap : (relays ++ [(conn, p)]).map Prod.snd ++ (none : Option TPacket).toList =
        relays.map Prod.snd ++ (some p).toList := by
      rw [List.map_append, Option.toList_none, List.append_nil]
      rfl
    refine ⟨relays ++ [(conn, p)], none, h.pi s.toPi hb hline rfl ?_ ?_ (fun hyes => ?_) ?_⟩
    · exact (congrArg (Option.map some) hdata).symm
    · rw [hmap]
      exact h.sublist
    · rw [hmap]
      exact h.complete hyes
    · rw [show (server.step s.pi (.uart none count)).2.filterMap ServerEvent.relayed? = _
        from hrelayed]
      exact List.rel_append h.relayed (.cons ⟨rfl, hp⟩ .nil)

end

/-! ## What the laptops show -/

namespace Client

/-- The buffers `handleNetwork` has been called with. -/
def LinkEvent.handled? : LinkEvent → Option (Nat → UInt8)
  | .handled buffer => some buffer
  | .sslRead _ | .passed _ | .sslWrite _ _ | .stopped _ => none

def calls (events : List LinkEvent) : List (Nat → UInt8) := events.filterMap LinkEvent.handled?

/-- No read has failed. -/
def ReadsSucceed (events : List LinkEvent) : Prop :=
  ∀ len, .sslRead len ∈ events → 0 < len

/-- Between `sslRead` and `handleNetwork`. -/
def ReaderPc.holds : ReaderPc → Bool
  | .assign _ | .test => true
  | .guard | .read | .stop | .done => false

/-- Where the reader stands: of the messages that it has read it has handled some, and one
may be in its buffer.  If nothing has been lost (`ok`), these are all. -/
structure Showing (ok : Prop) (s : Threads) (events : List LinkEvent) (read : List (List UInt8))
    (shown : List (List UInt8)) (inHand : Option (List UInt8)) : Prop where
  handled : List.Forall₂ (fun m buffer => slice buffer 0 m.length = m) shown (calls events)
  sublist : shown ++ inHand.toList <+ read
  complete : ok → shown ++ inHand.toList = read
  holding : s.reader.holds = inHand.isSome
  buffer : ∀ m ∈ inHand, slice s.buffer.get 0 m.length = m

section
variable {ok : Prop} {abi : DataModel} {s : Threads} {events : List LinkEvent}
  {read shown : List (List UInt8)} {inHand : Option (List UInt8)}

theorem Showing.writer (h : Showing ok s events read shown inHand) (input : WriterInput) :
    let r := (threads abi).step s (.writer input)
    Showing ok r.1 (events ++ r.2) read shown inHand := by
  intro r
  have hnone : calls r.2 = [] := by
    obtain ⟨client, buffer, reader, writer⟩ := s
    cases writer with
    | prompt =>
        show calls (WriterPc.step abi client .prompt input).2.2 = []
        rw [WriterPc.step]
        split <;> rfl
    | test data => rfl
    | write data => rfl
    | assign => rfl
    | stop => rfl
    | done => rfl
  refine ⟨?_, h.sublist, h.complete, h.holding, h.buffer⟩
  rw [calls, List.filterMap_append, show r.2.filterMap _ = _ from hnone, List.append_nil]
  exact h.handled

theorem Showing.reads (h : Showing ok s events read shown inHand) (hpc : s.reader = .read)
    {m : List UInt8} (hm : m.length ≤ bufferLen) :
    let r := (threads abi).step s (.reader (receive m))
    Showing ok r.1 (events ++ r.2) (read ++ [m]) shown (some m) := by
  obtain ⟨client, buffer, reader, writer⟩ := s
  subst hpc
  obtain rfl : inHand = none :=
    Option.isNone_iff_eq_none.mp (Option.isSome_eq_false_iff.mp h.holding.symm)
  have htake : m.take bufferLen = m := List.take_of_length_le hm
  have hsub := h.sublist
  rw [Option.toList_none, List.append_nil] at hsub
  refine ⟨?_, hsub.append (List.Sublist.refl _), fun hok => ?_, rfl, ?_⟩
  · rw [calls, List.filterMap_append]
    exact (List.append_nil _).symm ▸ h.handled
  · have hall := h.complete hok
    rw [Option.toList_none, List.append_nil] at hall
    rw [hall]
    rfl
  · intro m' hm'
    obtain rfl := Option.some.inj hm'
    show slice (buffer.write 0 (m.take bufferLen)).get 0 m.length = m
    rw [htake]
    exact slice_write ..

/-- The reader goes on.  It has handled what is in its buffer, unless `networkActive` has
been taken down. -/
theorem Showing.goesOn (h : Showing ok s events read shown inHand) (hpc : s.reader ≠ .read)
    (hok : ok → s.reader = .test → s.client.networkActive = true) (input : ReaderInput) :
    let r := (threads abi).step s (.reader input)
    ∃ shown' inHand', Showing ok r.1 (events ++ r.2) read shown' inHand' := by
  obtain ⟨client, buffer, reader, writer⟩ := s
  obtain ⟨hhandled, hsublist, hcomplete, hholding, hbuffer⟩ := h
  have hframe {more : List LinkEvent} (hmore : calls more = []) : List.Forall₂
      (fun m buffer => slice buffer 0 m.length = m) shown (calls (events ++ more)) := by
    rw [calls, List.filterMap_append, show more.filterMap _ = _ from hmore, List.append_nil]
    exact hhandled
  cases reader with
  | read => exact absurd rfl hpc
  | guard =>
      refine ⟨shown, inHand, hframe rfl, hsublist, hcomplete, ?_, hbuffer⟩
      rw [← hholding]
      show (if client.networkActive then ReaderPc.read else .stop).holds = false
      split <;> rfl
  | assign len => exact ⟨shown, inHand, hframe rfl, hsublist, hcomplete, hholding, hbuffer⟩
  | stop => exact ⟨shown, inHand, hframe rfl, hsublist, hcomplete, hholding, hbuffer⟩
  | done => exact ⟨shown, inHand, hframe rfl, hsublist, hcomplete, hholding, hbuffer⟩
  | test =>
      obtain ⟨m, rfl⟩ := Option.isSome_iff_exists.mp hholding.symm
      obtain ⟨active⟩ := client
      cases active with
      | true =>
          have hmap : shown ++ [m] ++ (none : Option (List UInt8)).toList =
              shown ++ (some m).toList := List.append_nil _
          have hcalls : List.Forall₂ (fun m buffer => slice buffer 0 m.length = m) (shown ++ [m])
              (calls (events ++ [.handled buffer.get])) := by
            rw [calls, List.filterMap_append]
            exact List.rel_append hhandled (.cons (hbuffer m rfl) .nil)
          refine ⟨shown ++ [m], none, hcalls, ?_, fun hyes => ?_, rfl, fun _ h => nomatch h⟩
          · rw [hmap]
            exact hsublist
          · rw [hmap]
            exact hcomplete hyes
      | false =>
          have hsub : shown ++ (none : Option (List UInt8)).toList <+ read :=
            ((List.Sublist.refl _).append (List.nil_sublist _)).trans hsublist
          exact ⟨shown, none, hframe rfl, hsub, (fun hyes => nomatch hok hyes rfl), rfl,
            (fun _ h => nomatch h)⟩

end

end Client

theorem legible_of_relayed {p : TPacket} {m : List UInt8} (h : handleUARTPacket p = some m) :
    Legible p m := by
  rcases handleUARTPacket_legible p with ⟨-, data, hdata, hl⟩ | ⟨-, hnone⟩
  · obtain rfl := Option.some.inj (hdata.symm.trans h)
    exact hl
  · exact nomatch hnone.symm.trans h

/-! ## From the Arduino to the laptops -/

/-- The steps at which something may be lost on its way to a laptop. -/
def System.Loses (s : System) : SystemAction → Prop
  | .uart _ count => s.pi.receiver.Loses s.pi.globals count
  | .reader conn _ =>
      (s.laptops conn).reader = .test ∧ (s.laptops conn).client.networkActive = false
  | .writer _ _ | .main _ _ | .connect _ | .worker _ _ _ _ | .int0 | .int1 | .loop _ _ => False

def eventsOf (conn : Conn) (history : List SystemEvent) : List Client.LinkEvent :=
  history.filterMap (SystemEvent.laptop? conn)

/-- The packets are relayed, and laptops whose reads succeed handle what they read. -/
structure Answered (ok : Prop) (s : System) (history : List SystemEvent)
    (arrived coming : List Response) (relays : List (Conn × TPacket)) (held : Option TPacket) :
    Prop extends Relayed ok s history arrived coming relays held where
  screens : ∀ c, Client.ReadsSucceed (eventsOf c history) → ∃ shown inHand,
    Client.Showing ok (s.laptops c) (eventsOf c history) (s.toLaptop c).read shown inHand

section
variable {ok : Prop} {s : System} {history : List SystemEvent} {arrived coming : List Response}
  {relays : List (Conn × TPacket)} {held : Option TPacket}

theorem Answered.elsewhere (h : Answered ok s history arrived coming relays held) {t : System}
    {events : List SystemEvent} {arrived' coming' : List Response}
    {relays' : List (Conn × TPacket)} {held' : Option TPacket}
    (hrelayed : Relayed ok t (history ++ events) arrived' coming' relays' held')
    (hlaptops : t.laptops = s.laptops) (hread : ∀ c, (t.toLaptop c).read = (s.toLaptop c).read)
    (hnone : ∀ c, events.filterMap (SystemEvent.laptop? c) = []) :
    Answered ok t (history ++ events) arrived' coming' relays' held' where
  toRelayed := hrelayed
  screens c := by
    rw [eventsOf, List.filterMap_append, hnone, List.append_nil, hread, hlaptops]
    exact h.screens c

theorem Answered.laptop (h : Answered ok s history arrived coming relays held)
    {toLaptop : Conn → Channel (List UInt8)} (conn : Conn)
    (hsent : ∀ c, (toLaptop c).sent = (s.toLaptop c).sent)
    (hread : ∀ c, c ≠ conn → (toLaptop c).read = (s.toLaptop c).read)
    {step : Client.Threads × List Client.LinkEvent}
    (hstep : Client.ReadsSucceed (eventsOf conn history ++ step.2) → ∃ shown inHand,
      Client.Showing ok step.1 (eventsOf conn history ++ step.2) (toLaptop conn).read shown inHand) :
    let r := System.afterLaptop { s with toLaptop := toLaptop } conn step
    Answered ok r.1 (history ++ r.2) arrived coming relays held := by
  intro r
  refine ⟨h.toRelayed.laptop hsent conn step, fun c hreads => ?_⟩
  have hevents : eventsOf c (history ++ r.2) =
      eventsOf c history ++ if conn = c then step.2 else [] := by
    rw [eventsOf, List.filterMap_append, show r.2.filterMap _ = _ from laptop?_laptop c conn step.2]
    rfl
  show ∃ shown inHand, Client.Showing ok (Function.update s.laptops conn step.1 c) _
    (toLaptop c).read shown inHand
  rw [hevents] at hreads ⊢
  by_cases hc : conn = c
  · subst hc
    rw [if_pos rfl] at hreads ⊢
    rw [Function.update_self]
    exact hstep hreads
  · rw [if_neg hc, List.append_nil] at hreads ⊢
    rw [Function.update_of_ne (Ne.symm hc), hread c (Ne.symm hc)]
    exact h.screens c hreads

theorem Client.ReadsSucceed.of_append {events more : List Client.LinkEvent}
    (h : Client.ReadsSucceed (events ++ more)) : Client.ReadsSucceed events :=
  fun len hlen => h len (List.mem_append_left _ hlen)

theorem not_readsSucceed_of_failed (abi : DataModel) {laptop : Client.Threads}
    (hpc : laptop.reader = .read) {bytes : Option (List UInt8)}
    (hbytes : bytes = none ∨ bytes = some []) {events : List Client.LinkEvent} :
    ¬ Client.ReadsSucceed (events ++
      ((Client.threads abi).step laptop (.reader (bytes.bind Client.receive))).2) := by
  obtain ⟨client, buffer, reader, writer⟩ := laptop
  subst hpc
  intro hreads
  have hlen := hreads _ (List.mem_append_right _ (List.mem_singleton_self _))
  rcases hbytes with rfl | rfl
  · exact absurd hlen (by decide : ¬ (0 : Int) < -1)
  · exact absurd hlen (by decide : ¬ (0 : Int) < 0)

theorem Relayed.length_mem (h : Relayed ok s history arrived coming relays held) {conn : Conn}
    {m : List UInt8} (hm : m ∈ (s.toLaptop conn).sent) :
    1 ≤ m.length ∧ m.length ≤ Client.bufferLen := by
  have hwritten := h.written conn
  generalize relaysTo conn relays = packets at hwritten
  generalize (s.toLaptop conn).sent = messages at hwritten hm
  induction hwritten with
  | nil => exact absurd hm List.not_mem_nil
  | cons hp _ ih =>
      rcases List.mem_cons.mp hm with rfl | hm
      · exact ⟨(legible_of_relayed hp).1, (legible_of_relayed hp).2.1⟩
      · exact ih hm

theorem Answered.reader (abi : DataModel) (h : Answered ok s history arrived coming relays held)
    (conn : Conn) (outcome : Outcome) (hok : ok → ¬ s.Loses (.reader conn outcome)) :
    let r := s.reader abi conn outcome
    Answered ok r.1 (history ++ r.2) arrived coming relays held := by
  intro r
  by_cases hpc : (s.laptops conn).reader = .read
  · cases hs : s.readLaptop conn outcome with
    | none =>
        have hr : r = (s, []) := System.reader_waits hpc hs
        rw [hr, List.append_nil]
        exact h
    | some pair =>
        obtain ⟨bytes, channel⟩ := pair
        have ho := System.read_of_readLaptop hs
        have hr : r = System.afterLaptop
            { s with toLaptop := Function.update s.toLaptop conn channel } conn
            ((Client.threads abi).step (s.laptops conn) (.reader (bytes.bind Client.receive))) :=
          System.reader_reads hpc hs
        rw [hr]
        have hread (c : Conn) (hc : c ≠ conn) :
            (Function.update s.toLaptop conn channel c).read = (s.toLaptop c).read := by
          rw [Function.update_of_ne hc]
        have hsent : channel.sent = (s.toLaptop conn).sent := by
          rcases Outcome.read_cases ho with ⟨m, rest, hm, rfl, rfl⟩ | ⟨-, rfl⟩
          · rfl
          · rfl
        refine h.laptop conn (fun c => ?_) hread fun hreads => ?_
        · by_cases hc : c = conn
          · rw [hc, Function.update_self, hsent]
          · rw [Function.update_of_ne hc]
        · rw [Function.update_self]
          rcases Outcome.read_cases ho with ⟨m, rest, hm, rfl, rfl⟩ | ⟨hbytes, rfl⟩
          · obtain ⟨shown, inHand, hshowing⟩ := h.screens conn hreads.of_append
            have hmem := mem_of_mem_waiting (hm ▸ List.mem_cons_self)
            rw [read_pop_one hm]
            exact ⟨shown, some m, hshowing.reads hpc (h.length_mem hmem).2⟩
          · exact absurd hreads (not_readsSucceed_of_failed abi hpc hbytes)
  · have hr : r = s.afterLaptop conn ((Client.threads abi).step (s.laptops conn) (.reader none)) :=
      if_neg hpc
    rw [hr]
    refine h.laptop conn (fun _ => rfl) (fun _ _ => rfl) fun hreads => ?_
    obtain ⟨shown, inHand, hshowing⟩ := h.screens conn hreads.of_append
    exact hshowing.goesOn hpc (fun hyes htest => Bool.not_eq_false _ |>.mp fun hf =>
      hok hyes ⟨htest, hf⟩) none

/-- **Step.**  Whatever the system does. -/
theorem Answered.step {abi : DataModel} {stack : Conn → Nat → UInt8} {down up : List Forwarded}
    (h : Answered ok s history arrived coming relays held)
    (ho : Ordered abi stack s history down up) {action : SystemAction} (hshort : action.Short)
    (hok : ok → ¬ s.Loses action) :
    let r := (system abi stack).step s action
    ∃ arrived' coming' relays' held',
      Answered ok r.1 (history ++ r.2) arrived' coming' relays' held' := by
  have hread (events : List ServerEvent) (c : Conn) :
      ((s.toLaptop c).push (events.filterMap (ServerEvent.sentTo? c))).read =
        (s.toLaptop c).read := read_push ..
  -- a thread of the Pi that is not the UART thread
  have hquiet {toPi : Conn → Channel (List UInt8)} {a : Action}
      (ha : ∀ input count, a ≠ .uart input count) :
      let r := System.afterPi { s with toPi := toPi } (server.step s.pi a)
      ∃ arrived' coming' relays' held',
        Answered ok r.1 (history ++ r.2) arrived' coming' relays' held' := by
    intro r
    have hrelayed := h.toRelayed.quiet toPi ha
    exact ⟨_, _, _, _, h.elsewhere hrelayed rfl (hread _) fun c => laptop?_pi c _⟩
  -- an interrupt
  have hinterrupt {step : Firmware × List Event} (hnone : step.2 = []) :
      let r := s.afterArduino step
      ∃ arrived' coming' relays' held',
        Answered ok r.1 (history ++ r.2) arrived' coming' relays' held' := by
    intro r
    have harduino : r.2.filterMap SystemEvent.arduino? = [] :=
      (arduino?_arduino step.2).trans hnone
    have hframes : framesSent r.2 = List.map Response.frame [] := congrArg sentFrames harduino
    have hreplies : Replies (ordersHandled r.2) [] := by
      rw [ordersHandled, harduino]
      rfl
    exact ⟨_, _, _, _, h.elsewhere (h.toRelayed.arduino s.toArduino step hframes hreplies) rfl
      (fun _ => rfl) fun c => laptop?_arduino c _⟩
  cases action with
  | reader conn outcome => exact ⟨_, _, _, _, h.reader abi conn outcome hok⟩
  | writer conn input =>
      show ∃ arrived' coming' relays' held',
        Answered ok (s.writer abi conn input).1 _ arrived' coming' relays' held'
      simp only [system, System.writer]
      split
      · refine ⟨arrived, coming, relays, held, ?_⟩
        rw [List.append_nil]
        exact h
      · refine ⟨_, _, _, _, h.laptop conn (fun _ => rfl) (fun _ _ => rfl) fun hreads => ?_⟩
        obtain ⟨shown, inHand, hshowing⟩ := h.screens conn hreads.of_append
        exact ⟨shown, inHand, hshowing.writer input⟩
  | main helloPacket comms => exact hquiet (by simp)
  | connect conn => exact hquiet (by simp)
  | worker conn outcome commandPacket comms =>
      show ∃ arrived' coming' relays' held',
        Answered ok (s.worker conn outcome commandPacket comms).1 _ arrived' coming' relays' held'
      simp only [system, System.worker]
      split
      · split
        · exact hquiet (by simp)
        · refine ⟨arrived, coming, relays, held, ?_⟩
          rw [List.append_nil]
          exact h
      · exact hquiet (by simp)
  | uart len count =>
      show ∃ arrived' coming' relays' held',
        Answered ok (s.uart len count).1 _ arrived' coming' relays' held'
      simp only [system, System.uart]
      split
      · rename_i hpc
        obtain ⟨arrived', coming', held', hrelayed⟩ := h.toRelayed.receives hpc hshort count
        exact ⟨_, _, _, _, h.elsewhere hrelayed rfl (hread _) fun c => laptop?_pi c _⟩
      · rename_i hpc
        obtain ⟨relays', held', hrelayed⟩ := h.toRelayed.goesOn hpc hok
        exact ⟨_, _, _, _, h.elsewhere hrelayed rfl (hread _) fun c => laptop?_pi c _⟩
  | int0 => exact hinterrupt rfl
  | int1 => exact hinterrupt rfl
  | loop len input =>
      obtain ⟨responses, hframes, hreplies⟩ := ho.loop_replies hshort input
      exact ⟨_, _, _, _, h.elsewhere (h.toRelayed.arduino _ _ hframes hreplies) rfl
        (fun _ => rfl) fun c => laptop?_arduino c _⟩

end

/-! ## Runs -/

section
variable (abi : DataModel) (stack : Conn → Nat → UInt8) (vincentCirc : ℚ)
  (laptop : Conn → Nat → UInt8) (pi arduino : Boot) (actions : List SystemAction)

end

end Alex
