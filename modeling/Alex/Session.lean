/-
# `Alex.Session` — what a session comes to when nothing fails

`Alex.Orders` and `Alex.Answers` hold whatever breaks, and so they promise little.  Here
every read and write succeeds, no read of the line exceeds `PACKET_SIZE`, the `c` that
`sendData` assigns is positive, and nobody types `q`.  Then the flags stay up on all
machines, no thread ends, and `tls_conn` is set before there is anything to relay
(`Up.has_conn`):

    letter  →  message  →  frame  →  order handled  →  replies  →  messages  →  displays

Nothing is lost on the way, in any interleaving, however many laptops there are.  The order
in a message is what the Pi reads there: the laptop sends `sizeof(char*)` bytes of a command.
-/
import Alex.Answers
import Alex.Connections

namespace Alex

open Cells Channel

/-! ## The server -/

/-- The server as long as nothing fails: its loops go on, and nobody is written to, or
sent an order by, before there is a connection. -/
structure Server.Up (p : Server) : Prop where
  active : p.main ≠ .start → p.globals.networkActive = true
  early : p.main = .start → ∀ c, p.workers c = none
  serving : ∀ c w, p.workers c = some w → w.pc.stage = 0
  received : ∀ c w, p.workers c = some w → ∀ len, w.pc = .assign len → 0 < len
  forwarding : ∀ c w, p.workers c = some w → w.pc = .forward → p.globals.tlsConn ≠ none
  current : ∀ c, p.globals.tlsConn = some c → p.workers c ≠ none
  assigns : ∀ source n, p.receiver.pc = .assign source n → 0 < n
  writes : ∀ data, p.receiver.pc ≠ .write none data
  targets : ∀ c data, p.receiver.pc = .write (some c) data → p.workers c ≠ none

/-- **Step.**  A worker that reads a message goes on. -/
theorem Worker.step_up (conn : Conn) {g : Globals} {w : Worker} {input : NetworkInput}
    (hg : g.networkActive = true) (hstage : w.pc.stage = 0)
    (hassign : ∀ len, w.pc = .assign len → 0 < len) (hforward : w.pc = .forward → g.tlsConn ≠ none)
    (hinput : w.pc = .read → 0 < (sslRead w.buffer input).2) (commandPacket : TPacket)
    (comms : Nat → UInt8) :
    let r := w.step conn g input commandPacket comms
    r.1.networkActive = true ∧ r.2.1.pc.stage = 0 ∧ (∀ len, r.2.1.pc = .assign len → 0 < len) ∧
      (r.2.1.pc = .forward → r.1.tlsConn ≠ none) ∧
      (r.1.tlsConn = g.tlsConn ∨ r.1.tlsConn = some conn) ∧
      (r.1.tlsConn = none → r.2.2.flatMap ServerEvent.wired = []) := by
  obtain ⟨pc, buffer⟩ := w
  obtain ⟨active, tlsConn⟩ := g
  obtain rfl : active = true := hg
  cases pc with
  | guard => exact ⟨rfl, rfl, nofun, nofun, .inl rfl, fun _ => rfl⟩
  | read =>
      refine ⟨rfl, rfl, fun len hlen => ?_, nofun, .inl rfl, fun _ => rfl⟩
      cases hlen
      exact hinput rfl
  | assign len =>
      have hlen : 0 < len := hassign len rfl
      have hpc : (if len > 0 then WorkerPc.handle else .guard) = .handle := if_pos hlen
      refine ⟨decide_eq_true hlen, ?_, ?_, ?_, .inl rfl, fun _ => rfl⟩
      · show WorkerPc.stage (if len > 0 then .handle else .guard) = 0
        rw [hpc]
        rfl
      · show ∀ n, (if len > 0 then WorkerPc.handle else .guard) = .assign n → 0 < n
        rw [hpc]
        exact nofun
      · show (if len > 0 then WorkerPc.handle else .guard) = .forward → _
        rw [hpc]
        exact nofun
  | handle => exact ⟨rfl, rfl, nofun, fun _ => nofun, .inr rfl, fun h => nomatch h⟩
  | forward => exact ⟨rfl, rfl, nofun, nofun, .inl rfl, fun h => absurd h (hforward rfl)⟩
  | reset => exact nomatch hstage
  | free => exact nomatch hstage
  | done => exact nomatch hstage

/-- **Step.**  The UART thread that has a connection when it has something to write goes
on. -/
theorem Receiver.step_up {g : Globals} {r : Receiver} {count : Int} (hcount : 0 < count)
    (hconn : r.pc.data? ≠ none → g.tlsConn ≠ none)
    (hassign : ∀ source n, r.pc = .assign source n → 0 < n) (input : SerialInput) :
    let next := r.step g input count
    next.1.tlsConn = g.tlsConn ∧ (g.networkActive = true → next.1.networkActive = true) ∧
      (∀ source n, next.2.1.pc = .assign source n → 0 < n) ∧
      (∀ data, next.2.1.pc ≠ .write none data) ∧
      (∀ c data, next.2.1.pc = .write (some c) data → g.tlsConn = some c) ∧
      next.2.2.flatMap ServerEvent.wired = [] := by
  obtain ⟨pc, uart⟩ := r
  cases pc with
  | receive =>
      rcases hu : uartReceiveThread.step uart input with ⟨uart', result⟩
      by_cases hr : result = some .packetOk
      · cases hd : handleUARTPacket (.ofMemory uart'.packet.get) with
        | none => simp [step, hu, hr, hd]
        | some data => simp [step, hu, hr, hd]
      · simp [step, hu, hr]
  | testActive data =>
      refine ⟨rfl, id, ?_, ?_, ?_, rfl⟩
      · show ∀ source n, (if g.networkActive then ReceiverPc.testConn data else .receive) =
          .assign source n → 0 < n
        split <;> simp
      · show ∀ d, (if g.networkActive then ReceiverPc.testConn data else .receive) ≠ .write none d
        split <;> simp
      · show ∀ c d, (if g.networkActive then ReceiverPc.testConn data else .receive) =
          .write (some c) d → _
        split <;> simp
  | testConn data =>
      obtain ⟨active, tlsConn⟩ := g
      cases tlsConn with
      | none => exact absurd rfl (hconn (by simp [ReceiverPc.data?]))
      | some conn => exact ⟨rfl, id, by simp [step], by simp [step], by simp [step], rfl⟩
  | load data =>
      have hdata : g.tlsConn ≠ none := hconn (by simp [ReceiverPc.data?])
      exact ⟨rfl, id, by simp [step], fun _ h => hdata (ReceiverPc.write.inj h).1,
        fun _ _ h => (ReceiverPc.write.inj h).1, rfl⟩
  | write conn data =>
      refine ⟨rfl, id, fun source n h => ?_, by simp [step], by simp [step], rfl⟩
      cases h
      exact hcount
  | assign source n =>
      exact ⟨rfl, fun _ => decide_eq_true (hassign source n rfl), by simp [step], by simp [step],
        by simp [step], rfl⟩

theorem Server.setWorker_ne_none {p : Server} {c : Conn} (h : p.workers c ≠ none) (conn : Conn)
    (w : Worker) : (p.setWorker conn w).workers c ≠ none := by
  by_cases hc : c = conn
  · rw [hc, Server.setWorker_self]
    exact nofun
  · rw [Server.setWorker_of_ne _ hc]
    exact h

theorem Server.Up.worker {p : Server} (h : p.Up) {conn : Conn} {w : Worker}
    (hw : p.workers conn = some w) {input : NetworkInput}
    (hinput : w.pc = .read → 0 < (sslRead w.buffer input).2) (commandPacket : TPacket)
    (comms : Nat → UInt8) :
    let r := server.step p (.worker conn input commandPacket comms)
    r.1.Up ∧ r.1.main = p.main ∧ (r.1.globals.tlsConn = none → p.globals.tlsConn = none) ∧
      (r.1.globals.tlsConn = none → r.2.flatMap ServerEvent.wired = []) := by
  have hmain : p.main ≠ .start := fun hstart =>
    Option.some_ne_none w (hw.symm.trans (h.early hstart conn))
  obtain ⟨hactive, hstage, hassign, hforward, hconn, hwired⟩ :=
    w.step_up conn (h.active hmain) (h.serving conn w hw) (h.received conn w hw)
      (h.forwarding conn w hw) hinput commandPacket comms
  have hstep : server.step p (.worker conn input commandPacket comms) =
      ({ p.setWorker conn (w.step conn p.globals input commandPacket comms).2.1 with
          globals := (w.step conn p.globals input commandPacket comms).1 },
        (w.step conn p.globals input commandPacket comms).2.2) := by
    simp only [server, hw]
  rw [hstep]
  generalize w.step conn p.globals input commandPacket comms = r at *
  have hnone (hr : r.1.tlsConn = none) : p.globals.tlsConn = none := by
    rcases hconn with hsame | hset
    · rw [← hsame]
      exact hr
    · exact absurd (hset.symm.trans hr) (Option.some_ne_none conn)
  have hworkers {c : Conn} {v : Worker} (hv : (p.setWorker conn r.2.1).workers c = some v) :
      c = conn ∧ v = r.2.1 ∨ p.workers c = some v := Server.workers_setWorker hv
  refine ⟨⟨fun _ => hactive, fun hstart => absurd hstart hmain, fun c v hv => ?_,
    fun c v hv => ?_, fun c v hv hpc => ?_, fun c hc => ?_, h.assigns, h.writes,
    fun c data hpc => setWorker_ne_none (h.targets c data hpc) conn r.2.1⟩, rfl, hnone, hwired⟩
  · rcases hworkers hv with ⟨-, rfl⟩ | hv
    · exact hstage
    · exact h.serving c v hv
  · rcases hworkers hv with ⟨-, rfl⟩ | hv
    · exact hassign
    · exact h.received c v hv
  · rcases hworkers hv with ⟨-, rfl⟩ | hv
    · exact hforward hpc
    · exact fun hr => h.forwarding c v hv hpc (hnone hr)
  · show (p.setWorker conn r.2.1).workers c ≠ none
    rcases hconn with hsame | hset
    · exact setWorker_ne_none (h.current c (hsame.symm.trans hc)) conn r.2.1
    · obtain rfl := Option.some.inj (hset.symm.trans hc)
      rw [Server.setWorker_self]
      exact Option.some_ne_none r.2.1

theorem Server.Up.uart {p : Server} (h : p.Up)
    (hconn : p.receiver.pc.data? ≠ none → p.globals.tlsConn ≠ none) (input : SerialInput)
    {count : Int} (hcount : 0 < count) :
    let r := server.step p (.uart input count)
    r.1.Up ∧ r.1.main = p.main ∧ r.1.globals.tlsConn = p.globals.tlsConn ∧
      r.2.flatMap ServerEvent.wired = [] := by
  obtain ⟨hsame, hactive, hassign, hwrite, htarget, hwired⟩ :=
    Receiver.step_up hcount hconn h.assigns input
  refine ⟨⟨fun hmain => hactive (h.active hmain), h.early, h.serving, h.received,
    fun c w hw hpc => ?_, fun c hc => ?_, hassign, hwrite,
    fun c data hpc => h.current c (htarget c data hpc)⟩, rfl, hsame, hwired⟩
  · show (p.receiver.step p.globals input count).1.tlsConn ≠ none
    rw [hsame]
    exact h.forwarding c w hw hpc
  · exact h.current c (hsame.symm.trans hc)

/-- What `main` has sent: HELLO, once. -/
def MainPc.HasSent (sent : List UInt8) : MainPc → Prop
  | .start | .hello => sent = []
  | .done => ∃ helloPacket comms, sent = sendHello helloPacket comms

theorem Server.Up.main {p : Server} (h : p.Up) (helloPacket : TPacket) (comms : Nat → UInt8) :
    let r := server.step p (.main helloPacket comms)
    r.1.Up ∧ r.1.globals.tlsConn = p.globals.tlsConn ∧ ∀ sent, p.main.HasSent sent →
      r.1.main.HasSent (sent ++ r.2.flatMap ServerEvent.wired) := by
  obtain ⟨⟨active, tlsConn⟩, main, workers, receiver⟩ := p
  obtain ⟨hactive, hearly, hserving, hreceived, hforwarding, hcurrent, hassigns, hwrites,
    htargets⟩ := h
  cases main with
  | start =>
      refine ⟨⟨fun _ => rfl, nofun, hserving, hreceived, hforwarding, hcurrent, hassigns, hwrites,
        htargets⟩, rfl, fun sent hsent => ?_⟩
      exact (List.append_nil sent).trans hsent
  | hello =>
      refine ⟨⟨fun _ => hactive nofun, nofun, hserving, hreceived, hforwarding, hcurrent, hassigns,
        hwrites, htargets⟩, rfl, fun sent hsent => ⟨helloPacket, comms, ?_⟩⟩
      rw [show sent = [] from hsent]
      exact List.append_nil _
  | done =>
      refine ⟨⟨hactive, hearly, hserving, hreceived, hforwarding, hcurrent, hassigns, hwrites,
        htargets⟩, rfl, fun sent hsent => ?_⟩
      exact (List.append_nil sent).symm ▸ hsent

theorem Server.Up.connect {p : Server} (h : p.Up) (conn : Conn) (buffer : Nat → UInt8) :
    let r := server.step p (.connect conn buffer)
    r.1.Up ∧ r.1.main = p.main ∧ r.1.globals.tlsConn = p.globals.tlsConn ∧
      r.2.flatMap ServerEvent.wired = [] := by
  by_cases hnew : p.main ≠ .start ∧ (p.workers conn).isNone = true
  · have hstep : server.step p (.connect conn buffer) =
        (p.setWorker conn ⟨.guard, ⟨buffer, []⟩⟩, [.connected conn]) := if_pos hnew
    rw [hstep]
    have hworkers {c : Conn} {v : Worker}
        (hv : (p.setWorker conn ⟨.guard, ⟨buffer, []⟩⟩).workers c = some v) :
        c = conn ∧ v = ⟨.guard, ⟨buffer, []⟩⟩ ∨ p.workers c = some v := Server.workers_setWorker hv
    refine ⟨⟨h.active, fun hstart => absurd hstart hnew.1, fun c v hv => ?_, fun c v hv => ?_,
      fun c v hv hpc => ?_, fun c hc => setWorker_ne_none (h.current c hc) conn _, h.assigns,
      h.writes, fun c data hpc => setWorker_ne_none (h.targets c data hpc) conn _⟩, rfl, rfl, rfl⟩
    · rcases hworkers hv with ⟨-, rfl⟩ | hv
      · rfl
      · exact h.serving c v hv
    · rcases hworkers hv with ⟨-, rfl⟩ | hv
      · exact nofun
      · exact h.received c v hv
    · rcases hworkers hv with ⟨-, rfl⟩ | hv
      · exact nomatch hpc
      · exact h.forwarding c v hv hpc
  · have hstep : server.step p (.connect conn buffer) = (p, []) := if_neg hnew
    rw [hstep]
    exact ⟨h, rfl, rfl, rfl⟩

theorem Server.Up.unwritten {p : Server} (h : p.Up) {a : Action} {c : Conn}
    (hc : (server.step p a).1.workers c = none) :
    p.workers c = none ∧ (server.step p a).2.filterMap (ServerEvent.sentTo? c) = [] := by
  have hnone : p.workers c = none := by
    by_contra hsome
    revert hc
    have hs := server_step_step p a
    generalize server.step p a = r at hs ⊢
    cases hs with
    | stays _ => exact hsome
    | starts _ _ _ => exact hsome
    | greets _ _ _ => exact hsome
    | accepts conn buffer _ _ => exact setWorker_ne_none hsome conn _
    | worker conn w _ _ _ r _ _ => exact setWorker_ne_none hsome conn r.2.1
    | uart _ _ _ _ => exact hsome
  refine ⟨hnone, List.filterMap_eq_nil_iff.mpr fun e he => ?_⟩
  cases e with
  | sslWrite conn data count =>
      have hpc := write_of_sslWrite he
      refine if_neg fun hconn => ?_
      rw [hconn.1] at hpc
      exact h.targets c data hpc hnone
  | connected _ => rfl
  | entered _ => rfl
  | left _ => rfl
  | sslRead _ _ => rfl
  | assigned _ _ => rfl
  | uartSent _ => rfl
  | freed _ => rfl

theorem sslRead_deliver (buffer : Cells UInt8) {m : List UInt8} (h : 0 < m.length) :
    0 < (sslRead buffer (deliver m)).2 := by
  show (0 : Int) < (m.take bufLen).length
  rw [List.length_take]
  simp only [bufLen]
  omega

/-! ## The laptops -/

namespace Client

theorem sslRead_receive (buffer : Cells UInt8) {m : List UInt8} (h : 1 ≤ m.length) :
    0 < (sslRead buffer (receive m)).2 := by
  show (0 : Int) < (m.take bufferLen).length
  rw [List.length_take]
  simp only [bufferLen]
  omega

section
variable (abi : DataModel) {s : Threads}

theorem not_failed_reader {input : ReaderInput}
    (hread : s.reader = .read → 0 < (sslRead s.buffer input).2) :
    ∀ e ∈ ((threads abi).step s (.reader input)).2, ¬ e.Failed := by
  obtain ⟨⟨active⟩, buffer, reader, writer⟩ := s
  intro e he
  cases reader with
  | guard => exact absurd he List.not_mem_nil
  | read =>
      obtain rfl := List.mem_singleton.mp he
      exact Int.not_le.mpr (hread rfl)
  | assign len => exact absurd he List.not_mem_nil
  | test =>
      cases active with
      | false => exact absurd he List.not_mem_nil
      | true =>
          obtain rfl := List.mem_singleton.mp he
          exact id
  | stop =>
      obtain rfl := List.mem_singleton.mp he
      exact id
  | done => exact absurd he List.not_mem_nil

theorem not_failed_writer {input : WriterInput} (hcount : 0 < input.count) :
    ∀ e ∈ ((threads abi).step s (.writer input)).2, ¬ e.Failed := by
  obtain ⟨client, buffer, reader, writer⟩ := s
  intro e he
  cases writer with
  | prompt =>
      cases hk : writerThread input.ch input.scanned with
      | send ch params =>
          simp only [threads, WriterPc.step, hk] at he
          obtain rfl := List.mem_singleton.mp he
          exact id
      | quit =>
          simp only [threads, WriterPc.step, hk] at he
          exact absurd he List.not_mem_nil
      | badCommand =>
          simp only [threads, WriterPc.step, hk] at he
          exact absurd he List.not_mem_nil
  | test data => exact absurd he List.not_mem_nil
  | write data =>
      obtain rfl := List.mem_singleton.mp he
      exact Int.not_le.mpr hcount
  | assign => exact absurd he List.not_mem_nil
  | stop =>
      obtain rfl := List.mem_singleton.mp he
      exact id
  | done => exact absurd he List.not_mem_nil

theorem writer_stays {input : WriterInput} (hquit : writerThread input.ch input.scanned ≠ .quit)
    (h : s.writer ≠ .stop ∧ s.writer ≠ .done) :
    let r := (threads abi).step s (.writer input)
    r.1.writer ≠ .stop ∧ r.1.writer ≠ .done := by
  obtain ⟨⟨active⟩, buffer, reader, writer⟩ := s
  cases writer with
  | prompt =>
      cases hk : writerThread input.ch input.scanned with
      | send ch params => simp [threads, WriterPc.step, hk]
      | quit => exact absurd hk hquit
      | badCommand => simp [threads, WriterPc.step, hk]
  | test data => cases active <;> simp [threads, WriterPc.step]
  | write data => simp [threads, WriterPc.step]
  | assign => simp [threads, WriterPc.step]
  | stop => exact absurd rfl h.1
  | done => exact absurd rfl h.2

end

end Client

/-! ## The system -/

/-- The system as long as nothing fails: all links are up, no writer ends, nothing but HELLO is
sent to the Arduino before there is a connection, and nothing to a laptop before it is
connected. -/
structure System.Up (abi : DataModel) (s : System) (history : List SystemEvent) : Prop where
  laptops : ∀ c, Client.Running abi (s.laptops c) (eventsOf c history)
  fine : ∀ c, ∀ e ∈ eventsOf c history, ¬ e.Failed
  writing : ∀ c, (s.laptops c).writer ≠ .stop ∧ (s.laptops c).writer ≠ .done
  pi : s.pi.Up
  silent : s.pi.globals.tlsConn = none → s.pi.main.HasSent s.toArduino.sent
  unwritten : ∀ c, s.pi.workers c = none → (s.toLaptop c).sent = []

/-- Nothing can fail in a step: reads come back with messages, and with no more than
`PACKET_SIZE` bytes from the line, writes with positive counts, what `sendData` assigns is
positive, and the key pressed is not `q`. -/
def SystemAction.Succeeds : SystemAction → Prop
  | .reader _ outcome | .worker _ outcome _ _ => outcome = .message
  | .writer _ input =>
      0 < input.count ∧ 0 < input.c ∧ writerThread input.ch input.scanned ≠ .quit
  | .uart len count => len ≤ packetSize ∧ 0 < count
  | .loop len _ => len ≤ packetSize
  | .main _ _ | .connect _ | .int0 | .int1 => True

theorem SystemAction.Succeeds.short {a : SystemAction} (h : a.Succeeds) : a.Short := by
  cases a with
  | uart len count => exact h.1
  | loop len input => exact h
  | reader _ _ => trivial
  | writer _ _ => trivial
  | main _ _ => trivial
  | connect _ => trivial
  | worker _ _ _ _ => trivial
  | int0 => trivial
  | int1 => trivial

section
variable {abi : DataModel} {stack : Conn → Nat → UInt8} {s : System}
  {history : List SystemEvent}

theorem eq_nil_of_bytes {line : List Forwarded} (h : line.flatMap Forwarded.bytes = []) :
    line = [] := by
  cases line with
  | nil => rfl
  | cons x line => exact absurd (List.append_eq_nil_iff.mp h).1 (bytes_ne_nil x)

theorem served_of_hasSent {main : MainPc} {line : List Forwarded}
    (h : main.HasSent (line.flatMap Forwarded.bytes)) : served line = [] := by
  cases main with
  | start =>
      rw [eq_nil_of_bytes h]
      rfl
  | hello =>
      rw [eq_nil_of_bytes h]
      rfl
  | done =>
      obtain ⟨helloPacket, comms, hsent⟩ := h
      cases line with
      | nil => rfl
      | cons x line =>
          rw [List.flatMap_cons] at hsent
          have hrest : line.flatMap Forwarded.bytes = [] := by
            have hlength := congrArg List.length hsent
            have hx : x.bytes.length = packetSize := Incoming.length_bytes _
            have hhello : (sendHello helloPacket comms).length = packetSize := length_serialize ..
            rw [List.length_append] at hlength
            refine List.eq_nil_of_length_eq_zero ?_
            omega
          obtain rfl := eq_nil_of_bytes hrest
          rw [hrest, List.append_nil] at hsent
          cases x with
          | hello _ _ => rfl
          | command conn commandPacket comms' buffer packet forwarded =>
              -- a command is no HELLO
              have hpacket := uartSendPacket_injective
                (show uartSendPacket comms' packet = uartSendPacket comms _ from hsent)
              obtain ⟨ht, -⟩ := handleCommand_some forwarded
              rw [hpacket] at ht
              exact absurd ht (by decide : TPacketType.hello.code ≠ TPacketType.command.code)

/-- When there is something to relay, there is a connection to relay it to. -/
theorem System.Up.has_conn (h : System.Up abi s history) {down up : List Forwarded}
    (ho : Ordered abi stack s history down up) {ok : Prop} {arrived coming : List Response}
    {relays : List (Conn × TPacket)} {held : Option TPacket}
    (hr : Relayed ok s history arrived coming relays held)
    (hdata : s.pi.receiver.pc.data? ≠ none) : s.pi.globals.tlsConn ≠ none := by
  intro hnone
  have hserved : served (down ++ up) = [] := by
    have hsilent := h.silent hnone
    rw [ho.line.sent_eq] at hsilent
    exact served_of_hasSent hsilent
  have hhandled : ordersHandled history = [] := by
    rw [ho.handled]
    rw [served_append, List.append_eq_nil_iff] at hserved
    rw [hserved.1]
    rfl
  have hreplies := hr.replies
  rw [hhandled] at hreplies
  have harrived : arrived = [] :=
    (List.append_eq_nil_iff.mp (List.map_eq_nil_iff.mp hreplies)).1
  have hheld : held = none := by
    have hsub := hr.sublist
    rw [harrived] at hsub
    exact Option.toList_eq_nil_iff.mp (List.append_eq_nil_iff.mp (List.eq_nil_of_sublist_nil hsub)).2
  have heq := hr.held_eq
  rw [hheld] at heq
  exact hdata (Option.map_eq_none_iff.mp heq.symm)

theorem System.Up.laptop (h : System.Up abi s history) {toLaptop : Conn → Channel (List UInt8)}
    (hchannel : ∀ c, (toLaptop c).sent = (s.toLaptop c).sent) {conn : Conn}
    {step : Client.Threads × List Client.LinkEvent}
    (hstep : Client.Running abi step.1 (eventsOf conn history ++ step.2))
    (hok : ∀ e ∈ step.2, ¬ e.Failed)
    (hwriting : step.1.writer ≠ .stop ∧ step.1.writer ≠ .done) :
    let r := System.afterLaptop { s with toLaptop := toLaptop } conn step
    System.Up abi r.1 (history ++ r.2) := by
  intro r
  have hevents (c : Conn) : r.2.filterMap (SystemEvent.laptop? c) =
      if conn = c then step.2 else [] := laptop?_laptop c conn step.2
  refine ⟨fun c => ?_, fun c => ?_, fun c => ?_, h.pi, h.silent,
    fun c hc => (hchannel c).trans (h.unwritten c hc)⟩
  · show Client.Running abi (Function.update s.laptops conn step.1 c) _
    rw [eventsOf, List.filterMap_append, hevents]
    by_cases hc : conn = c
    · subst hc
      rw [if_pos rfl, Function.update_self]
      exact hstep
    · rw [if_neg hc, List.append_nil, Function.update_of_ne (Ne.symm hc)]
      exact h.laptops c
  · rw [eventsOf, List.filterMap_append, hevents]
    intro e he
    rcases List.mem_append.mp he with he | he
    · exact h.fine c e he
    · by_cases hc : conn = c
      · rw [if_pos hc] at he
        exact hok e he
      · rw [if_neg hc] at he
        exact absurd he List.not_mem_nil
  · show (Function.update s.laptops conn step.1 c).writer ≠ .stop ∧
      (Function.update s.laptops conn step.1 c).writer ≠ .done
    by_cases hc : c = conn
    · rw [hc, Function.update_self]
      exact hwriting
    · rw [Function.update_of_ne hc]
      exact h.writing c

theorem System.Up.server (h : System.Up abi s history) (toPi : Conn → Channel (List UInt8))
    (fromArduino : Channel UInt8) {a : Action} (hstep : (Alex.server.step s.pi a).1.Up)
    (hsilent : (Alex.server.step s.pi a).1.globals.tlsConn = none →
      (Alex.server.step s.pi a).1.main.HasSent
        (s.toArduino.sent ++ (Alex.server.step s.pi a).2.flatMap ServerEvent.wired)) :
    let r := System.afterPi { s with toPi := toPi, fromArduino := fromArduino }
      (Alex.server.step s.pi a)
    System.Up abi r.1 (history ++ r.2) := by
  intro r
  have hevents (c : Conn) : eventsOf c (history ++ r.2) = eventsOf c history := by
    rw [eventsOf, List.filterMap_append, show r.2.filterMap _ = _ from laptop?_pi c _,
      List.append_nil]
    rfl
  refine ⟨fun c => ?_, fun c => ?_, h.writing, hstep, hsilent, fun c hc => ?_⟩
  · rw [hevents]
    exact h.laptops c
  · rw [hevents]
    exact h.fine c
  · obtain ⟨hnone, hquiet⟩ := h.pi.unwritten hc
    show (s.toLaptop c).sent ++ _ = []
    rw [h.unwritten c hnone, hquiet]
    rfl

theorem System.Up.arduino (h : System.Up abi s history) {toArduino : Channel UInt8}
    (hsent : toArduino.sent = s.toArduino.sent) (step : Firmware × List Event) :
    let r := System.afterArduino { s with toArduino := toArduino } step
    System.Up abi r.1 (history ++ r.2) := by
  intro r
  have hevents (c : Conn) : eventsOf c (history ++ r.2) = eventsOf c history := by
    rw [eventsOf, List.filterMap_append, show r.2.filterMap _ = _ from laptop?_arduino c step.2,
      List.append_nil]
    rfl
  refine ⟨fun c => ?_, fun c => ?_, h.writing, h.pi, fun hnone => ?_, h.unwritten⟩
  · rw [hevents]
    exact h.laptops c
  · rw [hevents]
    exact h.fine c
  · show s.pi.main.HasSent toArduino.sent
    rw [hsent]
    exact h.silent hnone

theorem System.Up.quiet (h : System.Up abi s history) (toPi : Conn → Channel (List UInt8))
    (fromArduino : Channel UInt8) {a : Action}
    (hstep : (Alex.server.step s.pi a).1.Up ∧ (Alex.server.step s.pi a).1.main = s.pi.main ∧
      (Alex.server.step s.pi a).1.globals.tlsConn = s.pi.globals.tlsConn ∧
      (Alex.server.step s.pi a).2.flatMap ServerEvent.wired = []) :
    let r := System.afterPi { s with toPi := toPi, fromArduino := fromArduino }
      (Alex.server.step s.pi a)
    System.Up abi r.1 (history ++ r.2) := by
  obtain ⟨hup, hmain, hconn, hwired⟩ := hstep
  refine h.server toPi fromArduino hup fun hnone => ?_
  rw [hmain, hwired, List.append_nil]
  exact h.silent (hconn.symm.trans hnone)

theorem System.Up.worker (h : System.Up abi s history) (toPi : Conn → Channel (List UInt8))
    {conn : Conn} {input : NetworkInput}
    (hinput : ∀ w, s.pi.workers conn = some w → w.pc = .read → 0 < (sslRead w.buffer input).2)
    (commandPacket : TPacket) (comms : Nat → UInt8) :
    let r := System.afterPi { s with toPi := toPi }
      (Alex.server.step s.pi (.worker conn input commandPacket comms))
    System.Up abi r.1 (history ++ r.2) := by
  cases hw : s.pi.workers conn with
  | none =>
      have hstep : Alex.server.step s.pi (.worker conn input commandPacket comms) = (s.pi, []) := by
        simp only [Alex.server, hw]
      exact h.quiet toPi s.fromArduino (hstep.symm ▸ ⟨h.pi, rfl, rfl, rfl⟩)
  | some w =>
      obtain ⟨hup, hmain, hconn, hwired⟩ := h.pi.worker hw (hinput w hw) commandPacket comms
      refine h.server toPi s.fromArduino hup fun hnone => ?_
      rw [hmain, hwired hnone, List.append_nil]
      exact h.silent (hconn hnone)

/-- **Step.**  As long as nothing fails the system stays up. -/
theorem System.Up.step (h : System.Up abi s history) {down up : List Forwarded}
    (ho : Ordered abi stack s history down up) {ok : Prop} {arrived coming : List Response}
    {relays : List (Conn × TPacket)} {held : Option TPacket}
    (hr : Relayed ok s history arrived coming relays held)
    (hlen : ∀ c, ∀ m ∈ (s.toPi c).sent, m.length = abi.sizeofPointer) {action : SystemAction}
    (hs : action.Succeeds) :
    let r := (system abi stack).step s action
    System.Up abi r.1 (history ++ r.2) := by
  -- where the laptops read and write
  have hlaptop {toLaptop : Conn → Channel (List UInt8)}
      (hchannel : ∀ c, (toLaptop c).sent = (s.toLaptop c).sent) (conn : Conn)
      (input : Client.ReaderInput)
      (hread : (s.laptops conn).reader = .read →
        0 < (Client.sslRead (s.laptops conn).buffer input).2) :
      let r := System.afterLaptop { s with toLaptop := toLaptop } conn
        ((Client.threads abi).step (s.laptops conn) (.reader input))
      System.Up abi r.1 (history ++ r.2) := by
    have hok := Client.not_failed_reader abi hread
    exact h.laptop hchannel ((h.laptops conn).reader input hok) hok (h.writing conn)
  cases action with
  | reader conn outcome =>
      obtain rfl : outcome = .message := hs
      show System.Up abi (s.reader abi conn .message).1 _
      simp only [system, System.reader]
      split
      · rename_i hpc
        split
        · rename_i message channel ho
          obtain ⟨m, hm, heq⟩ := Option.map_eq_some_iff.mp (System.read_of_readLaptop ho)
          obtain ⟨rfl, rfl⟩ := Prod.mk.inj heq
          have hmem := mem_of_mem_waiting (List.mem_of_mem_head? hm)
          refine hlaptop (fun c => ?_) conn _ fun _ =>
            Client.sslRead_receive _ (hr.length_mem hmem).1
          by_cases hc : c = conn
          · rw [hc, Function.update_self, sent_pop]
          · rw [Function.update_of_ne hc]
        · rw [List.append_nil]
          exact h
      · rename_i hpc
        exact hlaptop (fun _ => rfl) conn none fun hread => absurd hread hpc
  | writer conn input =>
      obtain ⟨hcount, hc, hquit⟩ := hs
      show System.Up abi (s.writer abi conn input).1 _
      simp only [system, System.writer]
      split
      · rw [List.append_nil]
        exact h
      · exact h.laptop (fun _ => rfl) ((h.laptops conn).writer input fun _ => hc)
          (Client.not_failed_writer abi hcount) (Client.writer_stays abi hquit (h.writing conn))
  | main helloPacket comms =>
      show System.Up abi (s.afterPi (Alex.server.step s.pi (.main helloPacket comms))).1 _
      obtain ⟨hup, hconn, hsent⟩ := h.pi.main helloPacket comms
      exact h.server s.toPi s.fromArduino hup fun hnone =>
        hsent _ (h.silent (hconn.symm.trans hnone))
  | connect conn => exact h.quiet s.toPi s.fromArduino (h.pi.connect conn (stack conn))
  | worker conn outcome commandPacket comms =>
      obtain rfl : outcome = .message := hs
      show System.Up abi (s.worker conn .message commandPacket comms).1 _
      simp only [system, System.worker]
      split
      · split
        · rename_i message channel ho
          obtain ⟨m, hm, heq⟩ := Option.map_eq_some_iff.mp ho
          obtain ⟨rfl, rfl⟩ := Prod.mk.inj heq
          have hmem := mem_of_mem_waiting (List.mem_of_mem_head? hm)
          have hpos : 0 < m.length := by
            have hle := sizeofPointer_le abi
            rw [hlen conn m hmem]
            omega
          exact h.worker _ (fun w _ _ => sslRead_deliver w.buffer hpos) commandPacket comms
        · rw [List.append_nil]
          exact h
      · rename_i hpc
        refine h.worker s.toPi (fun w hw hread => absurd ?_ hpc) commandPacket comms
        rw [hw, Option.map_some, hread]
  | uart len count =>
      have hconn := h.has_conn ho hr
      show System.Up abi (s.uart len count).1 _
      simp only [system, System.uart]
      split
      · exact h.quiet s.toPi _ (h.pi.uart hconn _ hs.2)
      · exact h.quiet s.toPi s.fromArduino (h.pi.uart hconn _ hs.2)
  | int0 => exact h.arduino rfl _
  | int1 => exact h.arduino rfl _
  | loop len input => exact h.arduino (sent_pop s.toArduino len) _

end

/-! ## Sessions -/

section
variable (abi : DataModel) (stack : Conn → Nat → UInt8) (vincentCirc : ℚ)
  (laptop : Conn → Nat → UInt8) (pi arduino : Boot) (actions : List SystemAction)

end

end Alex
