/-
# `Alex.Response` — a response on its way to the laptop

What the Arduino sends is encoded five times before it is shown:

    TPacket  →  TComms, 140 bytes  →  UART, in chunks  →  2, 33 or 65 bytes  →  buffer[128]
             sendResponse         uartReceiveThread   handleUARTPacket   handleNetwork

`respond` is a pass of the UART thread while no other thread assigns the variables
they share; it is what the steps of `Alex.Threads` come to (`server_respond`).
-/
import Alex.Delivery
import Alex.Reader
import Alex.Threads

namespace Alex

open Cells Blocks

/-! ## A pass of the UART thread -/

/-- `sendNetworkData(data, len)`: the variables after it, and what `sslWrite` is called
with, if it is.  `count` is as in `Receiver.step`. -/
def sendNetworkData (g : Globals) (data : List UInt8) (count : Int) :
    Globals × Option (Conn × List UInt8) :=
  if g.networkActive then
    ({ g with networkActive := count > 0 }, g.tlsConn.map fun conn => (conn, data))
  else (g, none)

/-- `uartReceiveThread` and the functions it calls, one pass of the loop; the answer is
what is written to the connection. -/
def respond : Mealy (Globals × Uart) (SerialInput × Int) (Option (Conn × List UInt8)) where
  step s input :=
    let (uart, result) := uartReceiveThread.step s.2 input.1
    if result = some .packetOk then
      match handleUARTPacket (.ofMemory uart.packet.get) with
      | some data =>
          let (g, written) := sendNetworkData s.1 data input.2
          ((g, uart), written)
      | none => ((s.1, uart), none)
    else ((s.1, uart), none)

def ServerEvent.written? : ServerEvent → Option (Conn × List UInt8)
  | .sslWrite conn data _ => conn.map fun conn => (conn, data)
  | .connected _ | .entered _ | .left _ | .sslRead _ _ | .assigned _ _ | .uartSent _
  | .freed _ => none

/-- From its first test on, the UART thread by itself does what `sendNetworkData` does. -/
theorem server_sendNetworkData {s : Server} {data : List UInt8}
    (hpc : s.receiver.pc = .testActive data) (input : SerialInput) (count : Int) :
    ∃ n, server.final s (List.replicate n (.uart input count)) =
        { s with
          globals := (sendNetworkData s.globals data count).1
          receiver := { s.receiver with pc := .receive } } ∧
      (server.trace s (List.replicate n (.uart input count))).filterMap ServerEvent.written? =
        (sendNetworkData s.globals data count).2.toList := by
  obtain ⟨⟨active, tlsConn⟩, main, workers, ⟨pc, uart⟩⟩ := s
  obtain rfl : pc = .testActive data := hpc
  cases active with
  | false => exact ⟨1, rfl, rfl⟩
  | true =>
      cases tlsConn with
      | none => exact ⟨3, rfl, rfl⟩
      | some conn => exact ⟨5, rfl, rfl⟩

/-- The steps of the UART thread, when it is alone, make up passes. -/
theorem server_respond {s : Server} (hpc : s.receiver.pc = .receive) (input : SerialInput)
    (count : Int) :
    let pass := respond.step (s.globals, s.receiver.uart) (input, count)
    ∃ n, server.final s (List.replicate n (.uart input count)) =
        { s with globals := pass.1.1, receiver := ⟨.receive, pass.1.2⟩ } ∧
      (server.trace s (List.replicate n (.uart input count))).filterMap ServerEvent.written? =
        pass.2.toList := by
  intro pass
  rcases hu : uartReceiveThread.step s.receiver.uart input with ⟨uart, result⟩
  -- a pass that sends nothing is one step
  have hquiet (hpass : pass = ((s.globals, uart), none))
      (hstep : server.step s (.uart input count) =
        ({ s with receiver := ⟨.receive, uart⟩ }, [])) :
      server.final s (List.replicate 1 (.uart input count)) =
        { s with globals := pass.1.1, receiver := ⟨.receive, pass.1.2⟩ } ∧
      (server.trace s (List.replicate 1 (.uart input count))).filterMap ServerEvent.written? =
        pass.2.toList := by
    rw [List.replicate_one, server.final_cons, server.trace_cons, hstep, hpass]
    exact ⟨rfl, rfl⟩
  by_cases hr : result = some .packetOk
  · cases hd : handleUARTPacket (.ofMemory uart.packet.get) with
    | none =>
        refine ⟨1, hquiet ?_ ?_⟩
        · simp only [pass, respond, hu, hr, if_true, hd]
        · simp only [server, Receiver.step, hpc, hu, hr, if_true, hd]
    | some data =>
        have hstep : server.step s (.uart input count) =
            ({ s with receiver := ⟨.testActive data, uart⟩ }, []) := by
          simp only [server, Receiver.step, hpc, hu, hr, if_true, hd]
        have hpass : pass = (((sendNetworkData s.globals data count).1, uart),
            (sendNetworkData s.globals data count).2) := by
          simp only [pass, respond, hu, hr, if_true, hd]
        obtain ⟨n, hfinal, htrace⟩ := @server_sendNetworkData
          { s with receiver := ⟨.testActive data, uart⟩ } data rfl input count
        refine ⟨n + 1, ?_, ?_⟩
        · rw [List.replicate_succ, server.final_cons, hstep, hpass]
          exact hfinal
        · rw [List.replicate_succ, server.trace_cons, hstep, hpass]
          exact htrace
  · refine ⟨1, hquiet ?_ ?_⟩
    · simp only [pass, respond, hu, if_neg hr]
    · simp only [server, Receiver.step, hpc, hu, if_neg hr]

/-! ## What the passes write -/

def SerialInput.bytes : SerialInput → List UInt8
  | none => []
  | some bytes => bytes.val

/-- **Step.**  A pass holds back what does not fill a block, or decodes a block. -/
theorem uartReceiveThread_push {s : Uart} {input : SerialInput} (hb : s.assembler.Between)
    (hlen : input.bytes.length ≤ packetSize) :
    (uartReceiveThread.step s input).1.assembler.Between ∧
    match push packetSize s.assembler.pending input.bytes with
    | (held, none) =>
        (uartReceiveThread.step s input).1.assembler.pending = held ∧
        (uartReceiveThread.step s input).2 ≠ some .packetOk
    | (held, some block) =>
        (uartReceiveThread.step s input).1.assembler.pending = held ∧
        ((dataSize (chunkBuffer block)).toNat ≤ maxDataSize →
          (uartReceiveThread.step s input).2 = some (verdict block).result ∧
          (uartReceiveThread.step s input).1.packet = (verdict block).deliver s.packet) := by
  cases input with
  | none =>
      have hpush := push_nil hb.length_pending
      rw [SerialInput.bytes, hpush]
      exact ⟨hb, rfl, fun h => nomatch h⟩
  | some bytes =>
      by_cases hpos : (bytes.val.length : Int) > 0
      · have hstep : uartReceiveThread.step s (some bytes) =
            ((Uart.deserialize { s with buffer := s.buffer.write 0 bytes.val } bytes.val.length).1,
              some (Uart.deserialize { s with buffer := s.buffer.write 0 bytes.val }
                bytes.val.length).2) := if_pos hpos
        have hread : slice (s.buffer.write 0 bytes.val).get 0 bytes.val.length = bytes.val :=
          slice_write ..
        obtain ⟨hb', hpush⟩ := @Uart.deserialize_push
          { s with buffer := s.buffer.write 0 bytes.val } bytes.val.length hb hlen
        rw [hread] at hpush
        rw [hstep, SerialInput.bytes]
        refine ⟨hb', ?_⟩
        rcases hc : push packetSize s.assembler.pending bytes.val with ⟨held, _ | block⟩
        · rw [hc] at hpush
          refine ⟨hpush.1, ?_⟩
          rw [hpush.2.1]
          exact fun h => nomatch h
        · rw [hc] at hpush
          exact ⟨hpush.1, fun hsize => ⟨congrArg some (hpush.2 hsize).1, (hpush.2 hsize).2⟩⟩
      · have hstep : uartReceiveThread.step s (some bytes) =
            ({ s with buffer := s.buffer.write 0 bytes.val }, none) := if_neg hpos
        have hnil : bytes.val = [] := List.eq_nil_of_length_eq_zero (by omega)
        rw [hstep, SerialInput.bytes, hnil, push_nil hb.length_pending]
        exact ⟨hb, rfl, fun h => nomatch h⟩

/-- The Arduino's calls of `sendResponse`: the stack under it, and its argument. -/
abbrev Response := Stack × TPacket

def Response.frame (r : Response) : List UInt8 := sendResponse r.1 r.2

theorem Response.length_frame (r : Response) : r.frame.length = packetSize := length_serialize ..

/-- **Step.**  While frames of the Arduino arrive, a pass decodes none of them, or the next. -/
theorem uartReceiveThread_frames {s : Uart} {input : SerialInput} (hb : s.assembler.Between)
    (hlen : input.bytes.length ≤ packetSize) {rest : List UInt8} {responses : List Response}
    (hbytes : s.assembler.pending ++ (input.bytes ++ rest) = responses.flatMap Response.frame) :
    let pass := uartReceiveThread.step s input
    pass.1.assembler.Between ∧
      ((pass.2 ≠ some .packetOk ∧
          pass.1.assembler.pending ++ rest = responses.flatMap Response.frame) ∨
        ∃ r later, responses = r :: later ∧ pass.2 = some .packetOk ∧
          TPacket.ofMemory pass.1.packet.get = r.2 ∧
          pass.1.assembler.pending ++ rest = later.flatMap Response.frame) := by
  intro pass
  obtain ⟨hb', hpush⟩ := uartReceiveThread_push hb hlen
  refine ⟨hb', ?_⟩
  rcases push_flatMap (by decide) Response.length_frame hbytes with
    hp | ⟨r, later, held, rfl, hp, -, hrest⟩
  · rw [hp] at hpush
    refine .inl ⟨hpush.2, ?_⟩
    rw [hpush.1, List.append_assoc]
    exact hbytes
  · rw [hp] at hpush
    obtain ⟨hpending, hdecode⟩ := hpush
    have hpacket := r.2.length_bytes_le
    obtain ⟨hresult, houtput⟩ := hdecode (dataSize_serialize r.1.comms hpacket)
    refine .inr ⟨r, later, rfl, ?_, ?_, ?_⟩
    · rw [hresult, Response.frame, sendResponse, verdict_serialize r.1.comms hpacket]
      rfl
    · rw [houtput, Response.frame, sendResponse, ofMemory_deliver_serialize]
    · rw [hpending]
      exact hrest

section
variable {g : Globals} {conn : Conn}

theorem sendNetworkData_active (hg : g.networkActive = true) (hconn : g.tlsConn = some conn)
    {count : Int} (hcount : 0 < count) (data : List UInt8) :
    sendNetworkData g data count = (g, some (conn, data)) := by
  have hsame : { g with networkActive := decide (count > 0) } = g := by
    rw [decide_eq_true hcount, ← hg]
  rw [sendNetworkData, if_pos hg, hsame, hconn]
  rfl

theorem respond_quiet {uart : Uart} {input : SerialInput × Int}
    (h : (uartReceiveThread.step uart input.1).2 ≠ some .packetOk) :
    respond.step (g, uart) input = ((g, (uartReceiveThread.step uart input.1).1), none) :=
  if_neg h

theorem respond_packet (hg : g.networkActive = true) (hconn : g.tlsConn = some conn)
    {uart : Uart} {input : SerialInput × Int} (hcount : 0 < input.2)
    (h : (uartReceiveThread.step uart input.1).2 = some .packetOk) :
    respond.step (g, uart) input = ((g, (uartReceiveThread.step uart input.1).1),
      (handleUARTPacket (.ofMemory (uartReceiveThread.step uart input.1).1.packet.get)).map
        fun data => (conn, data)) := by
  simp only [respond, h, if_true]
  cases handleUARTPacket (.ofMemory (uartReceiveThread.step uart input.1).1.packet.get) with
  | none => rfl
  | some data =>
      simp only [sendNetworkData_active hg hconn hcount]
      rfl

/-- **Step.**  While the network is active, a pass writes nothing, or what
`handleUARTPacket` makes of the next packet. -/
theorem respond_step (hg : g.networkActive = true) (hconn : g.tlsConn = some conn) {uart : Uart}
    {input : SerialInput × Int} (hb : uart.assembler.Between)
    (hlen : input.1.bytes.length ≤ packetSize) (hcount : 0 < input.2) {rest : List UInt8}
    {responses : List Response}
    (hbytes : uart.assembler.pending ++ (input.1.bytes ++ rest) =
      responses.flatMap Response.frame) :
    ∃ uart', uart'.assembler.Between ∧
      ((respond.step (g, uart) input = ((g, uart'), none) ∧
          uart'.assembler.pending ++ rest = responses.flatMap Response.frame) ∨
        ∃ r later, responses = r :: later ∧
          respond.step (g, uart) input =
            ((g, uart'), (handleUARTPacket r.2).map fun data => (conn, data)) ∧
          uart'.assembler.pending ++ rest = later.flatMap Response.frame) := by
  obtain ⟨hb', ⟨hquiet, hrest⟩ | ⟨r, later, hr, hok, hpacket, hrest⟩⟩ :=
    uartReceiveThread_frames hb hlen hbytes
  · exact ⟨_, hb', .inl ⟨respond_quiet hquiet, hrest⟩⟩
  · refine ⟨_, hb', .inr ⟨r, later, hr, ?_, hrest⟩⟩
    rw [respond_packet hg hconn hcount hok, hpacket]

/-- **Run.**  The connection is written what the packets become, in order. -/
theorem written_respond (hg : g.networkActive = true) (hconn : g.tlsConn = some conn)
    {uart : Uart} (hb : uart.assembler.Between) {inputs : List (SerialInput × Int)}
    (hlen : ∀ i ∈ inputs, i.1.bytes.length ≤ packetSize) (hcount : ∀ i ∈ inputs, 0 < i.2)
    {responses : List Response}
    (hbytes : uart.assembler.pending ++ inputs.flatMap (·.1.bytes) =
      responses.flatMap Response.frame) :
    (respond.outputs (g, uart) inputs).reduceOption =
      ((responses.map (·.2)).filterMap handleUARTPacket).map fun data => (conn, data) := by
  induction inputs generalizing uart responses with
  | nil =>
      rw [List.flatMap_nil, List.append_nil] at hbytes
      obtain rfl := eq_nil_of_flatMap_short Response.length_frame hb.length_pending hbytes
      rfl
  | cons i inputs ih =>
      have hlen' := fun j hj => hlen j (List.mem_cons_of_mem i hj)
      have hcount' := fun j hj => hcount j (List.mem_cons_of_mem i hj)
      rw [List.flatMap_cons] at hbytes
      obtain ⟨uart', hb', ⟨hstep, hrest⟩ | ⟨r, later, rfl, hstep, hrest⟩⟩ :=
        respond_step hg hconn hb (hlen i List.mem_cons_self) (hcount i List.mem_cons_self) hbytes
      · rw [respond.outputs_cons, hstep, List.reduceOption_cons_of_none]
        exact ih hb' hlen' hcount' hrest
      · have ih := ih hb' hlen' hcount' hrest
        rw [respond.outputs_cons, hstep, List.map_cons, List.filterMap_cons]
        cases handleUARTPacket r.2 with
        | none => exact ih
        | some data => exact congrArg ((conn, data) :: ·) ih

end

/-! ## What the laptop shows -/

/-- The packets that are meant for the laptop. -/
def TPacket.isForClient (p : TPacket) : Bool :=
  match TPacketType.ofCode? p.packetType with
  | some .response =>
      p.command = TResponseType.ok.code || p.command = TResponseType.status.code
  | some .error | some .message => true
  | some .command | some .hello | none => false

/-- A handler shows what a packet says. -/
inductive Shows (p : TPacket) : Client.Display → Prop
  | ok : p.packetType = TPacketType.response.code → p.command = TResponseType.ok.code →
      Shows p (.error TResponseType.ok.code "Command / Status OK")
  | status : p.packetType = TPacketType.response.code →
      p.command = TResponseType.status.code → Shows p (.status p.params)
  | error : p.packetType = TPacketType.error.code →
      Shows p (.error p.command (Client.errorText p.command))
  | message (text : Nat → UInt8) : p.packetType = TPacketType.message.code →
      (∀ i : Fin 32, text i = p.data i) → Shows p (.message text)

/-- A message in the laptop's buffer is shown as what the packet says. -/
def Legible (p : TPacket) (data : List UInt8) : Prop :=
  1 ≤ data.length ∧ data.length ≤ Client.bufferLen ∧
    ∀ buffer, slice buffer 0 data.length = data → Shows p (Client.handleNetwork buffer)

section
variable {p : TPacket}

theorem legible_ok (ht : p.packetType = TPacketType.response.code)
    (hc : p.command = TResponseType.ok.code) :
    Legible p [TNetConstants.errorPacket.code, TResponseType.ok.code] := by
  refine ⟨by decide, by decide, fun buffer h => ?_⟩
  obtain ⟨h₀, h₁⟩ := List.cons.inj h
  replace h₀ : buffer 0 = _ := h₀
  replace h₁ : buffer 1 = _ := (List.cons.inj h₁).1
  rw [Client.handleNetwork, h₀, TNetConstants.ofCode?_code]
  show Shows p (.error (buffer 1) (Client.errorText (buffer 1)))
  rw [h₁]
  exact .ok ht hc

theorem legible_error (ht : p.packetType = TPacketType.error.code) :
    Legible p (handleErrorResponse p) := by
  refine ⟨Nat.succ_pos _, (by decide : 2 ≤ 128), fun buffer h => ?_⟩
  obtain ⟨h₀, h₁⟩ := List.cons.inj h
  replace h₀ : buffer 0 = _ := h₀
  replace h₁ : buffer 1 = _ := (List.cons.inj h₁).1
  rw [Client.handleNetwork, h₀, TNetConstants.ofCode?_code]
  show Shows p (.error (buffer 1) (Client.errorText (buffer 1)))
  rw [h₁]
  exact .error ht

theorem legible_status (ht : p.packetType = TPacketType.response.code)
    (hc : p.command = TResponseType.status.code) : Legible p (handleStatus p) := by
  refine ⟨Nat.succ_pos _, (by decide : 65 ≤ 128), fun buffer h => ?_⟩
  rw [handleStatus, List.length_cons, slice_succ] at h
  obtain ⟨h₀, h₁⟩ := List.cons.inj h
  have hdata : (fun i : Fin 16 => Bytes.word buffer (1 + 4 * i)) = p.params := by
    funext i
    have hi : i.val < (List.ofFn p.params).length := by
      rw [List.length_ofFn]
      exact i.isLt
    rw [Bytes.word_of_words h₁ hi, List.getElem_ofFn]
  rw [Client.handleNetwork, h₀, TNetConstants.ofCode?_code]
  show Shows p (.status _)
  rw [hdata]
  exact .status ht hc

theorem legible_message (ht : p.packetType = TPacketType.message.code) :
    Legible p (handleMessage p) := by
  refine ⟨Nat.succ_pos _, (by decide : 33 ≤ 128), fun buffer h => ?_⟩
  rw [handleMessage, List.length_cons, slice_succ] at h
  obtain ⟨h₀, h₁⟩ := List.cons.inj h
  rw [Client.handleNetwork, h₀, TNetConstants.ofCode?_code]
  refine .message _ ht fun i => ?_
  have hi : i.val < (List.ofFn p.data).length := by
    rw [List.length_ofFn]
    exact i.isLt
  have hbyte := slice_eq_iff.mp h₁ i hi
  rw [List.getElem_ofFn] at hbyte
  exact hbyte

end

/-- What the Pi writes for a packet that is meant for the laptop is legible there; for
the others it writes nothing. -/
theorem handleUARTPacket_legible (p : TPacket) :
    p.isForClient = true ∧ (∃ data, handleUARTPacket p = some data ∧ Legible p data) ∨
      p.isForClient = false ∧ handleUARTPacket p = none := by
  rw [TPacket.isForClient, handleUARTPacket]
  cases ht : TPacketType.ofCode? p.packetType with
  | none => exact .inr ⟨rfl, rfl⟩
  | some t =>
      have hcode := (TPacketType.code_of_ofCode? ht).symm
      cases t with
      | command => exact .inr ⟨rfl, rfl⟩
      | hello => exact .inr ⟨rfl, rfl⟩
      | error => exact .inl ⟨rfl, _, rfl, legible_error hcode⟩
      | message => exact .inl ⟨rfl, _, rfl, legible_message hcode⟩
      | response =>
          simp only [handleResponse]
          by_cases hok : p.command = TResponseType.ok.code
          · rw [if_pos hok, decide_eq_true hok]
            exact .inl ⟨rfl, _, rfl, legible_ok hcode hok⟩
          · rw [if_neg hok, decide_eq_false hok]
            by_cases hstatus : p.command = TResponseType.status.code
            · rw [if_pos hstatus, decide_eq_true hstatus]
              exact .inl ⟨rfl, _, rfl, legible_status hcode hstatus⟩
            · rw [if_neg hstatus, decide_eq_false hstatus]
              exact .inr ⟨rfl, rfl⟩

theorem legible_messages (packets : List TPacket) :
    List.Forall₂ Legible (packets.filter TPacket.isForClient)
      (packets.filterMap handleUARTPacket) := by
  induction packets with
  | nil => exact .nil
  | cons p ps ih =>
      rcases handleUARTPacket_legible p with ⟨hp, data, hdata, hl⟩ | ⟨hp, hnone⟩
      · rw [List.filter_cons_of_pos hp, List.filterMap_cons, hdata]
        exact .cons hl ih
      · rw [List.filter_cons_of_neg (Bool.eq_false_iff.mp hp), List.filterMap_cons, hnone]
        exact ih

theorem shown_of_legible {packets : List TPacket} {messages : List (List UInt8)}
    {calls : List (Nat → UInt8)} (h : List.Forall₂ Legible packets messages)
    (hc : List.Forall₂ (fun m buffer => slice buffer 0 m.length = m) messages calls) :
    List.Forall₂ (fun p buffer => Shows p (Client.handleNetwork buffer)) packets calls := by
  induction h generalizing calls with
  | nil =>
      cases hc
      exact .nil
  | cons hl _ ih =>
      cases hc with
      | cons hs hc => exact .cons (hl.2.2 _ hs) (ih hc)

theorem length_of_legible {packets : List TPacket} {messages : List (List UInt8)}
    (h : List.Forall₂ Legible packets messages) :
    ∀ m ∈ messages, 1 ≤ m.length ∧ m.length ≤ Client.bufferLen := by
  induction h with
  | nil => exact fun _ hm => absurd hm List.not_mem_nil
  | cons hl _ ih =>
      intro m hm
      rcases List.mem_cons.mp hm with rfl | hm
      · exact ⟨hl.1, hl.2.1⟩
      · exact ih m hm

/-- **Response path.**  Whatever packets the Arduino sends and however the Pi reads them,
the laptop calls `handleNetwork` once for every packet that is meant for it, in order,
and is shown what the packet says; nothing else reaches it. -/
theorem responses_shown (responses : List Response) (inputs : List (SerialInput × Int))
    (leftover privateMem uartBuffer packet : Nat → UInt8) (conn : Conn) (buffer : Cells UInt8)
    (hbytes : inputs.flatMap (·.1.bytes) = responses.flatMap Response.frame)
    (hlen : ∀ i ∈ inputs, i.1.bytes.length ≤ packetSize) (hcount : ∀ i ∈ inputs, 0 < i.2) :
    let written := (respond.outputs
      (⟨true, some conn⟩, .initial leftover privateMem uartBuffer packet) inputs).reduceOption
    let calls := (Client.readerThread.outputs ⟨⟨true⟩, buffer⟩
      (written.map fun w => Client.receive w.2)).reduceOption
    (∀ w ∈ written, w.1 = conn) ∧
      List.Forall₂ (fun p buffer => Shows p (Client.handleNetwork buffer))
        ((responses.map (·.2)).filter TPacket.isForClient) calls := by
  intro written calls
  have hwritten : written = ((responses.map (·.2)).filterMap handleUARTPacket).map
      fun data => (conn, data) :=
    @written_respond ⟨true, some conn⟩ conn rfl rfl _
      (Assembler.between_initial leftover privateMem) _ hlen hcount _ hbytes
  have hlegible := legible_messages (responses.map (·.2))
  constructor
  · intro w hw
    rw [hwritten] at hw
    obtain ⟨data, -, rfl⟩ := List.mem_map.mp hw
    rfl
  · have hcalls : calls = (Client.readerThread.outputs ⟨⟨true⟩, buffer⟩
        (((responses.map (·.2)).filterMap handleUARTPacket).map Client.receive)).reduceOption := by
      show (Client.readerThread.outputs _ (written.map _)).reduceOption = _
      rw [hwritten, List.map_map]
      rfl
    rw [hcalls]
    exact shown_of_legible hlegible
      (Client.calls_readerThread rfl (length_of_legible hlegible))

def Response.three : List Response :=
  [(LoopInput.silent.first, { TPacket.zeroes with packetType := TPacketType.response.code }),
    (LoopInput.silent.first, { TPacket.zeroes with packetType := TPacketType.hello.code }),
    (LoopInput.silent.first, { TPacket.zeroes with packetType := TPacketType.message.code })]

/-- A read of a stream from an offset on, of no more than 130 bytes. -/
def readFrom (stream : List UInt8) (off : Nat) : SerialInput × Int :=
  (some ⟨(stream.drop off).take 130, (List.length_take_le ..).trans (by decide)⟩, 2)

theorem bytes_readFrom {stream : List UInt8} (h : stream.length ≤ 520) :
    ([0, 130, 260, 390].map (readFrom stream)).flatMap (·.1.bytes) = stream := by
  have h₁ := List.take_append_drop 130 stream
  have h₂ := List.take_append_drop 130 (stream.drop 130)
  have h₃ := List.take_append_drop 130 (stream.drop 260)
  have h₄ : (stream.drop 390).take 130 = stream.drop 390 :=
    List.take_of_length_le (by rw [List.length_drop]; omega)
  rw [List.drop_drop] at h₂ h₃
  show stream.take 130 ++ ((stream.drop 130).take 130 ++ ((stream.drop 260).take 130 ++
    ((stream.drop 390).take 130 ++ []))) = stream
  rw [List.append_nil, h₄, h₃, h₂, h₁]

theorem responses_shown_three :
    let written := (respond.outputs
      (⟨true, some 0⟩, .initial (fun _ => 0) (fun _ => 0) (fun _ => 0) fun _ => 0)
      ([0, 130, 260, 390].map (readFrom (Response.three.flatMap Response.frame)))).reduceOption
    let calls := (Client.readerThread.outputs ⟨⟨true⟩, ⟨fun _ => 0, []⟩⟩
      (written.map fun w => Client.receive w.2)).reduceOption
    (∀ w ∈ written, w.1 = 0) ∧
      List.Forall₂ (fun p buffer => Shows p (Client.handleNetwork buffer))
        ((Response.three.map (·.2)).filter TPacket.isForClient) calls := by
  have hlength : (Response.three.flatMap Response.frame).length = 420 := by
    simp only [Response.three, List.flatMap_cons, List.flatMap_nil, List.length_append,
      Response.length_frame, List.length_nil, packetSize]
  refine responses_shown Response.three _ (fun _ => 0) (fun _ => 0) (fun _ => 0) (fun _ => 0) 0
    ⟨fun _ => 0, []⟩ (bytes_readFrom (by omega)) ?_ ?_
  · intro i hi
    obtain ⟨off, -, rfl⟩ := List.mem_map.mp hi
    exact (List.length_take_le ..).trans (by decide)
  · intro i hi
    obtain ⟨off, -, rfl⟩ := List.mem_map.mp hi
    show (0 : Int) < 2
    decide

end Alex
