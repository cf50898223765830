/-
# `Alex.Leak` — what the stack holds, and what the laptop is sent of it

The Arduino assigns a few fields of a `TPacket` and sends all of it, and `serialize`
copies it into a `TComms` of which it assigns a few fields too.  The Pi takes the
packet out of the frame and passes on a part of it:

    reply             assigned                    passed on
    OK                packetType, command         nothing: the message is a constant
    BAD_…             packetType, command         command
    STATUS            …, params[0] … params[10]   params[0] … params[15]
    MESSAGE           packetType, data            data

`strncpy` fills `data` up, so a message takes nothing of the stack along.  The last
five words of a status do.
-/
import Mathlib.Data.List.OfFn
import Alex.Response

namespace Alex

open Cells Blocks

/-! ## The remaining responses -/

def maxStrLen : Nat := 32

/-- `strncpy(dst, src, n)`: what it stores to `dst`, from `dst[0]` on. -/
def strncpy (src : Nat → UInt8) : Nat → List UInt8
  | 0 => []
  | n + 1 =>
      if src 0 = 0 then List.replicate (n + 1) 0
      else src 0 :: strncpy (fun i => src (i + 1)) n

def sendMessage (stack : Stack) (message : Nat → UInt8) : List UInt8 :=
  sendResponse stack { stack.packet with
    packetType := TPacketType.message.code
    data := fun i => (strncpy message maxStrLen)[i.val]?.getD (stack.packet.data i) }

def sendBadResponse (stack : Stack) : List UInt8 := sendCode stack .error .badResponse

/-- Something the Arduino has to say. -/
inductive Reply where
  | ok | badPacket | badChecksum | badCommand | badResponse
  | status (r : Robot)
  | message (text : Nat → UInt8)

def Reply.send (stack : Stack) : Reply → List UInt8
  | .ok => sendOK stack
  | .badPacket => sendBadPacket stack
  | .badChecksum => sendBadChecksum stack
  | .badCommand => sendBadCommand stack
  | .badResponse => sendBadResponse stack
  | .status r => sendStatus stack r
  | .message text => sendMessage stack text

@[simp] theorem length_strncpy (src : Nat → UInt8) (n : Nat) : (strncpy src n).length = n := by
  induction n generalizing src with
  | zero => rfl
  | succ n ih =>
      rw [strncpy]
      split
      · exact List.length_replicate
      · rw [List.length_cons, ih]

/-! ## The message for the laptop -/

def Reply.packet (stack : TPacket) : Reply → TPacket
  | .ok => { stack with
      packetType := TPacketType.response.code, command := TResponseType.ok.code }
  | .badPacket => { stack with
      packetType := TPacketType.error.code, command := TResponseType.badPacket.code }
  | .badChecksum => { stack with
      packetType := TPacketType.error.code, command := TResponseType.badChecksum.code }
  | .badCommand => { stack with
      packetType := TPacketType.error.code, command := TResponseType.badCommand.code }
  | .badResponse => { stack with
      packetType := TPacketType.error.code, command := TResponseType.badResponse.code }
  | .status r => { stack with
      packetType := TPacketType.response.code
      command := TResponseType.status.code
      params := fun i => r.status[i.val]?.getD (stack.params i) }
  | .message text => { stack with
      packetType := TPacketType.message.code
      data := fun i => (strncpy text maxStrLen)[i.val]?.getD (stack.data i) }

theorem Reply.send_eq (stack : Stack) (reply : Reply) :
    reply.send stack = sendResponse stack (reply.packet stack.packet) := by
  cases reply <;> rfl

/-- What the Pi passes on of a reply that was built over `stack`. -/
def Reply.relayed (stack : TPacket) : Reply → List UInt8
  | .ok => [TNetConstants.errorPacket.code, TResponseType.ok.code]
  | .badPacket => [TNetConstants.errorPacket.code, TResponseType.badPacket.code]
  | .badChecksum => [TNetConstants.errorPacket.code, TResponseType.badChecksum.code]
  | .badCommand => [TNetConstants.errorPacket.code, TResponseType.badCommand.code]
  | .badResponse => [TNetConstants.errorPacket.code, TResponseType.badResponse.code]
  | .status r => TNetConstants.statusPacket.code ::
      (List.ofFn fun i => r.status[i.val]?.getD (stack.params i)).flatMap Bytes.ofWord
  | .message text => TNetConstants.messagePacket.code :: strncpy text maxStrLen

/-- `data` is full: nothing of the stack shows between the text and its end. -/
theorem ofFn_strncpy (text : Nat → UInt8) (stack : Fin 32 → UInt8) :
    (List.ofFn fun i : Fin 32 => (strncpy text maxStrLen)[i.val]?.getD (stack i)) =
      strncpy text maxStrLen := by
  have hlen : (strncpy text maxStrLen).length = 32 := length_strncpy text maxStrLen
  apply List.ext_getElem
  · rw [List.length_ofFn, hlen]
  · intro i h₁ h₂
    rw [List.getElem_ofFn, List.getElem?_eq_getElem h₂]
    rfl

theorem handleUARTPacket_packet (stack : TPacket) (reply : Reply) :
    handleUARTPacket (reply.packet stack) = some (reply.relayed stack) := by
  cases reply with
  | message text =>
      show some (TNetConstants.messagePacket.code :: List.ofFn fun i : Fin 32 =>
        (strncpy text maxStrLen)[i.val]?.getD (stack.data i)) = _
      rw [ofFn_strncpy]
      rfl
  | ok => rfl
  | badPacket => rfl
  | badChecksum => rfl
  | badCommand => rfl
  | badResponse => rfl
  | status r => rfl

/-- Two stacks under a status show exactly if one of the last five words differs. -/
theorem relayed_eq_iff (stack stack' : TPacket) (reply : Reply) :
    reply.relayed stack = reply.relayed stack' ↔
      ((∃ r, reply = .status r) → ∀ i : Fin 16, 11 ≤ i.val → stack.params i = stack'.params i) := by
  cases reply with
  | status r =>
      have hwords : ((Reply.status r).relayed stack = (Reply.status r).relayed stack' ↔
          ∀ i : Fin 16, r.status[i.val]?.getD (stack.params i) =
            r.status[i.val]?.getD (stack'.params i)) := by
        simp only [Reply.relayed, List.cons.injEq, true_and, Bytes.flatMap_ofWord_inj,
          List.ofFn_inj, funext_iff]
      rw [hwords]
      have hlen : r.status.length = 11 := rfl
      constructor
      · intro h _ i hi
        have hnone : r.status[i.val]? = none := List.getElem?_eq_none (hlen.trans_le hi)
        simpa only [hnone, Option.getD_none] using h i
      · intro h i
        by_cases hi : i.val < 11
        · rw [List.getElem?_eq_getElem (hlen ▸ hi), Option.getD_some, Option.getD_some]
        · rw [h ⟨r, rfl⟩ i (Nat.le_of_not_lt hi)]
  | ok => exact iff_of_true rfl fun ⟨_, h⟩ => Reply.noConfusion h
  | badPacket => exact iff_of_true rfl fun ⟨_, h⟩ => Reply.noConfusion h
  | badChecksum => exact iff_of_true rfl fun ⟨_, h⟩ => Reply.noConfusion h
  | badCommand => exact iff_of_true rfl fun ⟨_, h⟩ => Reply.noConfusion h
  | badResponse => exact iff_of_true rfl fun ⟨_, h⟩ => Reply.noConfusion h
  | message text => exact iff_of_true rfl fun ⟨_, h⟩ => Reply.noConfusion h

/-! ## One frame on its way through the Pi -/

section
variable {g : Globals} {uart : Uart}

/-- No pass of the UART thread completes a packet. -/
def Silent (uart : Uart) (inputs : List SerialInput) : Prop :=
  ∀ result ∈ uartReceiveThread.outputs uart inputs, result ≠ some .packetOk

theorem silent_cons {i : SerialInput} {inputs : List SerialInput} :
    Silent uart (i :: inputs) ↔ (uartReceiveThread.step uart i).2 ≠ some .packetOk ∧
      Silent (uartReceiveThread.step uart i).1 inputs :=
  List.forall_mem_cons

theorem silent_of_short (hb : uart.assembler.Between) {inputs : List SerialInput}
    (h : uart.assembler.pending.length + (inputs.flatMap SerialInput.bytes).length < packetSize) :
    Silent uart inputs := by
  induction inputs generalizing uart with
  | nil => exact fun _ hr => absurd hr List.not_mem_nil
  | cons i inputs ih =>
      rw [List.flatMap_cons, List.length_append] at h
      have hpush : push packetSize uart.assembler.pending i.bytes =
          (uart.assembler.pending ++ i.bytes, none) := by
        rw [push, if_neg (by rw [List.length_append]; omega)]
      obtain ⟨hb', hread⟩ := @uartReceiveThread_push uart i hb (by omega)
      rw [hpush] at hread
      refine silent_cons.mpr ⟨hread.2, ih hb' ?_⟩
      rw [hread.1, List.length_append]
      omega

/-- **Run.**  In however many reads a frame arrives, one of them completes its packet, and
no other completes any. -/
theorem frame_arrives (hb : uart.assembler.Between) {inputs : List SerialInput} {r : Response}
    (h : uart.assembler.pending ++ inputs.flatMap SerialInput.bytes = r.frame) :
    ∃ before input after, inputs = before ++ input :: after ∧ Silent uart before ∧
      let pass := uartReceiveThread.step (uartReceiveThread.final uart before) input
      pass.2 = some .packetOk ∧ TPacket.ofMemory pass.1.packet.get = r.2 ∧
        Silent pass.1 after := by
  induction inputs generalizing uart with
  | nil =>
      have hlen := congrArg List.length h
      have hp := hb.length_pending
      rw [List.flatMap_nil, List.append_nil, r.length_frame] at hlen
      omega
  | cons i inputs ih =>
      have hlen := congrArg List.length h
      rw [List.flatMap_cons, r.length_frame, List.length_append, List.length_append] at hlen
      have hone : uart.assembler.pending ++ (i.bytes ++ inputs.flatMap SerialInput.bytes) =
          [r].flatMap Response.frame := by
        rw [List.flatMap_singleton, ← h, List.flatMap_cons]
      obtain ⟨hb', ⟨hquiet, hrest⟩ | ⟨_, _, hr, hok, hpacket, hrest⟩⟩ :=
        @uartReceiveThread_frames uart i hb (by omega) _ _ hone
      · obtain ⟨before, input, after, rfl, hsilent, hpass⟩ :=
          ih hb' (hrest.trans (List.flatMap_singleton ..))
        exact ⟨i :: before, input, after, rfl, silent_cons.mpr ⟨hquiet, hsilent⟩, hpass⟩
      · obtain ⟨rfl, rfl⟩ := List.cons.inj hr
        -- nothing is left for the reads that follow
        have hafter : Silent (uartReceiveThread.step uart i).1 inputs := by
          apply silent_of_short hb'
          rw [← List.length_append, hrest]
          exact Nat.zero_lt_succ _
        exact ⟨[], i, inputs, rfl, fun _ hr => absurd hr List.not_mem_nil, hok, hpacket, hafter⟩

theorem respond_silent {inputs : List (SerialInput × Int)}
    (h : Silent uart (inputs.map (·.1))) :
    (respond.outputs (g, uart) inputs).reduceOption = [] ∧
      respond.final (g, uart) inputs =
        (g, uartReceiveThread.final uart (inputs.map (·.1))) := by
  induction inputs generalizing uart with
  | nil => exact ⟨rfl, rfl⟩
  | cons i inputs ih =>
      obtain ⟨hquiet, hsilent⟩ := silent_cons.mp h
      obtain ⟨houtputs, hfinal⟩ := ih hsilent
      rw [respond.outputs_cons, respond.final_cons, respond_quiet hquiet,
        List.reduceOption_cons_of_none]
      exact ⟨houtputs, hfinal⟩

theorem respond_some {conn : Conn} {input : SerialInput × Int}
    (h : (uartReceiveThread.step uart input.1).2 = some .packetOk) :
    ∃ g', respond.step (⟨true, some conn⟩, uart) input =
      ((g', (uartReceiveThread.step uart input.1).1),
        (handleUARTPacket (.ofMemory (uartReceiveThread.step uart input.1).1.packet.get)).map
          fun data => (conn, data)) := by
  simp only [respond, h, if_true]
  cases handleUARTPacket (.ofMemory (uartReceiveThread.step uart input.1).1.packet.get) with
  | none => exact ⟨_, rfl⟩
  | some data => exact ⟨_, rfl⟩

/-- **Run.**  In however many reads a frame arrives, what is written is what
`handleUARTPacket` makes of its packet. -/
theorem written_frame {conn : Conn} (hb : uart.assembler.Between)
    {inputs : List (SerialInput × Int)} {r : Response}
    (h : uart.assembler.pending ++ inputs.flatMap (·.1.bytes) = r.frame) :
    (respond.outputs (⟨true, some conn⟩, uart) inputs).reduceOption =
      (handleUARTPacket r.2).toList.map fun data => (conn, data) := by
  have hbytes : uart.assembler.pending ++ (inputs.map (·.1)).flatMap SerialInput.bytes =
      r.frame := by
    rw [List.flatMap_map]
    exact h
  obtain ⟨_, _, _, hinputs, hbefore, hok, hpacket, hafter⟩ := frame_arrives hb hbytes
  obtain ⟨before, _, rfl, rfl, hrest⟩ := List.map_eq_append_iff.mp hinputs
  obtain ⟨input, after, rfl, rfl, rfl⟩ := List.map_eq_cons_iff.mp hrest
  obtain ⟨hnone, hfinal⟩ := @respond_silent ⟨true, some conn⟩ uart before hbefore
  obtain ⟨g', hstep⟩ := @respond_some _ conn input hok
  rw [hpacket] at hstep
  rw [respond.outputs_append, hfinal, respond.outputs_cons, hstep, List.reduceOption_append,
    hnone, List.nil_append]
  have hlast := (@respond_silent g' _ after hafter).1
  cases handleUARTPacket r.2 with
  | none => rw [Option.map_none, List.reduceOption_cons_of_none, hlast]; rfl
  | some data => rw [Option.map_some, List.reduceOption_cons_of_some, hlast]; rfl

end

theorem written_reply {s : Uart} (hs : s.AtRest) {conn : Conn} {stack : Stack} {reply : Reply}
    {inputs : List (SerialInput × Int)} (h : inputs.flatMap (·.1.bytes) = reply.send stack) :
    (respond.outputs (⟨true, some conn⟩, s) inputs).reduceOption =
      [(conn, reply.relayed stack.packet)] := by
  have hframe : s.assembler.pending ++ inputs.flatMap (·.1.bytes) =
      Response.frame (stack, reply.packet stack.packet) := by
    rw [hs.pending_eq, List.nil_append, h, reply.send_eq]
    rfl
  rw [written_frame hs.between hframe, handleUARTPacket_packet]
  rfl

/-- **Leak.**  Two runs that differ in what the stack holds write the same to the client
exactly if the reply is no status, or the words a status leaves unset are the same. -/
theorem stack_hidden_iff (reply : Reply) (stack stack' : Stack) {s s' : Uart} (hs : s.AtRest)
    (hs' : s'.AtRest) (conn : Conn) {inputs inputs' : List (SerialInput × Int)}
    (h : inputs.flatMap (·.1.bytes) = reply.send stack)
    (h' : inputs'.flatMap (·.1.bytes) = reply.send stack') :
    (respond.outputs (⟨true, some conn⟩, s) inputs).reduceOption =
        (respond.outputs (⟨true, some conn⟩, s') inputs').reduceOption ↔
      ((∃ r, reply = .status r) →
        ∀ i : Fin 16, 11 ≤ i.val → stack.packet.params i = stack'.packet.params i) := by
  rw [written_reply hs h, written_reply hs' h', ← relayed_eq_iff]
  simp

def Stack.zeroes : Stack := ⟨.zeroes, fun _ => 0⟩

/-- A stack on which something has been before. -/
def Stack.used : Stack := ⟨{ TPacket.zeroes with params := fun _ => 7 }, fun _ => 255⟩

def Reply.read (stack : Stack) (reply : Reply) : List (SerialInput × Int) :=
  [(some ⟨reply.send stack, by
    rw [reply.send_eq, sendResponse, length_serialize]
    decide⟩, 2)]

theorem Reply.bytes_read (stack : Stack) (reply : Reply) :
    (reply.read stack).flatMap (·.1.bytes) = reply.send stack :=
  List.append_nil _

theorem stack_hidden_iff_status :
    let s : Uart := .initial (fun _ => 0) (fun _ => 0) (fun _ => 0) fun _ => 0
    let reply : Reply := .status (.initial 0)
    (respond.outputs (⟨true, some 0⟩, s) (reply.read .zeroes)).reduceOption =
        (respond.outputs (⟨true, some 0⟩, s) (reply.read .used)).reduceOption ↔
      ((∃ r, reply = .status r) →
        ∀ i : Fin 16, 11 ≤ i.val → Stack.zeroes.packet.params i = Stack.used.packet.params i) :=
  stack_hidden_iff (.status (.initial 0)) .zeroes .used (Uart.atRest_initial ..)
    (Uart.atRest_initial ..) 0 (Reply.bytes_read ..) (Reply.bytes_read ..)

/-- A status shows the laptop five words of the Arduino's stack. -/
theorem status_shows_stack :
    let s : Uart := .initial (fun _ => 0) (fun _ => 0) (fun _ => 0) fun _ => 0
    let reply : Reply := .status (.initial 0)
    (respond.outputs (⟨true, some 0⟩, s) (reply.read .zeroes)).reduceOption ≠
      (respond.outputs (⟨true, some 0⟩, s) (reply.read .used)).reduceOption := by
  intro s reply h
  rw [written_reply (Uart.atRest_initial ..) (Reply.bytes_read ..),
    written_reply (Uart.atRest_initial ..) (Reply.bytes_read ..)] at h
  have hrelayed : reply.relayed Stack.zeroes.packet = reply.relayed Stack.used.packet :=
    congrArg Prod.snd (List.cons.inj h).1
  have hparams := (relayed_eq_iff ..).mp hrelayed ⟨_, rfl⟩ 15 (by decide)
  exact absurd hparams (by decide)

end Alex
