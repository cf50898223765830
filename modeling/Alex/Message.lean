/-
# `Alex.Message` — a text on its way to the laptop

`sendMessage` copies a text into the 32 bytes of `data` with `strncpy`, which puts no
zero behind a text that fills them.  The text is read as a string in two places, and
each time it stands before bytes that nobody has assigned:

    Pi        packet->data    params[0], from the stack of the Arduino
    laptop    &buffer[1]      buffer[33], from an earlier message

So a text of up to 31 characters arrives, and for a longer one it depends on what the
two bytes behind it happen to be.
-/
import Alex.Leak
import Alex.Lib.Strings

namespace Alex

open Cells Blocks

/-! ## What the Pi prints -/

/-- `uartReceiveThread`, one pass of the loop; the answer is the packet `handleUARTPacket`
is called with, as it lies in memory, if it is. -/
def uartPackets : Mealy Uart SerialInput (Option (Nat → UInt8)) where
  step s input :=
    let (s, result) := uartReceiveThread.step s input
    (s, if result = some .packetOk then some s.packet.get else none)

/-- The string `handleMessage(packet)` on the Pi passes to `printf`, if `handleUARTPacket`
calls it: it begins at `packet->data`. -/
def printed (packet : Nat → UInt8) : Option (Nat → UInt8) :=
  match TPacketType.ofCode? (TPacket.ofMemory packet).packetType with
  | some .message => some fun i => packet (4 + i)
  | some .command | some .response | some .error | some .hello | none => none

theorem handleUARTPacket_printed {packet p : Nat → UInt8} (h : printed packet = some p) :
    handleUARTPacket (.ofMemory packet) =
      some (TNetConstants.messagePacket.code :: slice p 0 maxStrLen) := by
  rw [printed] at h
  rw [handleUARTPacket]
  split at h
  · rename_i hcode
    obtain rfl := Option.some.inj h
    rw [hcode]
    show some (_ :: List.ofFn fun i : Fin 32 => packet (4 + i)) = _
    rw [slice_shift]
    rfl
  all_goals cases h

theorem uartPackets_silent {uart : Uart} {inputs : List SerialInput} (h : Silent uart inputs) :
    (uartPackets.outputs uart inputs).reduceOption = [] ∧
      uartPackets.final uart inputs = uartReceiveThread.final uart inputs := by
  induction inputs generalizing uart with
  | nil => exact ⟨rfl, rfl⟩
  | cons i inputs ih =>
      obtain ⟨hquiet, hsilent⟩ := silent_cons.mp h
      have hstep : uartPackets.step uart i = ((uartReceiveThread.step uart i).1, none) := by
        simp only [uartPackets, if_neg hquiet]
      rw [uartPackets.outputs_cons, uartPackets.final_cons, hstep, List.reduceOption_cons_of_none]
      exact ih hsilent

/-- **Run.**  In however many reads a frame arrives, its packet is received once. -/
theorem uartPackets_frame {uart : Uart} (hb : uart.assembler.Between)
    {inputs : List SerialInput} {r : Response}
    (h : uart.assembler.pending ++ inputs.flatMap SerialInput.bytes = r.frame) :
    ∃ packet, (uartPackets.outputs uart inputs).reduceOption = [packet] ∧
      TPacket.ofMemory packet = r.2 := by
  obtain ⟨before, input, after, rfl, hbefore, hok, hpacket, hafter⟩ := frame_arrives hb h
  obtain ⟨hnone, hfinal⟩ := uartPackets_silent hbefore
  have hstep : uartPackets.step (uartReceiveThread.final uart before) input =
      ((uartReceiveThread.step (uartReceiveThread.final uart before) input).1,
        some (uartReceiveThread.step (uartReceiveThread.final uart before) input).1.packet.get) := by
    simp only [uartPackets, if_pos hok]
  refine ⟨_, ?_, hpacket⟩
  rw [uartPackets.outputs_append, hfinal, uartPackets.outputs_cons, hstep,
    List.reduceOption_append, hnone, List.reduceOption_cons_of_some,
    (uartPackets_silent hafter).1]
  rfl

/-! ## What is printed of a message -/

/-- What `strncpy` stores of a text: as much of it as there is room for, and zeroes. -/
theorem strncpy_of_spells {message : Nat → UInt8} {text : List UInt8} (h : Spells message text)
    (n : Nat) : strncpy message n = text.take n ++ List.replicate (n - text.length) 0 := by
  induction n generalizing message text with
  | zero => simp [strncpy]
  | succ n ih =>
      cases text with
      | nil =>
          rw [strncpy, if_pos (spells_nil_iff.mp h)]
          rfl
      | cons c text =>
          obtain ⟨h₀, hc, hrest⟩ := spells_cons_iff.mp h
          rw [strncpy, h₀, if_neg hc, ih hrest, List.take_succ_cons, List.length_cons,
            Nat.add_sub_add_right, List.cons_append]

/-- A copy that `strncpy` has made spells the text, or what there was room for, if the text
is shorter than the room or a zero happens to follow. -/
theorem spells_strncpy_iff {message copy : Nat → UInt8} {text : List UInt8} {n : Nat}
    (h : Spells message text) (hcopy : slice copy 0 n = strncpy message n) :
    Spells copy (text.take n) ↔ text.length < n ∨ copy n = 0 := by
  rw [strncpy_of_spells h] at hcopy
  have hzero : 0 ∉ text.take n := fun hmem => h.zero_not_mem (List.mem_of_mem_take hmem)
  by_cases hn : text.length < n
  · refine iff_of_true ?_ (.inl hn)
    rw [List.take_of_length_le hn.le] at hcopy hzero ⊢
    refine spells_of_slice_concat ?_ hzero
    rw [← take_slice copy hn, hcopy, List.take_append, List.take_of_length_le (Nat.le_succ _)]
    have hone : text.length + 1 - text.length = 1 := by omega
    rw [hone, List.take_replicate]
    have hmin : min 1 (n - text.length) = 1 := by omega
    rw [hmin]
    rfl
  · have hlen : (text.take n).length = n := by
      rw [List.length_take]
      omega
    have hroom : n - text.length = 0 := by omega
    rw [hroom, List.replicate_zero, List.append_nil] at hcopy
    have hslice : slice copy 0 (text.take n).length = text.take n := by
      rw [hlen, hcopy]
    rw [spells_iff_of_slice hslice hzero, hlen]
    exact (or_iff_right hn).symm

theorem prefix_of_strncpy {message copy : Nat → UInt8} {text shown : List UInt8} {n : Nat}
    (h : Spells message text) (hcopy : slice copy 0 n = strncpy message n)
    (hshown : Spells copy shown) : text.take n <+: shown := by
  refine hshown.prefix_of_slice ?_ fun hmem => h.zero_not_mem (List.mem_of_mem_take hmem)
  have hle : (text.take n).length ≤ n := List.length_take_le ..
  rw [← take_slice copy hle, hcopy, strncpy_of_spells h, List.take_left]

/-- The byte of a packet behind `data`. -/
def TPacket.behindData (p : TPacket) : UInt8 := p.byte (4 + maxStrLen)

theorem TPacket.behindData_ofMemory (m : Nat → UInt8) :
    (TPacket.ofMemory m).behindData = m (4 + maxStrLen) := by
  have hword : Bytes.word (TPacket.ofMemory m).byte 36 = Bytes.word m 36 :=
    TPacket.word_byte (TPacket.ofMemory m) 0
  exact Bytes.word_eq_word_iff.mp hword 36 (Nat.le_refl _) (by decide)

/-- The Pi prints what `strncpy` has copied, and goes on with the byte behind it. -/
theorem printed_sendMessage (stack : Stack) (message : Nat → UInt8) {s : Uart} (hs : s.AtRest)
    {inputs : List SerialInput}
    (h : inputs.flatMap SerialInput.bytes = sendMessage stack message) :
    ∃ p, (uartPackets.outputs s inputs).reduceOption.filterMap printed = [p] ∧
      slice p 0 maxStrLen = strncpy message maxStrLen ∧
      p maxStrLen = stack.packet.behindData := by
  have hframe : s.assembler.pending ++ inputs.flatMap SerialInput.bytes =
      Response.frame (stack, (Reply.message message).packet stack.packet) := by
    rw [hs.pending_eq, List.nil_append, h]
    rfl
  obtain ⟨packet, hpackets, hpacket⟩ := uartPackets_frame hs.between hframe
  have hp : printed packet = some fun i => packet (4 + i) := by
    rw [printed, hpacket]
    rfl
  have hrelayed : some (TNetConstants.messagePacket.code :: slice (fun i => packet (4 + i)) 0
      maxStrLen) = some (TNetConstants.messagePacket.code :: strncpy message maxStrLen) := by
    rw [← handleUARTPacket_printed hp, hpacket]
    exact handleUARTPacket_packet stack.packet (.message message)
  refine ⟨_, ?_, (List.cons.inj (Option.some.inj hrelayed)).2, ?_⟩
  · rw [hpackets, List.filterMap_cons, hp]
    rfl
  · rw [← TPacket.behindData_ofMemory packet, hpacket]
    rfl

theorem Client.shown_message {laptop : Client.Reader} (hl : laptop.client.networkActive = true)
    {data : List UInt8} (hlen : data.length = maxStrLen) :
    ∃ d, (Client.readerThread.outputs laptop
        [Client.receive (TNetConstants.messagePacket.code :: data)]).reduceOption.map
          Client.handleNetwork = [.message d] ∧
      slice d 0 maxStrLen = data ∧ d maxStrLen = laptop.buffer.get (1 + maxStrLen) := by
  generalize hm : TNetConstants.messagePacket.code :: data = m
  have hsent : m.length = 1 + maxStrLen := by
    rw [← hm, List.length_cons, hlen, Nat.add_comm]
  have hstep := Client.readerThread_receive hl (hsent.ge.trans' (Nat.le_add_right 1 _))
    (hsent.trans_le (by decide))
  have hread := slice_write laptop.buffer 0 m
  rw [hsent, slice_add, ← hm] at hread
  obtain ⟨htype, htext⟩ := List.cons.inj hread
  rw [hm] at htype htext
  refine ⟨fun i => (laptop.buffer.write 0 m).get (1 + i), ?_, ?_, ?_⟩
  · rw [Client.readerThread.outputs_cons, hstep, List.reduceOption_cons_of_some, List.map_cons,
      Client.handleNetwork, htype, TNetConstants.ofCode?_code]
    rfl
  · rw [slice_shift]
    exact htext
  · exact get_write_of_lt (.inr (by rw [hsent, Nat.zero_add]))

theorem message_shown (stack : Stack) (message : Nat → UInt8) {s : Uart} (hs : s.AtRest)
    (conn : Conn) {inputs : List (SerialInput × Int)}
    (h : inputs.flatMap (·.1.bytes) = sendMessage stack message) {laptop : Client.Reader}
    (hl : laptop.client.networkActive = true) :
    let packets := (uartPackets.outputs s (inputs.map (·.1))).reduceOption
    let written := (respond.outputs (⟨true, some conn⟩, s) inputs).reduceOption
    let calls := (Client.readerThread.outputs laptop
      (written.map fun w => Client.receive w.2)).reduceOption
    ∃ p d, packets.filterMap printed = [p] ∧ calls.map Client.handleNetwork = [.message d] ∧
      slice p 0 maxStrLen = strncpy message maxStrLen ∧
      p maxStrLen = stack.packet.behindData ∧
      slice d 0 maxStrLen = strncpy message maxStrLen ∧
      d maxStrLen = laptop.buffer.get (1 + maxStrLen) := by
  intro packets written calls
  have hbytes : (inputs.map (·.1)).flatMap SerialInput.bytes = sendMessage stack message := by
    rw [List.flatMap_map, h]
  obtain ⟨p, hp, hcopy, hbehind⟩ := printed_sendMessage stack message hs hbytes
  have hsend : inputs.flatMap (·.1.bytes) = (Reply.message message).send stack := h
  have hwritten : written =
      [(conn, TNetConstants.messagePacket.code :: strncpy message maxStrLen)] :=
    written_reply hs hsend
  obtain ⟨d, hd, hcopy', hbehind'⟩ := Client.shown_message hl (length_strncpy message maxStrLen)
  refine ⟨p, d, hp, ?_, hcopy, hbehind, hcopy', hbehind'⟩
  simp only [calls, hwritten, List.map_cons, List.map_nil]
  exact hd

/-! ## What arrives of a text -/

/-- The Pi has printed one string and the laptop has shown one, and both are the text, as
far as there is room for it in `data`. -/
def Arrives (text : List UInt8) (onPi : List (Nat → UInt8)) (onLaptop : List Client.Display) :
    Prop :=
  ∃ p d, onPi = [p] ∧ onLaptop = [.message d] ∧
    Spells p (text.take maxStrLen) ∧ Spells d (text.take maxStrLen)

/-- **Message text.**  A text arrives exactly if it is shorter than `data`, or the stack of
the Arduino and the laptop's buffer happen to hold a zero behind it. -/
theorem message_arrives_iff {message : Nat → UInt8} {text : List UInt8}
    (hm : Spells message text) (stack : Stack) {s : Uart} (hs : s.AtRest) (conn : Conn)
    {inputs : List (SerialInput × Int)}
    (h : inputs.flatMap (·.1.bytes) = sendMessage stack message) {laptop : Client.Reader}
    (hl : laptop.client.networkActive = true) :
    let packets := (uartPackets.outputs s (inputs.map (·.1))).reduceOption
    let written := (respond.outputs (⟨true, some conn⟩, s) inputs).reduceOption
    let calls := (Client.readerThread.outputs laptop
      (written.map fun w => Client.receive w.2)).reduceOption
    Arrives text (packets.filterMap printed) (calls.map Client.handleNetwork) ↔
      text.length < maxStrLen ∨
        stack.packet.behindData = 0 ∧ laptop.buffer.get (1 + maxStrLen) = 0 := by
  intro packets written calls
  obtain ⟨p, d, hp, hd, hcopy, hbehind, hcopy', hbehind'⟩ := message_shown stack message hs conn h hl
  have hpi : Spells p (text.take maxStrLen) ↔
      text.length < maxStrLen ∨ stack.packet.behindData = 0 := by
    rw [spells_strncpy_iff hm hcopy, hbehind]
  have hlaptop : Spells d (text.take maxStrLen) ↔
      text.length < maxStrLen ∨ laptop.buffer.get (1 + maxStrLen) = 0 := by
    rw [spells_strncpy_iff hm hcopy', hbehind']
  have harrives : Arrives text (packets.filterMap printed) (calls.map Client.handleNetwork) ↔
      Spells p (text.take maxStrLen) ∧ Spells d (text.take maxStrLen) := by
    constructor
    · rintro ⟨p', d', hp', hd', hspells⟩
      obtain rfl := (List.cons.inj (hp.symm.trans hp')).1
      obtain rfl := Client.Display.message.inj (List.cons.inj (hd.symm.trans hd')).1
      exact hspells
    · intro hspells
      exact ⟨p, d, hp, hd, hspells⟩
  rw [harrives, hpi, hlaptop, ← or_and_left]

/-- **Prefix.**  Of a text nothing is lost for which there is room: what the Pi prints and
what the laptop shows begin with it, wherever they end. -/
theorem message_begins {message : Nat → UInt8} {text : List UInt8} (hm : Spells message text)
    (stack : Stack) {s : Uart} (hs : s.AtRest) (conn : Conn)
    {inputs : List (SerialInput × Int)}
    (h : inputs.flatMap (·.1.bytes) = sendMessage stack message) {laptop : Client.Reader}
    (hl : laptop.client.networkActive = true) :
    let packets := (uartPackets.outputs s (inputs.map (·.1))).reduceOption
    let written := (respond.outputs (⟨true, some conn⟩, s) inputs).reduceOption
    let calls := (Client.readerThread.outputs laptop
      (written.map fun w => Client.receive w.2)).reduceOption
    (∀ p ∈ packets.filterMap printed, ∀ shown, Spells p shown → text.take maxStrLen <+: shown) ∧
      ∀ d, .message d ∈ calls.map Client.handleNetwork →
        ∀ shown, Spells d shown → text.take maxStrLen <+: shown := by
  intro packets written calls
  obtain ⟨p, d, hp, hd, hcopy, -, hcopy', -⟩ := message_shown stack message hs conn h hl
  constructor
  · intro p' hp' shown hshown
    rw [hp, List.mem_singleton] at hp'
    rw [hp'] at hshown
    exact prefix_of_strncpy hm hcopy hshown
  · intro d' hd' shown hshown
    rw [hd, List.mem_singleton] at hd'
    rw [Client.Display.message.inj hd'] at hshown
    exact prefix_of_strncpy hm hcopy' hshown

/-- A text in memory that is zero behind it. -/
def messageOf (text : List UInt8) : Nat → UInt8 := fun i => text.getD i 0

/-- A laptop that has received something before. -/
def Client.Reader.used : Client.Reader := ⟨⟨true⟩, ⟨fun _ => 7, []⟩⟩

theorem message_arrives_iff_two :
    let text : List UInt8 := [72, 105]
    let inputs := (Reply.message (messageOf text)).read .used
    let s : Uart := .initial (fun _ => 0) (fun _ => 0) (fun _ => 0) fun _ => 0
    let packets := (uartPackets.outputs s (inputs.map (·.1))).reduceOption
    let written := (respond.outputs (⟨true, some 0⟩, s) inputs).reduceOption
    let calls := (Client.readerThread.outputs .used
      (written.map fun w => Client.receive w.2)).reduceOption
    Arrives text (packets.filterMap printed) (calls.map Client.handleNetwork) ↔
      text.length < maxStrLen ∨
        Stack.used.packet.behindData = 0 ∧ Client.Reader.used.buffer.get (1 + maxStrLen) = 0 :=
  message_arrives_iff (by decide) .used (Uart.atRest_initial ..) 0 (Reply.bytes_read ..) rfl

/-- Of 32 letters the Pi prints more than was sent, and so does the laptop. -/
theorem full_message_runs_on :
    let text : List UInt8 := List.replicate 32 65
    let inputs := (Reply.message (messageOf text)).read .used
    let s : Uart := .initial (fun _ => 0) (fun _ => 0) (fun _ => 0) fun _ => 0
    let packets := (uartPackets.outputs s (inputs.map (·.1))).reduceOption
    let written := (respond.outputs (⟨true, some 0⟩, s) inputs).reduceOption
    let calls := (Client.readerThread.outputs .used
      (written.map fun w => Client.receive w.2)).reduceOption
    Spells (messageOf text) text ∧
      ¬ Arrives text (packets.filterMap printed) (calls.map Client.handleNetwork) := by
  intro text inputs s packets written calls
  have hbytes : inputs.flatMap (·.1.bytes) = sendMessage .used (messageOf text) :=
    Reply.bytes_read ..
  obtain ⟨p, -, hp, -, -, hbehind, -⟩ :=
    @message_shown .used (messageOf text) s (Uart.atRest_initial ..) 0 inputs hbytes .used rfl
  refine ⟨by decide, ?_⟩
  rintro ⟨p', d', hp', -, hspells, -⟩
  obtain rfl := (List.cons.inj (hp.symm.trans hp')).1
  have hend : p maxStrLen = 0 := hspells.terminated
  rw [hbehind] at hend
  exact absurd hend (by decide)

end Alex
