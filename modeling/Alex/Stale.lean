/-
# `Alex.Stale` — a message that is too short

`worker` reads every message of a connection into one buffer, and `handleCommand`
reads offsets 1 to 9 of it however long the message was.  Of two buffers that hold
one message they make one order exactly when the message is no command, or has an
unknown letter, or has all of its ten bytes:

    length    1                 2 … 9                  10 …
    letter    stale             received               received
    params    stale             stale, or in part      received
-/
import Alex.Command

namespace Alex

/-- Two transmissions to the Arduino give one order: none, or packets with one command
and one pair of parameters. -/
inductive SameOrder : List UInt8 → List UInt8 → Prop
  | nothing : SameOrder [] []
  | command (comms comms' : Nat → UInt8) (p p' : TPacket) : p.command = p'.command →
      p.params 0 = p'.params 0 → p.params 1 = p'.params 1 →
      SameOrder (uartSendPacket comms p) (uartSendPacket comms' p')

/-- The order `worker` makes of a message is made of the message: whatever else was in
its buffer and in the locals nobody has assigned. -/
def ActsOnReceived (message : {bytes : List UInt8 // bytes.length ≤ bufLen}) : Prop :=
  ∀ (buffer buffer' : Cells UInt8) (commandPacket commandPacket' : TPacket)
    (comms comms' : Nat → UInt8),
    SameOrder (worker buffer (some message) commandPacket comms).2
      (worker buffer' (some message) commandPacket' comms').2

theorem sameOrder_iff {comms comms' : Nat → UInt8} {p p' : TPacket} :
    SameOrder (uartSendPacket comms p) (uartSendPacket comms' p') ↔
      p.command = p'.command ∧ p.params 0 = p'.params 0 ∧ p.params 1 = p'.params 1 := by
  constructor
  · intro h
    generalize hf : uartSendPacket comms p = f at h
    generalize hf' : uartSendPacket comms' p' = f' at h
    cases h with
    | nothing =>
        have hlen := congrArg List.length hf
        rw [uartSendPacket, length_serialize] at hlen
        exact nomatch hlen
    | command _ _ q q' hc h₀ h₁ =>
        obtain rfl := uartSendPacket_injective hf
        obtain rfl := uartSendPacket_injective hf'
        exact ⟨hc, h₀, h₁⟩
  · rintro ⟨hc, h₀, h₁⟩
    exact .command _ _ _ _ hc h₀ h₁

/-! ## What the decoder reads -/

section
variable {b : Nat → UInt8}

theorem handleNetworkData_letter {a : Letter} {upper : Bool}
    (h₀ : b 0 = TNetConstants.commandPacket.code) (h₁ : b 1 = a.key upper)
    (commandPacket : TPacket) (comms : Nat → UInt8) :
    ∃ p, handleNetworkData commandPacket comms b = uartSendPacket comms p ∧
      p.command = a.command.code ∧ p.params 0 = (if a = .c then 0 else Bytes.word b 2) ∧
      p.params 1 = Bytes.word b 6 := by
  obtain ⟨p, hp, -, hc, hp₀, hp₁⟩ := handleCommand_key a upper commandPacket h₁
  refine ⟨p, ?_, hc, hp₀, hp₁⟩
  rw [handleNetworkData, if_pos h₀, hp]
  rfl

theorem handleNetworkData_nothing
    (h : b 0 ≠ TNetConstants.commandPacket.code ∨ ¬ IsLetter (b 1)) (commandPacket : TPacket)
    (comms : Nat → UInt8) : handleNetworkData commandPacket comms b = [] := by
  rw [handleNetworkData]
  split
  · rename_i h₀
    cases hc : handleCommand commandPacket b with
    | none => rfl
    | some p => exact absurd (isLetter_of_handleCommand hc) (h.resolve_left (not_not_intro h₀))
  · rfl

/-- Buffers that agree on the ten bytes of a message give one order. -/
theorem sameOrder_of_agree {b' : Nat → UInt8} (h : ∀ i, i < 10 → b i = b' i)
    (commandPacket commandPacket' : TPacket) (comms comms' : Nat → UInt8) :
    SameOrder (handleNetworkData commandPacket comms b)
      (handleNetworkData commandPacket' comms' b') := by
  by_cases hno : b 0 ≠ TNetConstants.commandPacket.code ∨ ¬ IsLetter (b 1)
  · have hno' := hno
    rw [h 0 (by decide), h 1 (by decide)] at hno'
    rw [handleNetworkData_nothing hno, handleNetworkData_nothing hno']
    exact .nothing
  · obtain ⟨h₀, a, upper, h₁⟩ : b 0 = TNetConstants.commandPacket.code ∧ IsLetter (b 1) := by
      simpa only [not_or, ne_eq, not_not] using hno
    have hword (off : Nat) (ho : off + 4 ≤ 10) : Bytes.word b off = Bytes.word b' off :=
      Bytes.word_eq_word_iff.mpr fun i _ hi => h i (by omega)
    obtain ⟨p, hp, hc, hp₀, hp₁⟩ := handleNetworkData_letter h₀ h₁ commandPacket comms
    rw [h 0 (by decide)] at h₀
    rw [h 1 (by decide)] at h₁
    obtain ⟨p', hp', hc', hp₀', hp₁'⟩ := handleNetworkData_letter h₀ h₁ commandPacket' comms'
    rw [hp, hp']
    refine .command _ _ _ _ (hc.trans hc'.symm) ?_ ?_
    · rw [hp₀, hp₀', hword 2 (by decide)]
    · rw [hp₁, hp₁', hword 6 (by decide)]

end

/-! ## The messages that are acted on safely -/

section
variable {message : {bytes : List UInt8 // bytes.length ≤ bufLen}}

theorem worker_message (h : 1 ≤ message.val.length) (buffer : Cells UInt8)
    (commandPacket : TPacket) (comms : Nat → UInt8) :
    (worker buffer (some message) commandPacket comms).2 =
      handleNetworkData commandPacket comms (buffer.write 0 message.val).get := by
  have hpos : (message.val.length : Int) > 0 := by omega
  show (if (message.val.length : Int) > 0 then _ else _ : Cells UInt8 × List UInt8).2 = _
  rw [if_pos hpos]

theorem get_message (buffer : Cells UInt8) {i : Nat} {byte : UInt8}
    (h : message.val[i]? = some byte) : (buffer.write 0 message.val).get i = byte := by
  obtain ⟨hi, hb⟩ := List.getElem?_eq_some_iff.mp h
  rw [Cells.get_write, dif_pos ⟨Nat.zero_le _, by omega⟩]
  exact hb

theorem not_actsOnReceived_of_one (h : 1 ≤ message.val.length)
    (h₀ : message.val[0]? = some TNetConstants.commandPacket.code) (h1 : message.val.length = 1) :
    ¬ ActsOnReceived message := by
  intro hacts
  have hstale (byte : UInt8) (i : Nat) (hi : 1 ≤ i) :
      ((⟨fun _ => byte, []⟩ : Cells UInt8).write 0 message.val).get i = byte :=
    Cells.get_write_of_lt (.inr (by omega))
  have ho := hacts ⟨fun _ => Letter.f.key false, []⟩ ⟨fun _ => Letter.s.key false, []⟩ .zeroes
    .zeroes (fun _ => 0) fun _ => 0
  obtain ⟨p, hp, hc, -, -⟩ := handleNetworkData_letter
    (get_message ⟨fun _ => Letter.f.key false, []⟩ h₀)
    (hstale (Letter.f.key false) 1 (Nat.le_refl _)) .zeroes fun _ => 0
  obtain ⟨p', hp', hc', -, -⟩ := handleNetworkData_letter
    (get_message ⟨fun _ => Letter.s.key false, []⟩ h₀)
    (hstale (Letter.s.key false) 1 (Nat.le_refl _)) .zeroes fun _ => 0
  rw [worker_message h, worker_message h, hp, hp', sameOrder_iff, hc, hc'] at ho
  exact absurd ho.1 (by decide)

/-- Of an incomplete command the last byte of the power is stale. -/
theorem not_actsOnReceived_of_short
    (h₀ : message.val[0]? = some TNetConstants.commandPacket.code) {a : Letter} {upper : Bool}
    (h₁ : message.val[1]? = some (a.key upper)) (h10 : message.val.length < 10) :
    ¬ ActsOnReceived message := by
  intro hacts
  have h : 1 ≤ message.val.length := by
    obtain ⟨hi, -⟩ := List.getElem?_eq_some_iff.mp h₁
    omega
  have hstale (byte : UInt8) :
      ((⟨fun _ => byte, []⟩ : Cells UInt8).write 0 message.val).get 9 = byte :=
    Cells.get_write_of_lt (.inr (by omega))
  have ho := hacts ⟨fun _ => 0, []⟩ ⟨fun _ => 1, []⟩ .zeroes .zeroes (fun _ => 0) fun _ => 0
  obtain ⟨p, hp, -, -, hp₁⟩ := handleNetworkData_letter (get_message ⟨fun _ => 0, []⟩ h₀)
    (get_message ⟨fun _ => 0, []⟩ h₁) .zeroes fun _ => 0
  obtain ⟨p', hp', -, -, hp₁'⟩ := handleNetworkData_letter (get_message ⟨fun _ => 1, []⟩ h₀)
    (get_message ⟨fun _ => 1, []⟩ h₁) .zeroes fun _ => 0
  rw [worker_message h, worker_message h, hp, hp', sameOrder_iff, hp₁, hp₁',
    Bytes.word_eq_word_iff] at ho
  have h9 := ho.2.2 9 (by decide) (by decide)
  rw [hstale, hstale] at h9
  exact absurd h9 (by decide)

end

/-- **Acting on what was received.**  A message that has arrived is acted on as it is
exactly when it is no command, or has ten bytes, or has a letter that is unknown. -/
theorem acts_on_received_iff (message : {bytes : List UInt8 // bytes.length ≤ bufLen})
    (h : 1 ≤ message.val.length) :
    ActsOnReceived message ↔
      message.val[0]? ≠ some TNetConstants.commandPacket.code ∨ 10 ≤ message.val.length ∨
        ∃ cmd, message.val[1]? = some cmd ∧ ¬ IsLetter cmd := by
  constructor
  · intro hacts
    by_cases h₀ : message.val[0]? = some TNetConstants.commandPacket.code
    · rcases Nat.lt_or_ge message.val.length 10 with h10 | h10
      · refine .inr (.inr ?_)
        rcases Nat.lt_or_ge 1 message.val.length with h2 | h1
        · refine ⟨message.val[1], List.getElem?_eq_getElem h2, ?_⟩
          rintro ⟨a, upper, hkey⟩
          have h₁ : message.val[1]? = some (a.key upper) := by
            rw [List.getElem?_eq_getElem h2, hkey]
          exact not_actsOnReceived_of_short h₀ h₁ h10 hacts
        · exact absurd hacts (not_actsOnReceived_of_one h h₀ (Nat.le_antisymm h1 h))
      · exact .inr (.inl h10)
    · exact .inl h₀
  · intro hsafe buffer buffer' commandPacket commandPacket' comms comms'
    rw [worker_message h, worker_message h]
    rcases hsafe with h₀ | h10 | ⟨cmd, hcmd, hno⟩
    · have hfirst (b : Cells UInt8) :
          (b.write 0 message.val).get 0 ≠ TNetConstants.commandPacket.code := by
        rw [get_message b (List.getElem?_eq_getElem h)]
        rw [List.getElem?_eq_getElem h] at h₀
        exact fun he => h₀ (congrArg some he)
      rw [handleNetworkData_nothing (.inl (hfirst buffer)),
        handleNetworkData_nothing (.inl (hfirst buffer'))]
      exact .nothing
    · refine sameOrder_of_agree (fun i hi => ?_) _ _ _ _
      have hget : message.val[i]? = some message.val[i] :=
        List.getElem?_eq_getElem (Nat.lt_of_lt_of_le hi h10)
      rw [get_message buffer hget, get_message buffer' hget]
    · have hletter (b : Cells UInt8) : ¬ IsLetter ((b.write 0 message.val).get 1) := by
        rwa [get_message b hcmd]
      rw [handleNetworkData_nothing (.inr (hletter buffer)),
        handleNetworkData_nothing (.inr (hletter buffer'))]
      exact .nothing

/-- A whole stop command. -/
theorem acts_on_received_stop :
    ActsOnReceived ⟨commandBuffer (Letter.s.key false) ⟨0, 0⟩, by decide⟩ :=
  (acts_on_received_iff ⟨commandBuffer (Letter.s.key false) ⟨0, 0⟩, by decide⟩ (by decide)).mpr
    (.inr (.inl (by decide)))

/-- The first byte of a command: the letter is that of an earlier message. -/
theorem first_byte_repeats_command :
    ¬ ActsOnReceived ⟨[TNetConstants.commandPacket.code], by decide⟩ :=
  not_actsOnReceived_of_one (by decide) rfl rfl

end Alex
