/-
# `Alex.System` — laptops, Pi and Arduino, and what is under way between them

The programs of the other modules, put together: any number of laptops, the server on
the Pi with all its threads, the Arduino, and channels in between.

    laptop  ── toPi, messages ──▶  Pi  ── toArduino, bytes ──▶  Arduino
    laptop  ◀── toLaptop, messages ──  Pi  ◀── fromArduino, bytes ──  Arduino

An action is one step of one thread of one program, as in `Alex.ClientThreads`,
`Alex.Threads` and `Alex.Firmware`, so that a list of actions is an interleaving of all
of them.  A `sslWrite` that returns a positive number has put its message into the
channel, and each `sslRead` takes one message out, waits for one, or comes back with
nothing; connections may break wherever they like.  The serial line delivers what is
written to it, in whatever pieces.

A thread of a laptop that ends frees the session (`EXIT_THREAD`) and has `main` return
(`stopClient`).  Until `main` does, the other thread may go on, but no run has it read from
the session, or write to it: what then happens is not determined.

The runs of which something is said are those in which every read of the line is `Short`:
`assemble` has been given no more than `PACKET_SIZE` bytes.  Neither `serialRead` nor
`readSerial` keeps to that by itself.
-/
import Alex.Acknowledge
import Alex.ClientThreads
import Alex.Command
import Alex.Lib.Channel
import Alex.Response

namespace Alex

/-! ## The system -/

structure System where
  laptops : Conn → Client.Threads
  toPi : Conn → Channel (List UInt8)
  pi : Server
  toArduino : Channel UInt8
  arduino : Firmware
  fromArduino : Channel UInt8
  toLaptop : Conn → Channel (List UInt8)

/-- What a read of a connection comes back with: a message, once there is one; nothing,
the connection being closed; an error. -/
inductive Outcome where
  | message | closed | error
  deriving DecidableEq, Repr

inductive SystemAction where
  | reader (conn : Conn) (outcome : Outcome)
  | writer (conn : Conn) (input : Client.WriterInput)
  | main (helloPacket : TPacket) (comms : Nat → UInt8)
  | connect (conn : Conn)
  | worker (conn : Conn) (outcome : Outcome) (commandPacket : TPacket) (comms : Nat → UInt8)
  | uart (len : Nat) (count : Int)
  | int0
  | int1
  | loop (len : Nat) (input : LoopInput)

inductive SystemEvent where
  | laptop (conn : Conn) (event : Client.LinkEvent)
  | pi (event : ServerEvent)
  | arduino (event : Event)

/-- What is put into a connection. -/
def Client.LinkEvent.sent? : Client.LinkEvent → Option (List UInt8)
  | .sslWrite data count => if count > 0 then some data else none
  | .sslRead _ | .handled _ | .passed _ | .stopped _ => none

def ServerEvent.sentTo? (conn : Conn) : ServerEvent → Option (List UInt8)
  | .sslWrite c data count => if c = some conn ∧ count > 0 then some data else none
  | .connected _ | .entered _ | .left _ | .sslRead _ _ | .assigned _ _ | .uartSent _
  | .freed _ => none

/-- What is put on the serial line. -/
def ServerEvent.wired : ServerEvent → List UInt8
  | .uartSent bytes => bytes
  | .connected _ | .entered _ | .left _ | .sslRead _ _ | .sslWrite _ _ _ | .assigned _ _
  | .freed _ => []

/-- A read of a connection: what it comes back with, `none` for an error, and the channel
after it.  There is none while the read waits. -/
def Outcome.read (outcome : Outcome) (channel : Channel (List UInt8)) :
    Option (Option (List UInt8) × Channel (List UInt8)) :=
  match outcome with
  | .message => channel.waiting.head?.map fun m => (some m, channel.pop 1)
  | .closed => some (some [], channel)
  | .error => some (none, channel)

def Client.WriterPc.writes : Client.WriterPc → Bool
  | .write _ => true
  | .prompt | .test _ | .assign | .stop | .done => false

namespace System

def afterLaptop (s : System) (conn : Conn) (step : Client.Threads × List Client.LinkEvent) :
    System × List SystemEvent :=
  ({ s with
      laptops := Function.update s.laptops conn step.1
      toPi := Function.update s.toPi conn
        ((s.toPi conn).push (step.2.filterMap Client.LinkEvent.sent?)) },
    step.2.map (.laptop conn))

def afterPi (s : System) (step : Server × List ServerEvent) : System × List SystemEvent :=
  ({ s with
      pi := step.1
      toArduino := s.toArduino.push (step.2.flatMap ServerEvent.wired)
      toLaptop := fun c => (s.toLaptop c).push (step.2.filterMap (ServerEvent.sentTo? c)) },
    step.2.map .pi)

def afterArduino (s : System) (step : Firmware × List Event) : System × List SystemEvent :=
  ({ s with
      arduino := step.1
      fromArduino := s.fromArduino.push (sentFrames step.2).flatten },
    step.2.map .arduino)

/-- A read of the session of a laptop, which its writer has not freed. -/
def readLaptop (s : System) (conn : Conn) (outcome : Outcome) :
    Option (Option (List UInt8) × Channel (List UInt8)) :=
  if (s.laptops conn).writer = .done then none else outcome.read (s.toLaptop conn)

/-- A step of the reader of a laptop; it reads from its connection where it calls
`sslRead`. -/
def reader (abi : DataModel) (s : System) (conn : Conn) (outcome : Outcome) :
    System × List SystemEvent :=
  if (s.laptops conn).reader = .read then
    match s.readLaptop conn outcome with
    | some (message, channel) =>
        afterLaptop { s with toLaptop := Function.update s.toLaptop conn channel } conn
          ((Client.threads abi).step (s.laptops conn) (.reader (message.bind Client.receive)))
    | none => (s, [])
  else s.afterLaptop conn ((Client.threads abi).step (s.laptops conn) (.reader none))

/-- A step of the writer of a laptop; it writes to a session that its reader has not freed. -/
def writer (abi : DataModel) (s : System) (conn : Conn) (input : Client.WriterInput) :
    System × List SystemEvent :=
  if (s.laptops conn).reader = .done ∧ (s.laptops conn).writer.writes then (s, [])
  else s.afterLaptop conn ((Client.threads abi).step (s.laptops conn) (.writer input))

def worker (s : System) (conn : Conn) (outcome : Outcome) (commandPacket : TPacket)
    (comms : Nat → UInt8) : System × List SystemEvent :=
  if (s.pi.workers conn).map Worker.pc = some .read then
    match outcome.read (s.toPi conn) with
    | some (message, channel) =>
        afterPi { s with toPi := Function.update s.toPi conn channel }
          (server.step s.pi (.worker conn (message.bind deliver) commandPacket comms))
    | none => (s, [])
  else s.afterPi (server.step s.pi (.worker conn none commandPacket comms))

section
variable {abi : DataModel} {s : System} {conn : Conn} {outcome : Outcome} {commandPacket : TPacket}
  {comms : Nat → UInt8} {message : Option (List UInt8)} {channel : Channel (List UInt8)}

theorem read_of_readLaptop (h : s.readLaptop conn outcome = some (message, channel)) :
    outcome.read (s.toLaptop conn) = some (message, channel) := by
  rw [readLaptop] at h
  split at h
  · exact absurd h (Option.some_ne_none _).symm
  · exact h

theorem reader_waits (hread : (s.laptops conn).reader = .read)
    (ho : s.readLaptop conn outcome = none) : s.reader abi conn outcome = (s, []) := by
  rw [reader, if_pos hread, ho]

theorem reader_reads (hread : (s.laptops conn).reader = .read)
    (ho : s.readLaptop conn outcome = some (message, channel)) :
    s.reader abi conn outcome =
      afterLaptop { s with toLaptop := Function.update s.toLaptop conn channel } conn
        ((Client.threads abi).step (s.laptops conn) (.reader (message.bind Client.receive))) := by
  rw [reader, if_pos hread, ho]

theorem worker_waits (hread : (s.pi.workers conn).map Worker.pc = some .read)
    (ho : outcome.read (s.toPi conn) = none) :
    s.worker conn outcome commandPacket comms = (s, []) := by
  rw [worker, if_pos hread, ho]

theorem worker_reads (hread : (s.pi.workers conn).map Worker.pc = some .read)
    (ho : outcome.read (s.toPi conn) = some (message, channel)) :
    s.worker conn outcome commandPacket comms =
      afterPi { s with toPi := Function.update s.toPi conn channel }
        (server.step s.pi (.worker conn (message.bind deliver) commandPacket comms)) := by
  rw [worker, if_pos hread, ho]

end

/-- `serialRead(buffer)`, of at most `len` of the bytes that have arrived. -/
def serialInput (s : System) (len : Nat) : SerialInput :=
  some ⟨s.fromArduino.waiting.take (min len maxBufferLen),
    (List.length_take_le ..).trans (Nat.min_le_right ..)⟩

/-- A step of the UART thread; it takes bytes from the line where it calls `serialRead`. -/
def uart (s : System) (len : Nat) (count : Int) : System × List SystemEvent :=
  if s.pi.receiver.pc = .receive then
    afterPi { s with fromArduino := s.fromArduino.pop (min len maxBufferLen) }
      (server.step s.pi (.uart (s.serialInput len) count))
  else s.afterPi (server.step s.pi (.uart none count))

/-- A call of `loop()` that finds at most `len` bytes available. -/
def loop (s : System) (len : Nat) (input : LoopInput) : System × List SystemEvent :=
  afterArduino { s with toArduino := s.toArduino.pop len }
    (s.arduino.loop { input with bytes := s.toArduino.waiting.take len })

end System

/-- The system, step by step.  `stack` is what the `buffer` of a worker holds when its
connection is accepted. -/
def system (abi : DataModel) (stack : Conn → Nat → UInt8) :
    Mealy System SystemAction (List SystemEvent) where
  step s action :=
    match action with
    | .reader conn outcome => s.reader abi conn outcome
    | .writer conn input => s.writer abi conn input
    | .main helloPacket comms => s.afterPi (server.step s.pi (.main helloPacket comms))
    | .connect conn => s.afterPi (server.step s.pi (.connect conn (stack conn)))
    | .worker conn outcome commandPacket comms => s.worker conn outcome commandPacket comms
    | .uart len count => s.uart len count
    | .int0 => s.afterArduino (firmware.step s.arduino .int0)
    | .int1 => s.afterArduino (firmware.step s.arduino .int1)
    | .loop len input => s.loop len input

/-- At most `PACKET_SIZE` bytes are read from the serial line. -/
def SystemAction.Short : SystemAction → Prop
  | .uart len _ | .loop len _ => len ≤ packetSize
  | .reader _ _ | .writer _ _ | .main _ _ | .connect _ | .worker _ _ _ _ | .int0 | .int1 => True

/-- The memory a program finds as it starts. -/
structure Boot where
  leftover : Nat → UInt8
  privateMem : Nat → UInt8
  buffer : Nat → UInt8
  packet : Nat → UInt8

/-- Laptops that are to connect, the Pi before `networkActive = 1`, the Arduino after
`setup()`, and nothing under way. -/
def System.initial (vincentCirc : ℚ) (laptop : Conn → Nat → UInt8) (pi arduino : Boot) :
    System where
  laptops conn := .initial (laptop conn)
  toPi _ := .empty
  pi := .initial pi.leftover pi.privateMem pi.buffer pi.packet
  toArduino := .empty
  arduino := .initial vincentCirc arduino.leftover arduino.privateMem arduino.buffer arduino.packet
  fromArduino := .empty
  toLaptop _ := .empty

/-! ## The parts -/

def SystemEvent.laptop? (conn : Conn) : SystemEvent → Option Client.LinkEvent
  | .laptop c e => if c = conn then some e else none
  | .pi _ | .arduino _ => none

def SystemEvent.pi? : SystemEvent → Option ServerEvent
  | .pi e => some e
  | .laptop _ _ | .arduino _ => none

def SystemEvent.arduino? : SystemEvent → Option Event
  | .arduino e => some e
  | .laptop _ _ | .pi _ => none

section
variable (conn c : Conn) (laptop : List Client.LinkEvent) (pi : List ServerEvent)
  (arduino : List Event)

@[simp] theorem laptop?_laptop : (laptop.map (SystemEvent.laptop c)).filterMap
    (SystemEvent.laptop? conn) = if c = conn then laptop else [] := by
  rw [List.filterMap_map]
  by_cases h : c = conn
  · rw [if_pos h]
    exact (List.filterMap_congr fun e _ => if_pos h).trans List.filterMap_some
  · rw [if_neg h]
    exact List.filterMap_eq_nil_iff.mpr fun e _ => if_neg h

@[simp] theorem laptop?_pi : (pi.map SystemEvent.pi).filterMap (SystemEvent.laptop? conn) = [] := by
  simp [List.filterMap_map, SystemEvent.laptop?, Function.comp_def]

@[simp] theorem laptop?_arduino :
    (arduino.map SystemEvent.arduino).filterMap (SystemEvent.laptop? conn) = [] := by
  simp [List.filterMap_map, SystemEvent.laptop?, Function.comp_def]

@[simp] theorem pi?_laptop : (laptop.map (SystemEvent.laptop c)).filterMap SystemEvent.pi? = [] := by
  simp [List.filterMap_map, SystemEvent.pi?, Function.comp_def]

@[simp] theorem pi?_pi : (pi.map SystemEvent.pi).filterMap SystemEvent.pi? = pi := by
  simp [List.filterMap_map, SystemEvent.pi?, Function.comp_def]

@[simp] theorem pi?_arduino : (arduino.map SystemEvent.arduino).filterMap SystemEvent.pi? = [] := by
  simp [List.filterMap_map, SystemEvent.pi?, Function.comp_def]

@[simp] theorem arduino?_laptop :
    (laptop.map (SystemEvent.laptop c)).filterMap SystemEvent.arduino? = [] := by
  simp [List.filterMap_map, SystemEvent.arduino?, Function.comp_def]

@[simp] theorem arduino?_pi : (pi.map SystemEvent.pi).filterMap SystemEvent.arduino? = [] := by
  simp [List.filterMap_map, SystemEvent.arduino?, Function.comp_def]

@[simp] theorem arduino?_arduino :
    (arduino.map SystemEvent.arduino).filterMap SystemEvent.arduino? = arduino := by
  simp [List.filterMap_map, SystemEvent.arduino?, Function.comp_def]

end

/-- What a step of the system is to one of its parts: nothing, or a step of the part. -/
inductive System.Step (abi : DataModel) (stack : Conn → Nat → UInt8) (s : System) :
    System × List SystemEvent → Prop
  | waits : Step abi stack s (s, [])
  | laptop (conn : Conn) (action : Client.ClientAction) (toLaptop : Conn → Channel (List UInt8)) :
      Step abi stack s (afterLaptop { s with toLaptop := toLaptop } conn
        ((Client.threads abi).step (s.laptops conn) action))
  | pi (action : Action) (toPi : Conn → Channel (List UInt8)) (fromArduino : Channel UInt8) :
      Step abi stack s (afterPi { s with toPi := toPi, fromArduino := fromArduino }
        (server.step s.pi action))
  | arduino (input : Input) (toArduino : Channel UInt8) :
      Step abi stack s (afterArduino { s with toArduino := toArduino }
        (firmware.step s.arduino input))

theorem system_step_step (abi : DataModel) (stack : Conn → Nat → UInt8) (s : System)
    (action : SystemAction) : s.Step abi stack ((system abi stack).step s action) := by
  cases action with
  | reader conn outcome =>
      show s.Step abi stack (s.reader abi conn outcome)
      rw [System.reader]
      split
      · split
        · exact .laptop conn _ _
        · exact .waits
      · exact .laptop conn _ s.toLaptop
  | writer conn input =>
      show s.Step abi stack (s.writer abi conn input)
      rw [System.writer]
      split
      · exact .waits
      · exact .laptop conn _ s.toLaptop
  | main helloPacket comms => exact .pi _ s.toPi s.fromArduino
  | connect conn => exact .pi _ s.toPi s.fromArduino
  | worker conn outcome commandPacket comms =>
      show s.Step abi stack (s.worker conn outcome commandPacket comms)
      rw [System.worker]
      split
      · split
        · exact .pi _ _ s.fromArduino
        · exact .waits
      · exact .pi _ s.toPi s.fromArduino
  | uart len count =>
      show s.Step abi stack (s.uart len count)
      rw [System.uart]
      split
      · exact .pi _ s.toPi _
      · exact .pi _ s.toPi s.fromArduino
  | int0 => exact .arduino .int0 s.toArduino
  | int1 => exact .arduino .int1 s.toArduino
  | loop len input => exact .arduino (.loop _) _

section
variable (abi : DataModel) (stack : Conn → Nat → UInt8) (s : System) (actions : List SystemAction)

theorem arduino_runs : ∃ inputs : List Input,
    ((system abi stack).final s actions).arduino = firmware.final s.arduino inputs ∧
    ((system abi stack).trace s actions).filterMap SystemEvent.arduino? =
      firmware.trace s.arduino inputs := by
  refine (system abi stack).exists_projection firmware System.arduino SystemEvent.arduino?
    (fun s a => ?_) s actions
  have h := system_step_step abi stack s a
  generalize (system abi stack).step s a = r at h ⊢
  cases h with
  | waits => exact ⟨[], rfl, rfl⟩
  | laptop conn action toLaptop => exact ⟨[], rfl, arduino?_laptop ..⟩
  | pi action toPi fromArduino => exact ⟨[], rfl, arduino?_pi ..⟩
  | arduino input toArduino =>
      exact ⟨[input], rfl, (arduino?_arduino _).trans (List.append_nil _).symm⟩

theorem pi_runs : ∃ inputs : List Action,
    ((system abi stack).final s actions).pi = server.final s.pi inputs ∧
    ((system abi stack).trace s actions).filterMap SystemEvent.pi? =
      server.trace s.pi inputs := by
  refine (system abi stack).exists_projection server System.pi SystemEvent.pi?
    (fun s a => ?_) s actions
  have h := system_step_step abi stack s a
  generalize (system abi stack).step s a = r at h ⊢
  cases h with
  | waits => exact ⟨[], rfl, rfl⟩
  | laptop conn action toLaptop => exact ⟨[], rfl, pi?_laptop ..⟩
  | pi action toPi fromArduino =>
      exact ⟨[action], rfl, (pi?_pi _).trans (List.append_nil _).symm⟩
  | arduino input toArduino => exact ⟨[], rfl, pi?_arduino ..⟩

theorem laptop_runs (conn : Conn) : ∃ inputs : List Client.ClientAction,
    ((system abi stack).final s actions).laptops conn =
      (Client.threads abi).final (s.laptops conn) inputs ∧
    ((system abi stack).trace s actions).filterMap (SystemEvent.laptop? conn) =
      (Client.threads abi).trace (s.laptops conn) inputs := by
  refine (system abi stack).exists_projection (Client.threads abi) (fun s => s.laptops conn)
    (SystemEvent.laptop? conn) (fun s a => ?_) s actions
  have h := system_step_step abi stack s a
  generalize (system abi stack).step s a = r at h ⊢
  cases h with
  | waits => exact ⟨[], rfl, rfl⟩
  | laptop c action toLaptop =>
      by_cases hc : c = conn
      · subst hc
        refine ⟨[action], Function.update_self .., ?_⟩
        exact ((laptop?_laptop ..).trans (if_pos rfl)).trans (List.append_nil _).symm
      · exact ⟨[], Function.update_of_ne (Ne.symm hc) .., (laptop?_laptop ..).trans (if_neg hc)⟩
  | pi action toPi fromArduino => exact ⟨[], rfl, laptop?_pi ..⟩
  | arduino input toArduino => exact ⟨[], rfl, laptop?_arduino ..⟩

end

/-! ## A run -/

def Boot.cleared : Boot := ⟨fun _ => 0, fun _ => 0, fun _ => 0, fun _ => 0⟩

/-- A laptop connects and a key is pressed; the command comes to the Arduino, and RESP_OK comes
back. -/
def SystemAction.oneCommand (ch : UInt8) (scanned : Params) : List SystemAction :=
  [.main .zeroes fun _ => 0, .main .zeroes fun _ => 0, .connect 0] ++
    List.replicate 4 (.writer 0 ⟨ch, scanned, 8, 1⟩) ++
    List.replicate 5 (.worker 0 .message .zeroes fun _ => 0) ++
    List.replicate 2 (.loop packetSize .silent) ++ List.replicate 6 (.uart packetSize 2) ++
    List.replicate 4 (.reader 0 .message)

theorem mem_oneCommand {ch : UInt8} {scanned : Params} {a : SystemAction}
    (ha : a ∈ SystemAction.oneCommand ch scanned) :
    a = .main .zeroes (fun _ => 0) ∨ a = .connect 0 ∨ a = .writer 0 ⟨ch, scanned, 8, 1⟩ ∨
      a = .worker 0 .message .zeroes (fun _ => 0) ∨ a = .loop packetSize .silent ∨
      a = .uart packetSize 2 ∨ a = .reader 0 .message := by
  simp only [SystemAction.oneCommand, List.mem_append, List.mem_cons, List.mem_replicate,
    List.not_mem_nil, or_false] at ha
  tauto

theorem short_oneCommand {ch : UInt8} {scanned : Params} :
    ∀ a ∈ SystemAction.oneCommand ch scanned, a.Short := by
  intro a ha
  rcases mem_oneCommand ha with rfl | rfl | rfl | rfl | rfl | rfl | rfl
  · trivial
  · trivial
  · trivial
  · trivial
  · exact le_refl packetSize
  · exact le_refl packetSize
  · trivial

end Alex
