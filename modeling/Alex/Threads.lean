/-
# `Alex.Threads` — the threads of the Pi's server

`main`, one `worker` for each accepted connection and `uartReceiveThread` share the
variables `networkActive` and `tls_conn` without a lock.  Here every access to one
of the two, every `sslRead`, `sslWrite` and `SSL_free` is one step; an action names
the thread that moves, so that a list of actions is an interleaving, and a thread
that is not there, or done, does not move.

    worker     while(networkActive)  sslRead  networkActive =  tls_conn =  handleCommand
               guard                 read     assign           handle      forward
                                                     tls_conn = NULL   SSL_free
                                                     reset             free
    receiver   serialRead  if(networkActive)  if(tls_conn != NULL)  sslWrite     networkActive =
               receive     testActive         testConn              load, write  assign

The argument `tls_conn` of `sslWrite` is read once more after the test (`load`).
-/
import Alex.Server
import Alex.Uart

namespace Alex

/-- A connection.  Each one that is accepted is new, though its address may not be. -/
abbrev Conn := Nat

structure Globals where
  networkActive : Bool
  tlsConn : Option Conn

/-- Where a value assigned to `networkActive` comes from: the constant in `main`, the
result of a `sslRead` or `sslWrite`, or a `count` nobody has assigned. -/
inductive Source where
  | main
  | read (conn : Conn)
  | write (conn : Option Conn)
  | uninitialised
  deriving DecidableEq, Repr

/-- What a step does that can be seen.  `assigned` gives the number tested, not the
truth value. -/
inductive ServerEvent where
  | connected (conn : Conn)
  | entered (conn : Conn)
  | left (conn : Conn)
  | sslRead (conn : Conn) (len : Int)
  | sslWrite (conn : Option Conn) (data : List UInt8) (count : Int)
  | assigned (source : Source) (value : Int)
  | uartSent (bytes : List UInt8)
  | freed (conn : Conn)
  deriving DecidableEq, Repr

/-! ## A worker -/

inductive WorkerPc where
  | guard | read | assign (len : Int) | handle | forward | reset | free | done
  deriving DecidableEq, Repr

/-- A worker: where it is, and its `buffer`. -/
structure Worker where
  pc : WorkerPc
  buffer : Cells UInt8

/-- `worker(conn)` and the functions it calls, the next step. -/
def Worker.step (conn : Conn) (g : Globals) (w : Worker) (input : NetworkInput)
    (commandPacket : TPacket) (comms : Nat → UInt8) : Globals × Worker × List ServerEvent :=
  match w.pc with
  | .guard =>
      if g.networkActive then (g, { w with pc := .read }, [.entered conn])
      else (g, { w with pc := .reset }, [.left conn])
  | .read =>
      let (buffer, len) := sslRead w.buffer input
      (g, ⟨.assign len, buffer⟩, [.sslRead conn len])
  | .assign len =>
      ({ g with networkActive := len > 0 }, { w with pc := if len > 0 then .handle else .guard },
        [.assigned (.read conn) len])
  | .handle => ({ g with tlsConn := some conn }, { w with pc := .forward }, [])
  | .forward =>
      (g, { w with pc := .guard },
        [.uartSent (handleNetworkData commandPacket comms w.buffer.get)])
  | .reset => ({ g with tlsConn := none }, { w with pc := .free }, [])
  | .free => (g, { w with pc := .done }, [.freed conn])
  | .done => (g, w, [])

/-! ## The UART thread -/

inductive ReceiverPc where
  | receive
  | testActive (data : List UInt8)
  | testConn (data : List UInt8)
  | load (data : List UInt8)
  | write (conn : Option Conn) (data : List UInt8)
  | assign (source : Source) (count : Int)
  deriving DecidableEq, Repr

/-- The UART thread: where it is, and the memory it receives packets in. -/
structure Receiver where
  pc : ReceiverPc
  uart : Uart

/-- `uartReceiveThread` and the functions it calls, the next step.  `count` is what
`sslWrite` returns, and what the variable holds when it is not called. -/
def Receiver.step (g : Globals) (r : Receiver) (input : SerialInput) (count : Int) :
    Globals × Receiver × List ServerEvent :=
  match r.pc with
  | .receive =>
      let (uart, result) := uartReceiveThread.step r.uart input
      if result = some .packetOk then
        match handleUARTPacket (.ofMemory uart.packet.get) with
        | some data => (g, ⟨.testActive data, uart⟩, [])
        | none => (g, ⟨.receive, uart⟩, [])
      else (g, ⟨.receive, uart⟩, [])
  | .testActive data =>
      (g, { r with pc := if g.networkActive then .testConn data else .receive }, [])
  | .testConn data =>
      match g.tlsConn with
      | some _ => (g, { r with pc := .load data }, [])
      | none => (g, { r with pc := .assign .uninitialised count }, [])
  | .load data => (g, { r with pc := .write g.tlsConn data }, [])
  | .write conn data =>
      (g, { r with pc := .assign (.write conn) count }, [.sslWrite conn data count])
  | .assign source count =>
      ({ g with networkActive := count > 0 }, { r with pc := .receive },
        [.assigned source count])

/-! ## The server -/

/-- `main`: before `networkActive = 1`, before `sendHello`, after it. -/
inductive MainPc where
  | start | hello | done
  deriving DecidableEq, Repr

structure Server where
  globals : Globals
  main : MainPc
  workers : Conn → Option Worker
  receiver : Receiver

/-- After `pthread_create(&serThread, …)`. -/
def Server.initial (leftover privateMem buffer packet : Nat → UInt8) : Server where
  globals := ⟨false, none⟩
  main := .start
  workers _ := none
  receiver := ⟨.receive, .initial leftover privateMem buffer packet⟩

inductive Action where
  | main (helloPacket : TPacket) (comms : Nat → UInt8)
  | connect (conn : Conn) (buffer : Nat → UInt8)
  | worker (conn : Conn) (input : NetworkInput) (commandPacket : TPacket) (comms : Nat → UInt8)
  | uart (input : SerialInput) (count : Int)

/-- A worker put in the place of another, or of none. -/
def Server.setWorker (s : Server) (conn : Conn) (w : Worker) : Server :=
  { s with workers := Function.update s.workers conn (some w) }

/-- The server, step by step.  `connect` is `_tls_listener` with a connection that has
been accepted and verified; it listens once `createServer` has been called. -/
def server : Mealy Server Action (List ServerEvent) where
  step s action :=
    match action with
    | .main helloPacket comms =>
        match s.main with
        | .start =>
            ({ s with globals := { s.globals with networkActive := true }, main := .hello },
              [.assigned .main 1])
        | .hello => ({ s with main := .done }, [.uartSent (sendHello helloPacket comms)])
        | .done => (s, [])
    | .connect conn buffer =>
        if s.main ≠ .start ∧ (s.workers conn).isNone then
          (s.setWorker conn ⟨.guard, ⟨buffer, []⟩⟩, [.connected conn])
        else (s, [])
    | .worker conn input commandPacket comms =>
        match s.workers conn with
        | none => (s, [])
        | some w =>
            let (g, w, events) := w.step conn s.globals input commandPacket comms
            ({ s.setWorker conn w with globals := g }, events)
    | .uart input count =>
        let (g, r, events) := s.receiver.step s.globals input count
        ({ s with globals := g, receiver := r }, events)

theorem Server.workers_setWorker {s : Server} {conn c : Conn} {w v : Worker}
    (h : (s.setWorker conn w).workers c = some v) : c = conn ∧ v = w ∨ s.workers c = some v := by
  replace h : Function.update s.workers conn (some w) c = some v := h
  by_cases hc : c = conn
  · subst hc
    rw [Function.update_self] at h
    exact .inl ⟨rfl, (Option.some.inj h).symm⟩
  · rw [Function.update_of_ne hc] at h
    exact .inr h

theorem Server.setWorker_self (s : Server) (conn : Conn) (w : Worker) :
    (s.setWorker conn w).workers conn = some w := Function.update_self ..

theorem Server.setWorker_of_ne (s : Server) {conn c : Conn} (h : c ≠ conn) (w : Worker) :
    (s.setWorker conn w).workers c = s.workers c := Function.update_of_ne h ..

theorem Server.setWorker_keeps {s : Server} {conn : Conn} {w v : Worker} (P : WorkerPc → Prop)
    (hw : s.workers conn = some w) (hP : P w.pc → P v.pc) {c : Conn}
    (h : ∃ u, s.workers c = some u ∧ P u.pc) :
    ∃ u, (s.setWorker conn v).workers c = some u ∧ P u.pc := by
  obtain ⟨u, hu, hpc⟩ := h
  by_cases hc : c = conn
  · subst hc
    obtain rfl := Option.some.inj (hw.symm.trans hu)
    exact ⟨v, s.setWorker_self c v, hP hpc⟩
  · exact ⟨u, (s.setWorker_of_ne hc v).trans hu, hpc⟩

theorem Server.setWorker_new {s : Server} {conn : Conn} (P : WorkerPc → Prop)
    (hn : s.workers conn = none) (v : Worker) {c : Conn} (h : ∃ u, s.workers c = some u ∧ P u.pc) :
    ∃ u, (s.setWorker conn v).workers c = some u ∧ P u.pc := by
  obtain ⟨u, hu, hpc⟩ := h
  have hc : c ≠ conn := by
    rintro rfl
    exact nomatch hn.symm.trans hu
  exact ⟨u, (s.setWorker_of_ne hc v).trans hu, hpc⟩

/-! ## What a step can do -/

/-- The steps of a worker, place by place. -/
inductive Worker.Step (conn : Conn) (g : Globals) (w : Worker) :
    Globals × Worker × List ServerEvent → Prop
  | enters : w.pc = .guard → g.networkActive = true →
      Step conn g w (g, { w with pc := .read }, [.entered conn])
  | leaves : w.pc = .guard → g.networkActive = false →
      Step conn g w (g, { w with pc := .reset }, [.left conn])
  | reads (len : Int) (buffer : Cells UInt8) : w.pc = .read →
      Step conn g w (g, ⟨.assign len, buffer⟩, [.sslRead conn len])
  | assigns (len : Int) (pc : WorkerPc) : w.pc = .assign len → pc = .handle ∨ pc = .guard →
      Step conn g w ({ g with networkActive := len > 0 }, { w with pc := pc },
        [.assigned (.read conn) len])
  | handles : w.pc = .handle →
      Step conn g w ({ g with tlsConn := some conn }, { w with pc := .forward }, [])
  | forwards (bytes : List UInt8) : w.pc = .forward →
      Step conn g w (g, { w with pc := .guard }, [.uartSent bytes])
  | resets : w.pc = .reset →
      Step conn g w ({ g with tlsConn := none }, { w with pc := .free }, [])
  | frees : w.pc = .free → Step conn g w (g, { w with pc := .done }, [.freed conn])
  | rests : w.pc = .done → Step conn g w (g, w, [])

theorem Worker.step_step (conn : Conn) (g : Globals) (w : Worker) (input : NetworkInput)
    (commandPacket : TPacket) (comms : Nat → UInt8) :
    Step conn g w (w.step conn g input commandPacket comms) := by
  rw [step]
  split
  · rename_i hpc
    split
    · rename_i hg
      exact .enters hpc hg
    · rename_i hg
      exact .leaves hpc (Bool.eq_false_iff.mpr hg)
  · rename_i hpc
    exact .reads _ _ hpc
  · rename_i len hpc
    refine .assigns len _ hpc ?_
    split
    · exact .inl rfl
    · exact .inr rfl
  · rename_i hpc
    exact .handles hpc
  · rename_i hpc
    exact .forwards _ hpc
  · rename_i hpc
    exact .resets hpc
  · rename_i hpc
    exact .frees hpc
  · rename_i hpc
    exact .rests hpc

/-- The steps of the UART thread, place by place. -/
inductive Receiver.Step (g : Globals) (r : Receiver) :
    Globals × Receiver × List ServerEvent → Prop
  | receives (pc : ReceiverPc) (uart : Uart) : r.pc = .receive →
      pc = .receive ∨ (∃ data, pc = .testActive data) → Step g r (g, ⟨pc, uart⟩, [])
  | givesUp (data : List UInt8) : r.pc = .testActive data → g.networkActive = false →
      Step g r (g, { r with pc := .receive }, [])
  | goesOn (data : List UInt8) : r.pc = .testActive data → g.networkActive = true →
      Step g r (g, { r with pc := .testConn data }, [])
  | finds (data : List UInt8) : r.pc = .testConn data → g.tlsConn ≠ none →
      Step g r (g, { r with pc := .load data }, [])
  | skips (data : List UInt8) (count : Int) : r.pc = .testConn data → g.tlsConn = none →
      Step g r (g, { r with pc := .assign .uninitialised count }, [])
  | loads (data : List UInt8) : r.pc = .load data →
      Step g r (g, { r with pc := .write g.tlsConn data }, [])
  | writes (conn : Option Conn) (data : List UInt8) (count : Int) : r.pc = .write conn data →
      Step g r (g, { r with pc := .assign (.write conn) count }, [.sslWrite conn data count])
  | assigns (source : Source) (count : Int) : r.pc = .assign source count →
      Step g r ({ g with networkActive := count > 0 }, { r with pc := .receive },
        [.assigned source count])

theorem Receiver.step_step (g : Globals) (r : Receiver) (input : SerialInput) (count : Int) :
    Step g r (r.step g input count) := by
  rw [step]
  split
  · rename_i hpc
    simp only
    split
    · split
      · exact .receives _ _ hpc (.inr ⟨_, rfl⟩)
      · exact .receives _ _ hpc (.inl rfl)
    · exact .receives _ _ hpc (.inl rfl)
  · rename_i data hpc
    cases hg : g.networkActive with
    | true => exact .goesOn data hpc hg
    | false => exact .givesUp data hpc hg
  · rename_i data hpc
    split
    · rename_i hc
      exact .finds data hpc fun h => nomatch hc.symm.trans h
    · rename_i hc
      exact .skips data count hpc hc
  · rename_i data hpc
    exact .loads data hpc
  · rename_i conn data hpc
    exact .writes conn data count hpc
  · rename_i source n hpc
    exact .assigns source n hpc

/-- The steps of the server. -/
inductive Server.Step (s : Server) : Action → Server × List ServerEvent → Prop
  | stays (a : Action) : Step s a (s, [])
  | starts (helloPacket : TPacket) (comms : Nat → UInt8) : s.main = .start →
      Step s (.main helloPacket comms)
        ({ s with globals := { s.globals with networkActive := true }, main := .hello },
          [.assigned .main 1])
  | greets (helloPacket : TPacket) (comms : Nat → UInt8) : s.main = .hello →
      Step s (.main helloPacket comms)
        ({ s with main := .done }, [.uartSent (sendHello helloPacket comms)])
  | accepts (conn : Conn) (buffer : Nat → UInt8) : s.main ≠ .start → s.workers conn = none →
      Step s (.connect conn buffer)
        (s.setWorker conn ⟨.guard, ⟨buffer, []⟩⟩, [.connected conn])
  | worker (conn : Conn) (w : Worker) (input : NetworkInput) (commandPacket : TPacket)
      (comms : Nat → UInt8) (r : Globals × Worker × List ServerEvent) :
      s.workers conn = some w → w.Step conn s.globals r →
      Step s (.worker conn input commandPacket comms)
        ({ s.setWorker conn r.2.1 with globals := r.1 }, r.2.2)
  | uart (input : SerialInput) (count : Int) (r : Globals × Receiver × List ServerEvent) :
      s.receiver.Step s.globals r →
      Step s (.uart input count) ({ s with globals := r.1, receiver := r.2.1 }, r.2.2)

theorem server_step_step (s : Server) (a : Action) : s.Step a (server.step s a) := by
  cases a with
  | main helloPacket comms =>
      simp only [server]
      split
      · rename_i hs
        exact .starts helloPacket comms hs
      · rename_i hs
        exact .greets helloPacket comms hs
      · exact .stays _
  | connect conn buffer =>
      simp only [server]
      split
      · rename_i hc
        exact .accepts conn buffer hc.1 (Option.isNone_iff_eq_none.mp hc.2)
      · exact .stays _
  | worker conn input commandPacket comms =>
      simp only [server]
      split
      · exact .stays _
      · rename_i w hw
        exact .worker conn w input commandPacket comms _ hw
          (w.step_step conn s.globals input commandPacket comms)
  | uart input count => exact .uart input count _ (s.receiver.step_step s.globals input count)

/-- Where in which thread an event comes from. -/
inductive Server.Emits (s : Server) : Action → ServerEvent → Prop
  | starts (helloPacket : TPacket) (comms : Nat → UInt8) : s.main = .start →
      Emits s (.main helloPacket comms) (.assigned .main 1)
  | greets (helloPacket : TPacket) (comms : Nat → UInt8) : s.main = .hello →
      Emits s (.main helloPacket comms) (.uartSent (sendHello helloPacket comms))
  | accepts (conn : Conn) (buffer : Nat → UInt8) : s.workers conn = none →
      Emits s (.connect conn buffer) (.connected conn)
  | enters (conn : Conn) (w : Worker) (input : NetworkInput) (commandPacket : TPacket)
      (comms : Nat → UInt8) : s.workers conn = some w → w.pc = .guard →
      s.globals.networkActive = true →
      Emits s (.worker conn input commandPacket comms) (.entered conn)
  | leaves (conn : Conn) (w : Worker) (input : NetworkInput) (commandPacket : TPacket)
      (comms : Nat → UInt8) : s.workers conn = some w → w.pc = .guard →
      s.globals.networkActive = false →
      Emits s (.worker conn input commandPacket comms) (.left conn)
  | reads (conn : Conn) (w : Worker) (input : NetworkInput) (commandPacket : TPacket)
      (comms : Nat → UInt8) (len : Int) : s.workers conn = some w → w.pc = .read →
      Emits s (.worker conn input commandPacket comms) (.sslRead conn len)
  | takes (conn : Conn) (w : Worker) (input : NetworkInput) (commandPacket : TPacket)
      (comms : Nat → UInt8) (len : Int) : s.workers conn = some w → w.pc = .assign len →
      Emits s (.worker conn input commandPacket comms) (.assigned (.read conn) len)
  | forwards (conn : Conn) (w : Worker) (input : NetworkInput) (commandPacket : TPacket)
      (comms : Nat → UInt8) (bytes : List UInt8) : s.workers conn = some w → w.pc = .forward →
      Emits s (.worker conn input commandPacket comms) (.uartSent bytes)
  | frees (conn : Conn) (w : Worker) (input : NetworkInput) (commandPacket : TPacket)
      (comms : Nat → UInt8) : s.workers conn = some w → w.pc = .free →
      Emits s (.worker conn input commandPacket comms) (.freed conn)
  | writes (input : SerialInput) (n : Int) (conn : Option Conn) (data : List UInt8) (count : Int) :
      s.receiver.pc = .write conn data →
      Emits s (.uart input n) (.sslWrite conn data count)
  | assigns (input : SerialInput) (n : Int) (source : Source) (count : Int) :
      s.receiver.pc = .assign source count →
      Emits s (.uart input n) (.assigned source count)

theorem server_emits {s : Server} {a : Action} {e : ServerEvent} (h : e ∈ (server.step s a).2) :
    s.Emits a e := by
  have hs := server_step_step s a
  generalize server.step s a = r at hs h
  cases hs with
  | stays _ => exact absurd h List.not_mem_nil
  | starts helloPacket comms hs =>
      obtain rfl := List.mem_singleton.mp h
      exact .starts helloPacket comms hs
  | greets helloPacket comms hs =>
      obtain rfl := List.mem_singleton.mp h
      exact .greets helloPacket comms hs
  | accepts conn buffer _ hn =>
      obtain rfl := List.mem_singleton.mp h
      exact .accepts conn buffer hn
  | worker conn w input commandPacket comms _ hw hstep =>
      cases hstep with
      | handles _ => exact absurd h List.not_mem_nil
      | resets _ => exact absurd h List.not_mem_nil
      | rests _ => exact absurd h List.not_mem_nil
      | enters hpc hg =>
          obtain rfl := List.mem_singleton.mp h
          exact .enters conn w input commandPacket comms hw hpc hg
      | leaves hpc hg =>
          obtain rfl := List.mem_singleton.mp h
          exact .leaves conn w input commandPacket comms hw hpc hg
      | reads len _ hpc =>
          obtain rfl := List.mem_singleton.mp h
          exact .reads conn w input commandPacket comms len hw hpc
      | assigns len _ hpc _ =>
          obtain rfl := List.mem_singleton.mp h
          exact .takes conn w input commandPacket comms len hw hpc
      | forwards bytes hpc =>
          obtain rfl := List.mem_singleton.mp h
          exact .forwards conn w input commandPacket comms bytes hw hpc
      | frees hpc =>
          obtain rfl := List.mem_singleton.mp h
          exact .frees conn w input commandPacket comms hw hpc
  | uart input n _ hstep =>
      cases hstep with
      | receives _ _ _ _ => exact absurd h List.not_mem_nil
      | givesUp _ _ _ => exact absurd h List.not_mem_nil
      | goesOn _ _ _ => exact absurd h List.not_mem_nil
      | finds _ _ _ => exact absurd h List.not_mem_nil
      | skips _ _ _ _ => exact absurd h List.not_mem_nil
      | loads _ _ => exact absurd h List.not_mem_nil
      | writes conn data count hpc =>
          obtain rfl := List.mem_singleton.mp h
          exact .writes input n conn data count hpc
      | assigns source count hpc =>
          obtain rfl := List.mem_singleton.mp h
          exact .assigns input n source count hpc

theorem write_of_sslWrite {s : Server} {a : Action} {conn : Option Conn} {data : List UInt8}
    {count : Int} (h : .sslWrite conn data count ∈ (server.step s a).2) :
    s.receiver.pc = .write conn data := by
  cases server_emits h with
  | writes _ _ _ _ _ hpc => exact hpc

theorem sslWrite_of_write {s : Server} {conn : Option Conn} {data : List UInt8}
    (h : s.receiver.pc = .write conn data) (input : SerialInput) (count : Int) :
    .sslWrite conn data count ∈ (server.step s (.uart input count)).2 := by
  have hstep : (server.step s (.uart input count)).2 = [.sslWrite conn data count] := by
    simp only [server, Receiver.step, h]
  rw [hstep]
  exact List.mem_cons_self

/-- The UART thread comes to an `sslWrite` by loading `tls_conn`. -/
theorem load_of_write {s : Server} {input : SerialInput} {count : Int} {conn : Option Conn}
    {data : List UInt8}
    (h : (server.step s (.uart input count)).1.receiver.pc = .write conn data) :
    s.receiver.pc = .load data ∧ s.globals.tlsConn = conn := by
  have hs := s.receiver.step_step s.globals input count
  replace h : (s.receiver.step s.globals input count).2.1.pc = .write conn data := h
  generalize s.receiver.step s.globals input count = r at hs h
  cases hs with
  | loads data' hpc =>
      cases h
      exact ⟨hpc, rfl⟩
  | receives _ _ _ hto =>
      rcases hto with rfl | ⟨_, rfl⟩
      · exact nomatch h
      · exact nomatch h
  | givesUp _ _ _ => exact nomatch h
  | goesOn _ _ _ => exact nomatch h
  | finds _ _ _ => exact nomatch h
  | skips _ _ _ _ => exact nomatch h
  | writes _ _ _ _ => exact nomatch h
  | assigns _ _ _ => exact nomatch h

/-- Only the UART thread moves the UART thread. -/
theorem receiver_step (s : Server) (a : Action) :
    (∃ input count, a = .uart input count) ∨ (server.step s a).1.receiver = s.receiver := by
  have hs := server_step_step s a
  generalize server.step s a = r at hs ⊢
  cases hs with
  | uart input count _ _ => exact .inl ⟨input, count, rfl⟩
  | stays _ => exact .inr rfl
  | starts _ _ _ => exact .inr rfl
  | greets _ _ _ => exact .inr rfl
  | accepts _ _ _ _ => exact .inr rfl
  | worker _ _ _ _ _ _ _ _ => exact .inr rfl

theorem read_of_assign {s : Server} {a : Action} {conn : Conn} {w : Worker} {len : Int}
    (hw : (server.step s a).1.workers conn = some w) (hpc : w.pc = .assign len) :
    .sslRead conn len ∈ (server.step s a).2 ∨
      ∃ u, s.workers conn = some u ∧ u.pc = .assign len := by
  have hs := server_step_step s a
  generalize server.step s a = r at hs hw ⊢
  cases hs with
  | stays _ => exact .inr ⟨w, hw, hpc⟩
  | starts _ _ _ => exact .inr ⟨w, hw, hpc⟩
  | greets _ _ _ => exact .inr ⟨w, hw, hpc⟩
  | uart _ _ _ _ => exact .inr ⟨w, hw, hpc⟩
  | accepts _ _ _ _ =>
      rcases Server.workers_setWorker hw with ⟨-, rfl⟩ | hw
      · exact nomatch hpc
      · exact .inr ⟨w, hw, hpc⟩
  | worker _ u _ _ _ r hu hstep =>
      rcases Server.workers_setWorker (s := s) hw with ⟨rfl, rfl⟩ | hw
      · cases hstep with
        | reads n _ _ =>
            cases hpc
            exact .inl List.mem_cons_self
        | assigns _ _ _ hto =>
            rcases hto with rfl | rfl
            · exact nomatch hpc
            · exact nomatch hpc
        | rests _ => exact .inr ⟨_, hu, hpc⟩
        | enters _ _ => exact nomatch hpc
        | leaves _ _ => exact nomatch hpc
        | handles _ => exact nomatch hpc
        | forwards _ _ => exact nomatch hpc
        | resets _ => exact nomatch hpc
        | frees _ => exact nomatch hpc
      · exact .inr ⟨w, hw, hpc⟩

theorem write_of_assign {s : Server} {a : Action} {source : Source} {count : Int}
    (hpc : (server.step s a).1.receiver.pc = .assign source count) :
    (∃ conn data, source = .write conn ∧ .sslWrite conn data count ∈ (server.step s a).2) ∨
      source = .uninitialised ∨ s.receiver.pc = .assign source count := by
  have hs := server_step_step s a
  generalize server.step s a = r at hs hpc ⊢
  cases hs with
  | stays _ => exact .inr (.inr hpc)
  | starts _ _ _ => exact .inr (.inr hpc)
  | greets _ _ _ => exact .inr (.inr hpc)
  | accepts _ _ _ _ => exact .inr (.inr hpc)
  | worker _ _ _ _ _ _ _ _ => exact .inr (.inr hpc)
  | uart _ _ _ hstep =>
      cases hstep with
      | receives _ _ _ hto =>
          rcases hto with rfl | ⟨_, rfl⟩
          · exact nomatch hpc
          · exact nomatch hpc
      | givesUp _ _ _ => exact nomatch hpc
      | goesOn _ _ _ => exact nomatch hpc
      | finds _ _ _ => exact nomatch hpc
      | skips _ _ _ _ =>
          cases hpc
          exact .inr (.inl rfl)
      | loads _ _ => exact nomatch hpc
      | writes conn data _ _ =>
          cases hpc
          exact .inl ⟨conn, data, rfl, List.mem_cons_self⟩
      | assigns _ _ _ => exact nomatch hpc

end Alex
