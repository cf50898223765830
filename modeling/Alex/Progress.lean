/-
# `Alex.Progress` — every session can be finished

As long as nothing fails, no state of the system is a dead end: what has been typed can be
brought to the Arduino, handled, answered, relayed and shown, without anybody typing more.

What is left to do is measured along the way it takes, in an order in which what is done
at one place only makes work at later ones:

    typing        the writers on their way back to the prompt
    main, connecting
    working       the messages under way to the workers, and their steps up to `sslRead`
    toArduino     the bytes under way
    receiving     the bytes under way back, and the steps of the UART thread
    showing       the messages under way to the readers, and their steps up to `sslRead`

`L` is a set of connections that no step has gone beyond.
-/
import Alex.Session
import Mathlib.Algebra.Order.BigOperators.Group.Finset
import Mathlib.Data.Prod.Lex

namespace Alex

open Channel

/-! ## What is left to do -/

/-- Steps of the writer until its command is written. -/
def Client.WriterPc.left : Client.WriterPc → Nat
  | .test _ => 2
  | .write _ => 1
  | .prompt | .assign | .stop | .done => 0

/-- Steps of the reader to its next `sslRead`. -/
def Client.ReaderPc.left : Client.ReaderPc → Nat
  | .assign _ => 3
  | .test => 2
  | .guard => 1
  | .read | .stop | .done => 0

/-- Steps of a worker to its next `sslRead`. -/
def WorkerPc.left : WorkerPc → Nat
  | .assign _ => 4
  | .handle => 3
  | .forward => 2
  | .guard => 1
  | .read | .reset | .free | .done => 0

/-- Steps of the UART thread to its next `serialRead`. -/
def ReceiverPc.left : ReceiverPc → Nat
  | .testActive _ => 5
  | .testConn _ => 4
  | .load _ => 3
  | .write _ _ => 2
  | .assign _ _ => 1
  | .receive => 0

namespace System

def typing (s : System) (c : Conn) : Nat := (s.laptops c).writer.left

def connecting (s : System) (c : Conn) : Nat := if s.pi.workers c = none then 1 else 0

def working (s : System) (c : Conn) : Nat :=
  (s.toPi c).waiting.length * 5 + ((s.pi.workers c).elim 0 fun w => w.pc.left)

def receiving (s : System) : Nat := s.fromArduino.waiting.length * 6 + s.pi.receiver.pc.left

def showing (s : System) (c : Conn) : Nat :=
  (s.toLaptop c).waiting.length * 4 + (s.laptops c).reader.left

/-- All that is left to do, what comes first in front. -/
def rest (L : Finset Conn) (s : System) : ℕ ×ₗ ℕ ×ₗ ℕ ×ₗ ℕ ×ₗ ℕ ×ₗ ℕ ×ₗ ℕ :=
  toLex (L.sum s.typing, toLex (if s.pi.main = .start then 1 else 0,
    toLex (L.sum s.connecting, toLex (L.sum s.working, toLex (s.toArduino.waiting.length,
      toLex (s.receiving, L.sum s.showing))))))

end System

namespace Client

section
variable (abi : DataModel) {s : Threads}

end

end Client

section
variable {g : Globals}

end

def SystemAction.conn? : SystemAction → Option Conn
  | .reader conn _ | .writer conn _ | .connect conn | .worker conn _ _ _ => some conn
  | .main _ _ | .uart _ _ | .int0 | .int1 | .loop _ _ => none

theorem step_elsewhere (abi : DataModel) (stack : Conn → Nat → UInt8) (s : System)
    {a : SystemAction} {c : Conn} (h : a.conn? ≠ some c) :
    let t := ((system abi stack).step s a).1
    t.laptops c = s.laptops c ∧ t.toPi c = s.toPi c ∧ t.pi.workers c = s.pi.workers c := by
  have hne {conn : Conn} (hconn : a.conn? = some conn) : c ≠ conn := by
    rintro rfl
    exact h hconn
  cases a with
  | reader conn outcome =>
      have hc := hne rfl
      simp only [system, System.reader]
      split
      · split <;> simp [System.afterLaptop, hc]
      · simp [System.afterLaptop, hc]
  | writer conn input =>
      have hc := hne rfl
      simp only [system, System.writer]
      split
      · exact ⟨rfl, rfl, rfl⟩
      · simp [System.afterLaptop, hc]
  | main helloPacket comms =>
      cases hmain : s.pi.main <;> simp [system, System.afterPi, server, hmain]
  | connect conn =>
      have hc := hne rfl
      refine ⟨rfl, rfl, ?_⟩
      show (server.step s.pi (.connect conn (stack conn))).1.workers c = s.pi.workers c
      simp only [server]
      split
      · exact Server.setWorker_of_ne _ hc _
      · rfl
  | worker conn outcome commandPacket comms =>
      have hc := hne rfl
      simp only [system, System.worker]
      split
      · split
        · simp only [System.afterPi, server]
          split <;> simp [Server.setWorker_of_ne, hc]
        · exact ⟨rfl, rfl, rfl⟩
      · simp only [System.afterPi, server]
        split <;> simp [Server.setWorker_of_ne, hc]
  | uart len count =>
      simp only [system, System.uart]
      split <;> exact ⟨rfl, rfl, rfl⟩
  | int0 => exact ⟨rfl, rfl, rfl⟩
  | int1 => exact ⟨rfl, rfl, rfl⟩
  | loop len input => exact ⟨rfl, rfl, rfl⟩

/-! ## Steps that leave less to do -/

section
variable {abi : DataModel} {stack : Conn → Nat → UInt8} {s : System} {L : Finset Conn} {c : Conn}

end

/-! ## Finished sessions -/

/-- Nothing has happened on a connection. -/
structure System.Untouched (s : System) (c : Conn) : Prop where
  typed : (s.laptops c).writer.pending = []
  handled : (s.laptops c).reader.holds = false
  messages : (s.toPi c).waiting = []
  nobody : s.pi.workers c = none

section
variable {abi : DataModel} {stack : Conn → Nat → UInt8} {s : System} {history : List SystemEvent}
  {L : Finset Conn} {down up : List Forwarded} {ok : Prop} {arrived coming : List Response}
  {relays : List (Conn × TPacket)} {held : Option TPacket}

theorem System.Untouched.step {c : Conn} (h : s.Untouched c) {a : SystemAction}
    (ha : a.conn? ≠ some c) : ((system abi stack).step s a).1.Untouched c := by
  obtain ⟨hlaptops, htoPi, hworkers⟩ := step_elsewhere abi stack s ha
  exact ⟨hlaptops ▸ h.typed, hlaptops ▸ h.handled, htoPi ▸ h.messages, hworkers ▸ h.nobody⟩

end

end Alex
