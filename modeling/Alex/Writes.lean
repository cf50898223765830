/-
# `Alex.Writes` — who is written to

`sendNetworkData` tests that `tls_conn` is not NULL, and then reads it again for the
call of `sslWrite`.  A worker that leaves resets the variable and frees its connection
in between, or after the second read:

    UART thread    test …… load …… sslWrite
    worker               reset    SSL_free

`tls_conn` itself never holds a connection that was freed (`Accounted.live`); so these
two are the only ways to a dead connection, and each leads to one
(`writes_to_live_iff`).
-/
import Alex.Connections

namespace Alex

/-! ## The law -/

/-- A connection that can be written to. -/
def Live (conn : Option Conn) (events : List ServerEvent) : Prop :=
  ∃ c, conn = some c ∧ .freed c ∉ events

/-- Every `sslWrite` of a run is to a connection that its worker has not freed. -/
def WritesToLive (s : Server) (actions : List Action) : Prop :=
  ∀ before a, before ++ [a] <+: actions → ∀ conn data count,
    .sslWrite conn data count ∈ (server.step (server.final s before) a).2 →
      Live conn (server.trace s before)

/-- A step in which the UART thread, about to write, is left without a connection: it
loads `tls_conn` after a reset, or a worker frees what it has loaded. -/
inductive Snatches (s : Server) : Action → Prop
  | reset (input : SerialInput) (count : Int) (data : List UInt8) :
      s.receiver.pc = .load data → s.globals.tlsConn = none → Snatches s (.uart input count)
  | free (conn : Conn) (w : Worker) (input : NetworkInput) (commandPacket : TPacket)
      (comms : Nat → UInt8) (data : List UInt8) : s.workers conn = some w → w.pc = .free →
      s.receiver.pc = .write (some conn) data →
      Snatches s (.worker conn input commandPacket comms)

theorem Accounted.live {s : Server} {h : List ServerEvent} (ha : Accounted s h)
    (hc : s.globals.tlsConn ≠ none) : Live s.globals.tlsConn h := by
  obtain ⟨c, hc⟩ := Option.ne_none_iff_exists'.mp hc
  obtain ⟨w, hw, hstage⟩ := ha.current c hc
  refine ⟨c, hc, fun hfreed => ?_⟩
  obtain ⟨v, hv, hdone⟩ := ha.freed c hfreed
  obtain rfl := Option.some.inj (hw.symm.trans hv)
  omega

theorem Live.append {conn : Option Conn} {h events : List ServerEvent} (hl : Live conn h)
    (hf : ∀ c, conn = some c → .freed c ∉ events) : Live conn (h ++ events) := by
  obtain ⟨c, hc, hlive⟩ := hl
  refine ⟨c, hc, fun hm => ?_⟩
  rcases List.mem_append.mp hm with hm | hm
  · exact hlive hm
  · exact hf c hc hm

/-! ## Between load and write -/

/-- What the UART thread is about to write to can be written to. -/
def Holds (s : Server) (events : List ServerEvent) : Prop :=
  ∀ conn data, s.receiver.pc = .write conn data → Live conn events

/-- **Step.**  It stays so unless the step snatches it away. -/
theorem holds_step {s : Server} {h : List ServerEvent} {a : Action} (hacc : Accounted s h)
    (hh : Holds s h) (ha : ¬ Snatches s a) :
    Holds (server.step s a).1 (h ++ (server.step s a).2) := by
  intro conn data hpc
  rcases receiver_step s a with ⟨input, count, rfl⟩ | hr
  · -- the UART thread has just loaded `tls_conn`
    obtain ⟨hload, rfl⟩ := load_of_write hpc
    refine (hacc.live fun hn => ha (.reset input count data hload hn)).append fun c _ hc => ?_
    exact nomatch server_emits hc
  · rw [hr] at hpc
    refine (hh conn data hpc).append fun c hconn hc => ?_
    subst hconn
    cases server_emits hc with
    | frees _ w input commandPacket comms hw hfree =>
        exact ha (.free c w input commandPacket comms data hw hfree hpc)

/-- **Run.**  In a run without such a step. -/
theorem holds_final {start : Server} (hstart : Accounted start []) (hpc : Holds start [])
    (actions : List Action)
    (ha : ∀ before a, before ++ [a] <+: actions → ¬ Snatches (server.final start before) a) :
    Holds (server.final start actions) (server.trace start actions) := by
  induction actions using List.reverseRecOn with
  | nil => exact hpc
  | append_singleton actions a ih =>
      have ih := ih fun before b hp => ha before b (hp.trans (List.prefix_append _ _))
      rw [server.final_concat, server.trace_concat]
      exact holds_step (accounted_final hstart actions) ih
        (ha actions a (List.prefix_refl _))

/-! ## What was snatched is written to -/

/-- A dead connection the UART thread has loaded is written to, sooner or later. -/
theorem not_writesToLive {start : Server} {conn : Option Conn} {data : List UInt8}
    {before : List Action} (hpc : (server.final start before).receiver.pc = .write conn data)
    (hdead : ¬ Live conn (server.trace start before)) (later : List Action)
    (input : SerialInput) (count : Int) :
    ¬ WritesToLive start (before ++ later ++ [.uart input count]) := by
  induction later generalizing before with
  | nil =>
      rw [List.append_nil]
      intro hlaw
      exact hdead (hlaw before _ (List.prefix_refl _) conn data count
        (sslWrite_of_write hpc input count))
  | cons a later ih =>
      have happ : before ++ a :: later = before ++ [a] ++ later := by
        rw [List.append_assoc, List.cons_append, List.nil_append]
      rcases receiver_step (server.final start before) a with ⟨input', count', rfl⟩ | hr
      · intro hlaw
        refine hdead (hlaw before _ ?_ conn data count' (sslWrite_of_write hpc input' count'))
        rw [happ, List.append_assoc]
        exact List.prefix_append _ _
      · rw [happ]
        refine @ih (before ++ [a]) ?_ ?_
        · rw [server.final_concat, hr]
          exact hpc
        · rintro ⟨c, hc, hlive⟩
          refine hdead ⟨c, hc, fun hm => hlive ?_⟩
          rw [server.trace_concat]
          exact List.mem_append_left _ hm

theorem dead_of_snatches {s : Server} {h : List ServerEvent} {a : Action} (hs : Snatches s a) :
    ∃ conn data, (server.step s a).1.receiver.pc = .write conn data ∧
      ¬ Live conn (h ++ (server.step s a).2) := by
  cases hs with
  | reset input count data hload hn =>
      refine ⟨none, data, ?_, fun ⟨c, hc, _⟩ => nomatch hc⟩
      simp only [server, Receiver.step, hload, hn]
  | free conn w input commandPacket comms data hw hfree hpc =>
      have hstep : server.step s (.worker conn input commandPacket comms) =
          (s.setWorker conn { w with pc := .done }, [.freed conn]) := by
        simp only [server, hw, Worker.step, hfree]
        rfl
      rw [hstep]
      refine ⟨some conn, data, hpc, ?_⟩
      rintro ⟨c, hc, hlive⟩
      cases hc
      exact hlive (List.mem_append_right _ List.mem_cons_self)

/-- **No write to a dead connection.**  A run of the server, and the next step of its
UART thread, write to no connection that is NULL or freed exactly if in no step the UART
thread loads `tls_conn` after a reset and in none a worker frees a connection that the
UART thread has loaded. -/
theorem writes_to_live_iff (leftover privateMem buffer packet : Nat → UInt8)
    (actions : List Action) (input : SerialInput) (count : Int) :
    let start := Server.initial leftover privateMem buffer packet
    WritesToLive start (actions ++ [.uart input count]) ↔
      ∀ before a, before ++ [a] <+: actions → ¬ Snatches (server.final start before) a := by
  intro start
  constructor
  · intro hlaw before a hp hsnatch
    obtain ⟨later, rfl⟩ := hp
    obtain ⟨conn, data, hpc, hdead⟩ :=
      @dead_of_snatches _ (server.trace start before) _ hsnatch
    rw [← server.final_concat] at hpc
    rw [← server.trace_concat] at hdead
    exact not_writesToLive hpc hdead later input count hlaw
  · intro ha before a hp conn data count' hwrite
    have hpc := write_of_sslWrite hwrite
    -- what comes before the write is part of `actions`, whose steps snatch nothing
    have hbefore : before <+: actions := by
      obtain ⟨later, hl⟩ := hp
      rcases List.eq_nil_or_concat later with rfl | ⟨later, b, rfl⟩
      · rw [List.append_nil] at hl
        exact (List.append_inj_left' hl rfl) ▸ List.prefix_refl _
      · rw [List.concat_eq_append, ← List.append_assoc] at hl
        refine (List.prefix_append before [a]).trans ?_
        exact (List.append_inj_left' hl rfl) ▸ List.prefix_append _ _
    exact holds_final (accounted_initial leftover privateMem buffer packet)
      (fun _ _ h => nomatch h) before
      (fun b c hb => ha b c (hb.trans hbefore)) conn data hpc

/-- A move of the worker of connection 1 that reads a message of these bytes, if it
reads. -/
def serve (bytes : List UInt8) : Action :=
  .worker 1 (some ⟨bytes.take bufLen, List.length_take_le ..⟩) .zeroes fun _ => 0

def okFrame : SerialInput :=
  some ⟨serialize (fun _ => 0) { TPacket.zeroes with packetType := TPacketType.response.code }.bytes,
    by rw [length_serialize]; decide⟩

/-- A response comes in while the client hangs up. -/
def hangUpInBetween : List Action :=
  [.main .zeroes fun _ => 0, .connect 1 fun _ => 0, serve [], serve [0], serve [], serve [],
    .uart okFrame 2, .uart none 2, .uart none 2, serve [], serve [], serve [], serve [], serve [],
    serve [], .uart none 2]

/-- It is written to NULL. -/
theorem write_to_null :
    ¬ WritesToLive (.initial (fun _ => 0) (fun _ => 0) (fun _ => 0) (fun _ => 0))
      (hangUpInBetween ++ [.uart none 2]) := by
  intro hlaw
  have hpc : (server.final (.initial (fun _ => 0) (fun _ => 0) (fun _ => 0) (fun _ => 0))
      hangUpInBetween).receiver.pc = .write none [0, 0] := by decide +kernel
  obtain ⟨c, hc, -⟩ := hlaw hangUpInBetween _ (List.prefix_refl _) none [0, 0] 2
    (sslWrite_of_write hpc none 2)
  exact nomatch hc

end Alex
