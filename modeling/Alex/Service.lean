/-
# `Alex.Service` — when a connection is dropped

Every worker serves while `networkActive` is set, and every thread assigns it: a
worker after each of its reads, the UART thread after each send.  So what a worker
finds there is the result of whichever read or write came last.

* `active_final`: the flag is the last value assigned, in every interleaving;
* `Recorded`: a value assigned is the result of a read or write that took place,
  or is the one nobody has assigned;
* `dropped_only_for_own_failure`: in a run in which no worker tests the flag while
  it is clear through another connection's failure or through an uninitialised
  `count`, workers leave for failures of their own connections only;
* `not_dropped_for_own_failure`: one such test, by a worker whose connection has not
  failed, breaks the law.
-/
import Alex.Threads

namespace Alex

/-! ## The flag -/

def ServerEvent.isAssignment : ServerEvent → Bool
  | .assigned _ _ => true
  | .connected _ | .entered _ | .left _ | .sslRead _ _ | .sslWrite _ _ _ | .uartSent _
  | .freed _ => false

/-- The most recent assignment to `networkActive`. -/
def lastAssignment (events : List ServerEvent) : Option ServerEvent :=
  (events.filter ServerEvent.isAssignment).getLast?

/-- What an event does to `networkActive`. -/
def followActive (active : Bool) : ServerEvent → Bool
  | .assigned _ value => value > 0
  | .connected _ | .entered _ | .left _ | .sslRead _ _ | .sslWrite _ _ _ | .uartSent _
  | .freed _ => active

theorem active_step (s : Server) (a : Action) :
    (server.step s a).1.globals.networkActive =
      (server.step s a).2.foldl followActive s.globals.networkActive := by
  have hs := server_step_step s a
  generalize server.step s a = r at hs ⊢
  cases hs with
  | stays _ => rfl
  | starts _ _ _ => rfl
  | greets _ _ _ => rfl
  | accepts _ _ _ _ => rfl
  | worker _ _ _ _ _ r _ hstep => cases hstep <;> rfl
  | uart _ _ r hstep => cases hstep <;> rfl

/-- **Run.**  The flag is the last value assigned to it. -/
theorem active_final (s : Server) (actions : List Action) :
    (server.final s actions).globals.networkActive =
      ((lastAssignment (server.trace s actions)).map (followActive false)).getD
        s.globals.networkActive := by
  rw [server.final_follow (f := fun s => s.globals.networkActive) active_step, lastAssignment]
  refine Mealy.foldl_overwrite (fun active e he => ?_) (fun active e he => ?_) _ _
  · cases e <;> first | rfl | exact nomatch he
  · cases e <;> first | rfl | exact nomatch he

/-! ## Where the values come from -/

/-- A value from a source is the result of a read or write that took place. -/
def Backed (events : List ServerEvent) (value : Int) : Source → Prop
  | .read conn => .sslRead conn value ∈ events
  | .write conn => ∃ data, .sslWrite conn data value ∈ events
  | .main | .uninitialised => True

theorem Backed.append {events : List ServerEvent} {value : Int} {source : Source}
    (h : Backed events value source) (more : List ServerEvent) :
    Backed (events ++ more) value source := by
  cases source with
  | main => trivial
  | uninitialised => trivial
  | read conn => exact List.mem_append_left _ h
  | write conn =>
      obtain ⟨data, h⟩ := h
      exact ⟨data, List.mem_append_left _ h⟩

/-- What the history tells of the state: workers come after `networkActive = 1`, and
what is assigned, or about to be, is backed. -/
structure Recorded (s : Server) (events : List ServerEvent) : Prop where
  started : s.main ≠ .start → .assigned .main 1 ∈ events
  listening : ∀ c, s.workers c ≠ none → s.main ≠ .start
  reading : ∀ c w len, s.workers c = some w → w.pc = .assign len → .sslRead c len ∈ events
  writing : ∀ source count, s.receiver.pc = .assign source count → Backed events count source
  assigned : ∀ source value, .assigned source value ∈ events → Backed events value source

theorem recorded_initial (l p b k : Nat → UInt8) : Recorded (.initial l p b k) [] where
  started h := absurd rfl h
  listening _ h := absurd rfl h
  reading _ _ _ h := nomatch h
  writing _ _ h := nomatch h
  assigned _ _ h := absurd h List.not_mem_nil

theorem started_step {s : Server} {a : Action} (h : (server.step s a).1.main ≠ .start) :
    s.main ≠ .start ∨ .assigned .main 1 ∈ (server.step s a).2 := by
  have hs := server_step_step s a
  generalize server.step s a = r at hs h ⊢
  cases hs with
  | starts _ _ _ => exact .inr List.mem_cons_self
  | greets _ _ hm => exact .inl fun e => nomatch hm.symm.trans e
  | stays _ => exact .inl h
  | accepts _ _ _ _ => exact .inl h
  | worker _ _ _ _ _ _ _ _ => exact .inl h
  | uart _ _ _ _ => exact .inl h

theorem listening_step {s : Server} (a : Action) (h : ∀ c, s.workers c ≠ none → s.main ≠ .start)
    (c : Conn) (hc : (server.step s a).1.workers c ≠ none) :
    (server.step s a).1.main ≠ .start := by
  have hs := server_step_step s a
  generalize server.step s a = r at hs hc ⊢
  cases hs with
  | starts _ _ _ => exact fun e => nomatch e
  | greets _ _ _ => exact fun e => nomatch e
  | stays _ => exact h c hc
  | accepts _ _ hm _ => exact hm
  | worker conn w _ _ _ _ hw _ => exact h conn fun e => nomatch hw.symm.trans e
  | uart _ _ _ _ => exact h c hc

theorem recorded_step (s : Server) (h : List ServerEvent) (a : Action) (hr : Recorded s h) :
    Recorded (server.step s a).1 (h ++ (server.step s a).2) where
  started hs := by
    rcases started_step hs with hs | hs
    · exact List.mem_append_left _ (hr.started hs)
    · exact List.mem_append_right _ hs
  listening := listening_step a hr.listening
  reading c w len hw hpc := by
    rcases read_of_assign hw hpc with hread | ⟨u, hu, hpc⟩
    · exact List.mem_append_right _ hread
    · exact List.mem_append_left _ (hr.reading c u len hu hpc)
  writing source count hpc := by
    rcases write_of_assign hpc with ⟨conn, data, rfl, hwrite⟩ | rfl | hpc
    · exact ⟨data, List.mem_append_right _ hwrite⟩
    · trivial
    · exact (hr.writing source count hpc).append _
  assigned source value he := by
    rcases List.mem_append.mp he with he | he
    · exact (hr.assigned source value he).append _
    · cases server_emits he with
      | starts _ _ _ => trivial
      | takes c w _ _ _ _ hw hpc => exact List.mem_append_left _ (hr.reading c w _ hw hpc)
      | assigns _ _ _ _ hpc => exact (hr.writing _ _ hpc).append _

theorem recorded_final (l p b k : Nat → UInt8) (actions : List Action) :
    Recorded (server.final (.initial l p b k) actions)
      (server.trace (.initial l p b k) actions) :=
  server.trace_invariant recorded_step actions (recorded_initial l p b k)

/-- Where a worker is, somebody has assigned the flag, and the last one is backed. -/
theorem assigned_of_worker {l p b k : Nat → UInt8} {actions : List Action} {conn : Conn}
    (h : (server.final (.initial l p b k) actions).workers conn ≠ none) :
    ∃ source value,
      lastAssignment (server.trace (.initial l p b k) actions) = some (.assigned source value) ∧
      Backed (server.trace (.initial l p b k) actions) value source := by
  have hrec := recorded_final l p b k actions
  have hmem : ServerEvent.assigned .main 1 ∈
      (server.trace (.initial l p b k) actions).filter ServerEvent.isAssignment :=
    List.mem_filter.mpr ⟨hrec.started (hrec.listening conn h), rfl⟩
  obtain ⟨e, he⟩ : ∃ e, lastAssignment (server.trace (.initial l p b k) actions) = some e :=
    Option.isSome_iff_exists.mp (List.getLast?_isSome.mpr (List.ne_nil_of_mem hmem))
  obtain ⟨hin, hassign⟩ := List.mem_filter.mp (List.mem_of_getLast? he)
  cases e with
  | assigned source value => exact ⟨source, value, he, hrec.assigned source value hin⟩
  | connected _ => exact nomatch hassign
  | entered _ => exact nomatch hassign
  | left _ => exact nomatch hassign
  | sslRead _ _ => exact nomatch hassign
  | sslWrite _ _ _ => exact nomatch hassign
  | uartSent _ => exact nomatch hassign
  | freed _ => exact nomatch hassign

/-! ## The law -/

/-- An `sslRead` on the connection or an `sslWrite` to it returned nothing. -/
def Failed (conn : Conn) (events : List ServerEvent) : Prop :=
  (∃ len, len ≤ 0 ∧ .sslRead conn len ∈ events) ∨
    ∃ data count, count ≤ 0 ∧ .sslWrite (some conn) data count ∈ events

/-- A worker leaves its loop, or does not enter it, only after a failure of its own
connection. -/
def DroppedOnlyForOwnFailure (s : Server) (actions : List Action) : Prop :=
  ∀ before a, before ++ [a] <+: actions → ∀ conn,
    .left conn ∈ (server.step (server.final s before) a).2 → Failed conn (server.trace s before)

/-- The action is the loop test of a worker. -/
def Tests (s : Server) (a : Action) (conn : Conn) : Prop :=
  ∃ w input commandPacket comms, a = .worker conn input commandPacket comms ∧
    s.workers conn = some w ∧ w.pc = .guard

/-- The assignments a worker may find the flag clear by. -/
def Source.IsOwn (conn : Conn) (source : Source) : Prop :=
  source = .read conn ∨ source = .write (some conn)

/-- Whenever a worker tests the flag, the value assigned last is positive or comes
from the worker's own connection. -/
def TestsOwn (s : Server) (actions : List Action) : Prop :=
  ∀ before a, before ++ [a] <+: actions → ∀ conn, Tests (server.final s before) a conn →
    ∀ source value, lastAssignment (server.trace s before) = some (.assigned source value) →
      value ≤ 0 → source.IsOwn conn

/-- A worker leaves by testing the flag and finding it clear. -/
theorem tests_of_left {s : Server} {a : Action} {conn : Conn}
    (h : .left conn ∈ (server.step s a).2) :
    Tests s a conn ∧ s.globals.networkActive = false := by
  cases server_emits h with
  | leaves _ w input commandPacket comms hw hpc hg =>
      exact ⟨⟨w, input, commandPacket, comms, rfl, hw, hpc⟩, hg⟩

theorem left_of_tests {s : Server} {a : Action} {conn : Conn} (h : Tests s a conn)
    (hg : s.globals.networkActive = false) : .left conn ∈ (server.step s a).2 := by
  obtain ⟨w, input, commandPacket, comms, rfl, hw, hpc⟩ := h
  have hstep : (server.step s (.worker conn input commandPacket comms)).2 = [.left conn] := by
    simp only [server, hw, Worker.step, hpc, hg]
    rfl
  rw [hstep]
  exact List.mem_cons_self

theorem failed_of_backed {conn : Conn} {events : List ServerEvent} {source : Source} {value : Int}
    (hown : source.IsOwn conn) (hle : value ≤ 0) (hb : Backed events value source) :
    Failed conn events := by
  rcases hown with rfl | rfl
  · exact .inl ⟨value, hle, hb⟩
  · obtain ⟨data, hdata⟩ := hb
    exact .inr ⟨data, value, hle, hdata⟩

section
variable (leftover privateMem buffer packet : Nat → UInt8) (actions : List Action)

/-- **The law of service.**  In a run of the server, whatever its threads do in
whatever order, in which no worker tests `networkActive` while the value assigned
last is not positive and comes from elsewhere than its own connection, a worker
leaves for a failure of its own connection only. -/
theorem dropped_only_for_own_failure
    (h : TestsOwn (.initial leftover privateMem buffer packet) actions) :
    DroppedOnlyForOwnFailure (.initial leftover privateMem buffer packet) actions := by
  intro before a hp conn hleft
  obtain ⟨htest, hclear⟩ := tests_of_left hleft
  obtain ⟨w, -, -, -, -, hw, -⟩ := id htest
  obtain ⟨source, value, hlast, hbacked⟩ :=
    assigned_of_worker fun e => nomatch hw.symm.trans e
  rw [active_final, hlast] at hclear
  have hle : value ≤ 0 := Int.not_lt.mp (of_decide_eq_false hclear)
  exact failed_of_backed (h before a hp conn htest source value hlast hle) hle hbacked

/-- A test on which the condition fails, by a worker whose own connection has not
failed, is against the law. -/
theorem not_dropped_for_own_failure {before : List Action} {a : Action}
    (hp : before ++ [a] <+: actions) {conn : Conn} {source : Source} {value : Int}
    (htest : Tests (server.final (.initial leftover privateMem buffer packet) before) a conn)
    (hlast : lastAssignment (server.trace (.initial leftover privateMem buffer packet) before) =
      some (.assigned source value))
    (hle : value ≤ 0)
    (hfail : ¬ Failed conn (server.trace (.initial leftover privateMem buffer packet) before)) :
    ¬ DroppedOnlyForOwnFailure (.initial leftover privateMem buffer packet) actions := by
  intro hlaw
  have hclear : (server.final (.initial leftover privateMem buffer packet) before).globals.networkActive
      = false := by
    rw [active_final, hlast]
    exact decide_eq_false (Int.not_lt.mpr hle)
  exact hfail (hlaw before a hp conn (left_of_tests htest hclear))

end

/-- A move of a worker whose connection is found closed. -/
def hangUp (conn : Conn) : Action :=
  .worker conn (some ⟨[], Nat.zero_le _⟩) ⟨0, 0, fun _ => 0, fun _ => 0, fun _ => 0⟩ fun _ => 0

/-- A client connects, is served, and hangs up. -/
def oneClient : List Action :=
  [.main ⟨0, 0, fun _ => 0, fun _ => 0, fun _ => 0⟩ fun _ => 0, .connect 1 fun _ => 0,
    hangUp 1, hangUp 1, hangUp 1, hangUp 1]

/-- It is dropped when its connection has been found closed. -/
theorem one_client_served :
    (.left 1 ∈ server.trace (.initial (fun _ => 0) (fun _ => 0) (fun _ => 0) fun _ => 0) oneClient) ∧
      DroppedOnlyForOwnFailure
        (.initial (fun _ => 0) (fun _ => 0) (fun _ => 0) fun _ => 0) oneClient := by
  refine ⟨by decide, dropped_only_for_own_failure _ _ _ _ oneClient ?_⟩
  intro before a hp conn htest source value hlast hle
  have hbefore : before = oneClient.take before.length :=
    List.prefix_iff_eq_take.mp ((List.prefix_append before [a]).trans hp)
  have hlen : before.length ≤ 5 := by
    have hle : (before ++ [a]).length ≤ oneClient.length := hp.length_le
    rw [List.length_append, List.length_singleton] at hle
    exact Nat.le_of_succ_le_succ hle
  generalize before.length = k at hbefore hlen
  subst hbefore
  obtain rfl | hk := Nat.eq_or_lt_of_le hlen
  · -- the test after the read
    cases hlast
    obtain ⟨w, input, commandPacket, comms, rfl, -, -⟩ := htest
    have hmem := hp.mem (List.mem_append_right _ List.mem_cons_self)
    have hconn : conn = 1 := by
      simp [oneClient, hangUp] at hmem
      exact hmem.1
    exact .inl (hconn ▸ rfl)
  · -- until then the value is the one from `main`
    have hpos : ¬ (1 : Int) ≤ 0 := by decide
    obtain rfl | rfl | rfl | rfl | rfl : k = 0 ∨ k = 1 ∨ k = 2 ∨ k = 3 ∨ k = 4 := by omega
    · exact nomatch hlast
    · cases hlast
      exact absurd hle hpos
    · cases hlast
      exact absurd hle hpos
    · cases hlast
      exact absurd hle hpos
    · cases hlast
      exact absurd hle hpos

/-- A client connects, is served, and hangs up; another one connects. -/
def twoClients : List Action :=
  [.main ⟨0, 0, fun _ => 0, fun _ => 0, fun _ => 0⟩ fun _ => 0, .connect 1 fun _ => 0,
    hangUp 1, hangUp 1, hangUp 1, .connect 2 fun _ => 0]

/-- The second client is not served. -/
theorem second_client_dropped :
    ¬ DroppedOnlyForOwnFailure
      (.initial (fun _ => 0) (fun _ => 0) (fun _ => 0) (fun _ => 0)) (twoClients ++ [hangUp 2]) := by
  intro h
  have htrace : server.trace (.initial (fun _ => 0) (fun _ => 0) (fun _ => 0) (fun _ => 0))
      twoClients = [.assigned .main 1, .connected 1, .entered 1, .sslRead 1 0,
        .assigned (.read 1) 0, .connected 2] := rfl
  have hfailed := h twoClients (hangUp 2) (List.prefix_refl _) 2 List.mem_cons_self
  rw [htrace] at hfailed
  rcases hfailed with ⟨len, -, hm⟩ | ⟨data, count, -, hm⟩
  · simp at hm
  · simp at hm

end Alex
