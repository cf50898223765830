/-
# `Alex.Connections` — what the history tells of the connections

A worker serves its connection, and then leaves it in three steps, never to come back:

    stage   0                                          1        2        3
            guard, read, assign, handle, forward       reset    free     done
                                                  left               freed

So what has happened to a connection says where its worker is, and `tls_conn` holds no
connection that is further than stage 1 (`Accounted`).  This is so in every
interleaving.
-/
import Alex.Threads

namespace Alex

/-- How far a worker is with leaving. -/
def WorkerPc.stage : WorkerPc → Nat
  | .guard | .read | .assign _ | .handle | .forward => 0
  | .reset => 1
  | .free => 2
  | .done => 3

/-- Past the loop test. -/
def WorkerPc.isInside : WorkerPc → Bool
  | .read | .assign _ | .handle | .forward => true
  | .guard | .reset | .free | .done => false

theorem Worker.Step.stage_le {conn : Conn} {g : Globals} {w : Worker}
    {r : Globals × Worker × List ServerEvent} (h : w.Step conn g r) :
    w.pc.stage ≤ r.2.1.pc.stage := by
  cases h with
  | enters hpc _ => exact hpc ▸ Nat.le_refl 0
  | leaves hpc _ => exact hpc ▸ Nat.zero_le 1
  | reads _ _ hpc => exact hpc ▸ Nat.le_refl 0
  | assigns _ _ hpc _ => exact hpc ▸ Nat.zero_le _
  | handles hpc => exact hpc ▸ Nat.le_refl 0
  | forwards _ hpc => exact hpc ▸ Nat.le_refl 0
  | resets hpc => exact hpc ▸ Nat.le_succ 1
  | frees hpc => exact hpc ▸ Nat.le_succ 2
  | rests _ => exact Nat.le_refl _

/-- What the history tells of the workers: those past the test have entered, those that
have left are on their way out, those whose connections were freed are done, and the one
in `tls_conn` has not reset it. -/
structure Accounted (s : Server) (events : List ServerEvent) : Prop where
  inside : ∀ c w, s.workers c = some w → w.pc.isInside = true → .entered c ∈ events
  left : ∀ c, .left c ∈ events → ∃ w, s.workers c = some w ∧ 1 ≤ w.pc.stage
  freed : ∀ c, .freed c ∈ events → ∃ w, s.workers c = some w ∧ 3 ≤ w.pc.stage
  current : ∀ c, s.globals.tlsConn = some c → ∃ w, s.workers c = some w ∧ w.pc.stage ≤ 1

theorem accounted_initial (l p b k : Nat → UInt8) : Accounted (.initial l p b k) [] where
  inside _ _ h := nomatch h
  left _ h := absurd h List.not_mem_nil
  freed _ h := absurd h List.not_mem_nil
  current _ h := nomatch h

/-- Events that tell nothing new of a worker on its way out. -/
def ServerEvent.isIdle : ServerEvent → Bool
  | .left _ | .freed _ => false
  | .connected _ | .entered _ | .sslRead _ _ | .sslWrite _ _ _ | .assigned _ _
  | .uartSent _ => true

section
variable {s : Server} {h : List ServerEvent}

theorem Accounted.congr (ha : Accounted s h) {t : Server} {events : List ServerEvent}
    (ht : t.globals.tlsConn = s.globals.tlsConn) (hw : t.workers = s.workers)
    (hidle : ∀ e ∈ events, e.isIdle = true) : Accounted t (h ++ events) where
  inside c w hc hpc := by
    rw [hw] at hc
    exact List.mem_append_left _ (ha.inside c w hc hpc)
  left c hc := by
    rw [hw]
    exact ha.left c ((List.mem_append.mp hc).resolve_right fun hm => nomatch hidle _ hm)
  freed c hc := by
    rw [hw]
    exact ha.freed c ((List.mem_append.mp hc).resolve_right fun hm => nomatch hidle _ hm)
  current c hc := by
    rw [ht] at hc
    rw [hw]
    exact ha.current c hc

theorem Accounted.connect (ha : Accounted s h) {conn : Conn} (hn : s.workers conn = none)
    {v : Worker} (hpc : v.pc = .guard) :
    Accounted (s.setWorker conn v) (h ++ [.connected conn]) where
  inside c u hc hin := by
    rcases Server.workers_setWorker hc with ⟨-, rfl⟩ | hc
    · rw [hpc] at hin
      exact nomatch hin
    · exact List.mem_append_left _ (ha.inside c u hc hin)
  left c hc := by
    have hold := (List.mem_append.mp hc).resolve_right fun hm => nomatch List.mem_singleton.mp hm
    exact Server.setWorker_new (fun pc => 1 ≤ pc.stage) hn v (ha.left c hold)
  freed c hc := by
    have hold := (List.mem_append.mp hc).resolve_right fun hm => nomatch List.mem_singleton.mp hm
    exact Server.setWorker_new (fun pc => 3 ≤ pc.stage) hn v (ha.freed c hold)
  current c hc := Server.setWorker_new (fun pc => pc.stage ≤ 1) hn v (ha.current c hc)

theorem Accounted.worker (ha : Accounted s h) {conn : Conn} {w : Worker}
    (hw : s.workers conn = some w) {r : Globals × Worker × List ServerEvent}
    (hs : w.Step conn s.globals r) :
    Accounted { s.setWorker conn r.2.1 with globals := r.1 } (h ++ r.2.2) where
  inside c u hc hin := by
    rcases Server.workers_setWorker (s := s) hc with ⟨rfl, rfl⟩ | hc
    · cases hs with
      | enters _ _ => exact List.mem_append_right _ List.mem_cons_self
      | leaves _ _ => exact nomatch hin
      | reads _ _ hpc => exact List.mem_append_left _ (ha.inside c w hw (hpc ▸ rfl))
      | assigns _ _ hpc _ => exact List.mem_append_left _ (ha.inside c w hw (hpc ▸ rfl))
      | handles hpc => exact List.mem_append_left _ (ha.inside c w hw (hpc ▸ rfl))
      | forwards _ _ => exact nomatch hin
      | resets _ => exact nomatch hin
      | frees _ => exact nomatch hin
      | rests _ => exact List.mem_append_left _ (ha.inside c w hw hin)
    · exact List.mem_append_left _ (ha.inside c u hc hin)
  left c hc := by
    rcases List.mem_append.mp hc with hc | hc
    · exact Server.setWorker_keeps (fun pc => 1 ≤ pc.stage) hw
        (fun hpc => Nat.le_trans hpc hs.stage_le) (ha.left c hc)
    · cases hs with
      | leaves _ _ =>
          cases List.mem_singleton.mp hc
          exact ⟨_, s.setWorker_self conn _, Nat.le_refl 1⟩
      | enters _ _ => exact nomatch List.mem_singleton.mp hc
      | reads _ _ _ => exact nomatch List.mem_singleton.mp hc
      | assigns _ _ _ _ => exact nomatch List.mem_singleton.mp hc
      | handles _ => exact absurd hc List.not_mem_nil
      | forwards _ _ => exact nomatch List.mem_singleton.mp hc
      | resets _ => exact absurd hc List.not_mem_nil
      | frees _ => exact nomatch List.mem_singleton.mp hc
      | rests _ => exact absurd hc List.not_mem_nil
  freed c hc := by
    rcases List.mem_append.mp hc with hc | hc
    · exact Server.setWorker_keeps (fun pc => 3 ≤ pc.stage) hw
        (fun hpc => Nat.le_trans hpc hs.stage_le) (ha.freed c hc)
    · cases hs with
      | frees _ =>
          cases List.mem_singleton.mp hc
          exact ⟨_, s.setWorker_self conn _, Nat.le_refl 3⟩
      | enters _ _ => exact nomatch List.mem_singleton.mp hc
      | leaves _ _ => exact nomatch List.mem_singleton.mp hc
      | reads _ _ _ => exact nomatch List.mem_singleton.mp hc
      | assigns _ _ _ _ => exact nomatch List.mem_singleton.mp hc
      | handles _ => exact absurd hc List.not_mem_nil
      | forwards _ _ => exact nomatch List.mem_singleton.mp hc
      | resets _ => exact absurd hc List.not_mem_nil
      | rests _ => exact absurd hc List.not_mem_nil
  current c hc := by
    have hkeep (hc : s.globals.tlsConn = some c) {v : Worker}
        (hv : w.pc.stage ≤ 1 → v.pc.stage ≤ 1) :
        ∃ u, (s.setWorker conn v).workers c = some u ∧ u.pc.stage ≤ 1 :=
      Server.setWorker_keeps (fun pc => pc.stage ≤ 1) hw hv (ha.current c hc)
    cases hs with
    | enters _ _ => exact hkeep hc fun _ => Nat.zero_le 1
    | leaves _ _ => exact hkeep hc fun _ => Nat.le_refl 1
    | reads _ _ _ => exact hkeep hc fun _ => Nat.zero_le 1
    | assigns _ _ _ hto =>
        refine hkeep hc fun _ => ?_
        rcases hto with rfl | rfl
        · exact Nat.zero_le 1
        · exact Nat.zero_le 1
    | handles _ =>
        cases hc
        exact ⟨_, s.setWorker_self conn _, Nat.zero_le 1⟩
    | forwards _ _ => exact hkeep hc fun _ => Nat.zero_le 1
    | resets _ => exact nomatch hc
    | frees hpc =>
        refine hkeep hc fun hle => ?_
        rw [hpc] at hle
        exact absurd hle (Nat.not_succ_le_self 1)
    | rests _ => exact hkeep hc fun hle => hle

/-- The UART thread moves: it neither assigns `tls_conn` nor frees anything. -/
theorem Accounted.receiver (ha : Accounted s h) {r : Globals × Receiver × List ServerEvent}
    (hs : s.receiver.Step s.globals r) :
    Accounted { s with globals := r.1, receiver := r.2.1 } (h ++ r.2.2) := by
  cases hs with
  | receives _ _ _ _ => exact ha.congr rfl rfl fun e he => absurd he List.not_mem_nil
  | givesUp _ _ _ => exact ha.congr rfl rfl fun e he => absurd he List.not_mem_nil
  | goesOn _ _ _ => exact ha.congr rfl rfl fun e he => absurd he List.not_mem_nil
  | finds _ _ _ => exact ha.congr rfl rfl fun e he => absurd he List.not_mem_nil
  | skips _ _ _ _ => exact ha.congr rfl rfl fun e he => absurd he List.not_mem_nil
  | loads _ _ => exact ha.congr rfl rfl fun e he => absurd he List.not_mem_nil
  | writes _ _ _ _ => exact ha.congr rfl rfl fun e he => List.mem_singleton.mp he ▸ rfl
  | assigns _ _ _ => exact ha.congr rfl rfl fun e he => List.mem_singleton.mp he ▸ rfl

end

/-- **Step.**  Every step of every thread is accounted for. -/
theorem accounted_step (s : Server) (h : List ServerEvent) (a : Action) (ha : Accounted s h) :
    Accounted (server.step s a).1 (h ++ (server.step s a).2) := by
  have hs := server_step_step s a
  generalize server.step s a = r at hs ⊢
  cases hs with
  | stays _ => exact (List.append_nil h).symm ▸ ha
  | starts _ _ _ => exact ha.congr rfl rfl fun e he => List.mem_singleton.mp he ▸ rfl
  | greets _ _ _ => exact ha.congr rfl rfl fun e he => List.mem_singleton.mp he ▸ rfl
  | accepts _ _ _ hn => exact ha.connect hn rfl
  | worker _ _ _ _ _ _ hw hstep => exact ha.worker hw hstep
  | uart _ _ _ hstep => exact ha.receiver hstep

/-- **Run.**  So is every interleaving. -/
theorem accounted_final {start : Server} (hstart : Accounted start []) (actions : List Action) :
    Accounted (server.final start actions) (server.trace start actions) :=
  server.trace_invariant accounted_step actions hstart

end Alex
