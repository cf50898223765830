/-
# `Alex.Control` — how many clients control the robot

`networkActive` is to prevent the server from serving more than one connection, but a
worker only tests it, and it is set while another one is served.  A response is written
to `tls_conn`, which is whoever has sent a message last, command or not:

    worker 1       tls_conn = 1   forward
    worker 2                               tls_conn = 2
    UART thread                                           load   sslWrite to 2

The server serves one client at a time exactly in the runs in which whoever tests the
flag while another is inside finds it clear (`Excludes`), and answers the client whose
command was forwarded last exactly if, at every write, the client that had set
`tls_conn` last when it was loaded is that client (`SetByForwarder`).
-/
import Alex.Service
import Alex.Connections
import Alex.Response
import Mathlib.Data.List.Basic

namespace Alex

/-! ## Serving and forwarding -/

/-- The worker of a connection is inside its serving loop. -/
def Serving (events : List ServerEvent) (conn : Conn) : Prop :=
  .entered conn ∈ events ∧ .left conn ∉ events

def ServerEvent.isFrame : ServerEvent → Bool
  | .uartSent bytes => bytes ≠ []
  | .connected _ | .entered _ | .left _ | .sslRead _ _ | .sslWrite _ _ _ | .assigned _ _
  | .freed _ => false

/-- The connection whose command a step forwards, if it does. -/
def forwarder (s : Server) (a : Action) : Option Conn :=
  match a with
  | .worker conn _ _ _ => if (server.step s a).2.any ServerEvent.isFrame then some conn else none
  | .main _ _ | .connect _ _ | .uart _ _ => none

/-- The connections whose commands a run forwards, in order. -/
def forwarders : Server → List Action → List Conn := server.collect forwarder

/-- What a step assigns to `tls_conn`, if it does. -/
def tlsConnSet (s : Server) : Action → Option (Option Conn)
  | .worker conn _ _ _ =>
      match (s.workers conn).map Worker.pc with
      | some .handle => some (some conn)
      | some .reset => some none
      | some .guard | some .read | some (.assign _) | some .forward | some .free | some .done
      | none => none
  | .main _ _ | .connect _ _ | .uart _ _ => none

/-- What a run assigns to `tls_conn`, in order. -/
def tlsConnsSet : Server → List Action → List (Option Conn) := server.collect tlsConnSet

/-! ## The law -/

/-- In every state at most one worker is inside its loop. -/
def OneServed (start : Server) (actions : List Action) : Prop :=
  ∀ before, before <+: actions → ∀ c c', Serving (server.trace start before) c →
    Serving (server.trace start before) c' → c = c'

/-- A response is written to the connection whose command was forwarded last. -/
def AnswersLast (start : Server) (actions : List Action) : Prop :=
  ∀ before a, before ++ [a] <+: actions → ∀ conn data count,
    .sslWrite conn data count ∈ (server.step (server.final start before) a).2 →
    ∃ c, conn = some c ∧ (forwarders start before).getLast? = some c

/-- No client's commands come between two of another's. -/
def NotInterleaved (start : Server) (actions : List Action) : Prop :=
  ∀ c c', List.Sublist [c, c', c] (forwarders start actions) → c = c'

/-- At most one client controls the robot. -/
structure OneControls (start : Server) (actions : List Action) : Prop where
  served : OneServed start actions
  answers : AnswersLast start actions
  commands : NotInterleaved start actions

/-- Whenever a worker tests the flag while another one is inside, the value assigned to
it last is not positive. -/
def Excludes (start : Server) (actions : List Action) : Prop :=
  ∀ before a, before ++ [a] <+: actions → ∀ conn, Tests (server.final start before) a conn →
    ∀ c, Serving (server.trace start before) c → c ≠ conn → ∀ source value,
      lastAssignment (server.trace start before) = some (.assigned source value) → value ≤ 0

def Action.isUart : Action → Bool
  | .uart _ _ => true
  | .main _ _ | .connect _ _ | .worker _ _ _ _ => false

/-- Between the load of `tls_conn` and the next step of the UART thread, the write: the
worker that had set `tls_conn` last at the load is, at the write, the one that has
forwarded a command last. -/
def SetByForwarder (start : Server) (actions : List Action) : Prop :=
  ∀ earlier a between b data, earlier ++ a :: (between ++ [b]) <+: actions →
    (server.final start earlier).receiver.pc = .load data → a.isUart = true → b.isUart = true →
    (∀ d ∈ between, d.isUart = false) →
    ∃ c, (tlsConnsSet start earlier).getLast? = some (some c) ∧
      (forwarders start (earlier ++ a :: between)).getLast? = some c

/-! ## Entering and forwarding -/

theorem guard_of_entered {s : Server} {a : Action} {c : Conn}
    (h : .entered c ∈ (server.step s a).2) :
    ∃ w input commandPacket comms, a = .worker c input commandPacket comms ∧
      s.workers c = some w ∧ w.pc = .guard ∧ s.globals.networkActive = true := by
  cases server_emits h with
  | enters _ w input commandPacket comms hw hpc hg =>
      exact ⟨w, input, commandPacket, comms, rfl, hw, hpc, hg⟩

theorem entered_of_guard {s : Server} {c : Conn} {w : Worker} (hw : s.workers c = some w)
    (hpc : w.pc = .guard) (hg : s.globals.networkActive = true) (input : NetworkInput)
    (commandPacket : TPacket) (comms : Nat → UInt8) :
    (server.step s (.worker c input commandPacket comms)).2 = [.entered c] := by
  simp only [server, hw, Worker.step, hpc, hg]
  rfl

theorem forward_of_forwarder {s : Server} {a : Action} {c : Conn}
    (h : forwarder s a = some c) : ∃ w, s.workers c = some w ∧ w.pc = .forward := by
  cases a with
  | main _ _ => exact nomatch h
  | connect _ _ => exact nomatch h
  | uart _ _ => exact nomatch h
  | worker conn input commandPacket comms =>
      rw [forwarder] at h
      split at h
      · rename_i hany
        cases h
        obtain ⟨e, he, hframe⟩ := List.any_eq_true.mp hany
        cases server_emits he with
        | forwards _ w _ _ _ _ hw hpc => exact ⟨w, hw, hpc⟩
        | enters _ _ _ _ _ _ _ _ => exact nomatch hframe
        | leaves _ _ _ _ _ _ _ _ => exact nomatch hframe
        | reads _ _ _ _ _ _ _ _ => exact nomatch hframe
        | takes _ _ _ _ _ _ _ _ => exact nomatch hframe
        | frees _ _ _ _ _ _ _ => exact nomatch hframe
      · exact nomatch h

section
variable {s : Server} {h : List ServerEvent}

theorem Accounted.not_left (ha : Accounted s h) {c : Conn} {w : Worker}
    (hw : s.workers c = some w) (hstage : w.pc.stage = 0) : .left c ∉ h := by
  intro hleft
  obtain ⟨v, hv, hle⟩ := ha.left c hleft
  obtain rfl := Option.some.inj (hw.symm.trans hv)
  omega

theorem Accounted.serving (ha : Accounted s h) {a : Action} {c : Conn}
    (hf : forwarder s a = some c) : Serving h c := by
  obtain ⟨w, hw, hpc⟩ := forward_of_forwarder hf
  have hstage : w.pc.stage = 0 := by
    rw [hpc]
    rfl
  have hinside : w.pc.isInside = true := by
    rw [hpc]
    rfl
  exact ⟨ha.inside c w hw hinside, ha.not_left hw hstage⟩

end

theorem Serving.before {h events : List ServerEvent} {c : Conn} (hs : Serving (h ++ events) c) :
    Serving h c ∨ .entered c ∈ events := by
  obtain ⟨hin, hout⟩ := hs
  rcases List.mem_append.mp hin with hin | hin
  · exact .inl ⟨hin, fun hm => hout (List.mem_append_left _ hm)⟩
  · exact .inr hin

/-! ## One at a time -/

section
variable {leftover privateMem buffer packet : Nat → UInt8} {actions : List Action}

/-- Where the condition fails, a second worker enters. -/
theorem excludes_of_oneServed
    (hone : OneServed (.initial leftover privateMem buffer packet) actions) :
    Excludes (.initial leftover privateMem buffer packet) actions := by
  intro before a hp conn htest c hc hne source value hlast
  obtain ⟨w, input, commandPacket, comms, rfl, hw, hpc⟩ := htest
  by_contra hpos
  have hg : (server.final (.initial leftover privateMem buffer packet) before).globals.networkActive
      = true := by
    rw [active_final, hlast]
    exact decide_eq_true (Int.not_le.mp hpos)
  have hacc := accounted_final (accounted_initial leftover privateMem buffer packet) before
  have hevents := entered_of_guard hw hpc hg input commandPacket comms
  refine hne (hone _ hp c conn ?_ ?_)
  · rw [server.trace_concat, hevents]
    refine ⟨List.mem_append_left _ hc.1, fun hm => ?_⟩
    rcases List.mem_append.mp hm with hm | hm
    · exact hc.2 hm
    · exact nomatch List.mem_singleton.mp hm
  · rw [server.trace_concat, hevents]
    refine ⟨List.mem_append_right _ List.mem_cons_self, fun hm => ?_⟩
    rcases List.mem_append.mp hm with hm | hm
    · exact hacc.not_left hw (hpc ▸ rfl) hm
    · exact nomatch List.mem_singleton.mp hm

/-- Where it holds, a worker that enters finds no other one inside. -/
theorem Excludes.entered (hex : Excludes (.initial leftover privateMem buffer packet) actions)
    {before : List Action} {a : Action} (hp : before ++ [a] <+: actions) {c c' : Conn}
    (hc : Serving (server.trace (.initial leftover privateMem buffer packet) before) c)
    (hc' : .entered c' ∈
      (server.step (server.final (.initial leftover privateMem buffer packet) before) a).2) :
    c = c' := by
  obtain ⟨w, input, commandPacket, comms, rfl, hw, hpc, hg⟩ := guard_of_entered hc'
  by_contra hne
  obtain ⟨source, value, hlast, -⟩ := assigned_of_worker fun e => nomatch hw.symm.trans e
  have hle := hex before _ hp c' ⟨w, input, commandPacket, comms, rfl, hw, hpc⟩ c hc hne
    source value hlast
  rw [active_final, hlast] at hg
  exact absurd (of_decide_eq_true hg) (Int.not_lt.mpr hle)

/-- At most one worker is inside its loop in every state of a run, exactly if those that
test the flag while another is inside find it clear. -/
theorem oneServed_iff :
    OneServed (.initial leftover privateMem buffer packet) actions ↔
      Excludes (.initial leftover privateMem buffer packet) actions := by
  refine ⟨excludes_of_oneServed, fun hex => ?_⟩
  induction actions using List.reverseRecOn with
  | nil =>
      intro before hp c c' hc
      rw [List.prefix_nil.mp hp] at hc
      exact absurd hc.1 List.not_mem_nil
  | append_singleton actions a ih =>
      have ih := ih fun before b hp => hex before b (hp.trans (List.prefix_append _ _))
      intro before hp c c' hc hc'
      rcases List.prefix_concat_iff.mp hp with rfl | hp
      · rw [server.trace_concat] at hc hc'
        rcases hc.before with hc | hc
        · rcases hc'.before with hc' | hc'
          · exact ih actions (List.prefix_refl _) c c' hc hc'
          · exact hex.entered (List.prefix_refl _) hc hc'
        · rcases hc'.before with hc' | hc'
          · exact (hex.entered (List.prefix_refl _) hc' hc).symm
          · obtain ⟨_, _, _, _, rfl, -⟩ := guard_of_entered hc
            obtain ⟨_, _, _, _, heq, -⟩ := guard_of_entered hc'
            cases heq
            rfl
      · exact ih before hp c c' hc hc'

end

/-! ## The order of the commands -/

theorem sublist_concat {α : Type*} {l p : List α} {a d : α}
    (h : List.Sublist (p ++ [a]) (l ++ [d])) :
    List.Sublist (p ++ [a]) l ∨ a = d ∧ List.Sublist p l := by
  have hr := h.reverse
  rw [List.reverse_concat, List.reverse_concat] at hr
  cases hr with
  | cons _ hr =>
      rw [← List.reverse_concat] at hr
      exact .inl (List.reverse_sublist.mp hr)
  | cons_cons _ hr => exact .inr ⟨rfl, List.reverse_sublist.mp hr⟩

section
variable {start : Server}

theorem entered_of_forwarders (hstart : Accounted start []) {actions : List Action} {c : Conn}
    (hc : c ∈ forwarders start actions) : .entered c ∈ server.trace start actions := by
  induction actions using List.reverseRecOn with
  | nil => exact absurd hc List.not_mem_nil
  | append_singleton actions a ih =>
      rw [forwarders, server.collect_concat] at hc
      rw [server.trace_concat]
      refine List.mem_append_left _ ?_
      rcases List.mem_append.mp hc with hc | hc
      · exact ih hc
      · have hacc := accounted_final hstart actions
        exact (hacc.serving (Option.mem_toList.mp hc)).1

theorem forwarders_pair (hstart : Accounted start []) {actions : List Action}
    (hone : OneServed start actions) {c c' : Conn}
    (hsub : List.Sublist [c, c'] (forwarders start actions))
    (hleft : .left c ∉ server.trace start actions) : c = c' := by
  induction actions using List.reverseRecOn with
  | nil => exact nomatch hsub
  | append_singleton actions a ih =>
      have hone' : OneServed start actions := fun before hp =>
        hone before (hp.trans (List.prefix_append _ _))
      rw [server.trace_concat] at hleft
      have hleft' : .left c ∉ server.trace start actions :=
        fun hm => hleft (List.mem_append_left _ hm)
      rw [forwarders, server.collect_concat] at hsub
      cases hf : forwarder (server.final start actions) a with
      | none =>
          rw [hf, Option.toList_none, List.append_nil] at hsub
          exact ih hone' hsub hleft'
      | some d =>
          rw [hf, Option.toList_some] at hsub
          rcases @sublist_concat _ _ [c] _ _ hsub with hpair | ⟨rfl, hfirst⟩
          · exact ih hone' hpair hleft'
          · have hacc := accounted_final hstart actions
            have hentered := entered_of_forwarders hstart (List.singleton_sublist.mp hfirst)
            exact hone' actions (List.prefix_refl _) c c' ⟨hentered, hleft'⟩ (hacc.serving hf)

theorem notInterleaved_of_oneServed (hstart : Accounted start []) {actions : List Action}
    (hone : OneServed start actions) : NotInterleaved start actions := by
  intro c c' hsub
  induction actions using List.reverseRecOn with
  | nil => exact nomatch hsub
  | append_singleton actions a ih =>
      have hone' : OneServed start actions := fun before hp =>
        hone before (hp.trans (List.prefix_append _ _))
      rw [forwarders, server.collect_concat] at hsub
      cases hf : forwarder (server.final start actions) a with
      | none =>
          rw [hf, Option.toList_none, List.append_nil] at hsub
          exact ih hone' hsub
      | some d =>
          rw [hf, Option.toList_some] at hsub
          rcases @sublist_concat _ _ [c, c'] _ _ hsub with hall | ⟨rfl, hfirst⟩
          · exact ih hone' hall
          · have hacc := accounted_final hstart actions
            exact forwarders_pair hstart hone' hfirst (hacc.serving hf).2

end

/-! ## Where a response goes -/

theorem tlsConn_step (s : Server) (a : Action) :
    (server.step s a).1.globals.tlsConn = (tlsConnSet s a).getD s.globals.tlsConn := by
  cases a with
  | main _ _ =>
      simp only [server]
      split <;> rfl
  | connect _ _ =>
      simp only [server]
      split <;> rfl
  | uart input count =>
      have hs := s.receiver.step_step s.globals input count
      show (s.receiver.step s.globals input count).1.tlsConn = s.globals.tlsConn
      generalize s.receiver.step s.globals input count = r at hs ⊢
      cases hs <;> rfl
  | worker conn input commandPacket comms =>
      cases hw : s.workers conn with
      | none => simp only [server, tlsConnSet, hw, Option.map_none, Option.getD_none]
      | some w =>
          have hs := w.step_step conn s.globals input commandPacket comms
          simp only [server, tlsConnSet, hw, Option.map_some]
          generalize w.step conn s.globals input commandPacket comms = r at hs ⊢
          cases hs with
          | enters hpc _ => simp only [hpc, Option.getD_none]
          | leaves hpc _ => simp only [hpc, Option.getD_none]
          | reads _ _ hpc => simp only [hpc, Option.getD_none]
          | assigns _ _ hpc _ => simp only [hpc, Option.getD_none]
          | handles hpc => simp only [hpc, Option.getD_some]
          | forwards _ hpc => simp only [hpc, Option.getD_none]
          | resets hpc => simp only [hpc, Option.getD_some]
          | frees hpc => simp only [hpc, Option.getD_none]
          | rests hpc => simp only [hpc, Option.getD_none]

section
variable {start : Server}

/-- `tls_conn` is what was assigned to it last. -/
theorem tlsConn_final (hstart : start.globals.tlsConn = none) (actions : List Action) (c : Conn) :
    (server.final start actions).globals.tlsConn = some c ↔
      (tlsConnsSet start actions).getLast? = some (some c) := by
  rw [server.final_collect (g := fun s => s.globals.tlsConn) tlsConn_step start actions, hstart,
    tlsConnsSet]
  cases (server.collect tlsConnSet start actions).getLast? with
  | none => simp
  | some conn => simp

theorem receiver_final {actions : List Action} (h : ∀ a ∈ actions, a.isUart = false) :
    (server.final start actions).receiver = start.receiver := by
  induction actions using List.reverseRecOn with
  | nil => rfl
  | append_singleton actions a ih =>
      rw [server.final_concat]
      rcases receiver_step (server.final start actions) a with ⟨input, count, rfl⟩ | hr
      · exact nomatch h _ (List.mem_append_right _ List.mem_cons_self)
      · rw [hr]
        exact ih fun b hb => h b (List.mem_append_left _ hb)

theorem load_of_final_write (hstart : start.receiver.pc = .receive) {actions : List Action}
    {conn : Option Conn} {data : List UInt8}
    (hpc : (server.final start actions).receiver.pc = .write conn data) :
    ∃ earlier a between, actions = earlier ++ a :: between ∧ a.isUart = true ∧
      (∀ d ∈ between, d.isUart = false) ∧
      (server.final start earlier).receiver.pc = .load data ∧
      (server.final start earlier).globals.tlsConn = conn := by
  induction actions using List.reverseRecOn with
  | nil => exact nomatch hstart.symm.trans hpc
  | append_singleton actions a ih =>
      rw [server.final_concat] at hpc
      cases ha : a.isUart with
      | true =>
          cases a with
          | uart input count =>
              obtain ⟨hload, hconn⟩ := load_of_write hpc
              exact ⟨actions, _, [], rfl, rfl, fun d hd => absurd hd List.not_mem_nil, hload, hconn⟩
          | main _ _ => exact nomatch ha
          | connect _ _ => exact nomatch ha
          | worker _ _ _ _ => exact nomatch ha
      | false =>
          rcases receiver_step (server.final start actions) a with ⟨input, count, rfl⟩ | hr
          · exact nomatch ha
          · rw [hr] at hpc
            obtain ⟨earlier, b, between, rfl, hb, hbetween, hload, hconn⟩ := ih hpc
            refine ⟨earlier, b, between ++ [a], ?_, hb, fun d hd => ?_, hload, hconn⟩
            · rw [List.append_assoc, List.cons_append]
            · rcases List.mem_append.mp hd with hd | hd
              · exact hbetween d hd
              · rw [List.mem_singleton.mp hd]
                exact ha

theorem write_of_final_load {earlier between : List Action} {a : Action} {data : List UInt8}
    (hload : (server.final start earlier).receiver.pc = .load data) (ha : a.isUart = true)
    (hbetween : ∀ d ∈ between, d.isUart = false) :
    (server.final start (earlier ++ a :: between)).receiver.pc =
      .write (server.final start earlier).globals.tlsConn data := by
  rw [server.final_append, server.final_cons, receiver_final hbetween]
  generalize server.final start earlier = s at hload ⊢
  cases a with
  | uart input count => simp only [server, Receiver.step, hload]
  | main _ _ => exact absurd ha Bool.false_ne_true
  | connect _ _ => exact absurd ha Bool.false_ne_true
  | worker _ _ _ _ => exact absurd ha Bool.false_ne_true

/-- Responses go to the client whose command was forwarded last exactly if it has set
`tls_conn` last. -/
theorem answersLast_iff (hconn : start.globals.tlsConn = none) (hpc : start.receiver.pc = .receive)
    (actions : List Action) : AnswersLast start actions ↔ SetByForwarder start actions := by
  constructor
  · intro hlaw earlier a between b data hp hload ha hb hbetween
    have hwrite := write_of_final_load hload ha hbetween
    rw [show earlier ++ a :: (between ++ [b]) = earlier ++ a :: between ++ [b] by
      rw [List.append_assoc, List.cons_append]] at hp
    cases b with
    | uart input count =>
        obtain ⟨c, hc, hlast⟩ := hlaw _ _ hp _ data count (sslWrite_of_write hwrite input count)
        exact ⟨c, (tlsConn_final hconn earlier c).mp hc, hlast⟩
    | main _ _ => exact absurd hb Bool.false_ne_true
    | connect _ _ => exact absurd hb Bool.false_ne_true
    | worker _ _ _ _ => exact absurd hb Bool.false_ne_true
  · intro hset before a hp conn data count hwrite
    obtain ⟨earlier, b, between, rfl, hb, hbetween, hload, rfl⟩ :=
      load_of_final_write hpc (write_of_sslWrite hwrite)
    have ha : a.isUart = true := by
      cases server_emits hwrite
      rfl
    rw [List.append_assoc, List.cons_append] at hp
    obtain ⟨c, hc, hlast⟩ := hset earlier b between a data hp hload hb ha hbetween
    exact ⟨c, (tlsConn_final hconn earlier c).mpr hc, hlast⟩

end

/-- **One client in control.**  In a run of the server at most one client is served at a
time, every response goes to the one whose command was forwarded last and no two clients'
commands are mixed, exactly if whoever tests `networkActive` while another is inside finds
it clear and, at every write, the client that had set `tls_conn` last when it was loaded
is the one that has forwarded a command last. -/
theorem one_client_controls_iff (leftover privateMem buffer packet : Nat → UInt8)
    (actions : List Action) :
    let start := Server.initial leftover privateMem buffer packet
    OneControls start actions ↔ Excludes start actions ∧ SetByForwarder start actions := by
  intro start
  have hanswers := @answersLast_iff start rfl rfl actions
  constructor
  · intro h
    exact ⟨oneServed_iff.mp h.served, hanswers.mp h.answers⟩
  · rintro ⟨hex, hset⟩
    have hone : OneServed start actions := oneServed_iff.mpr hex
    exact ⟨hone, hanswers.mpr hset,
      notInterleaved_of_oneServed (accounted_initial leftover privateMem buffer packet) hone⟩

/-- A move of a worker that reads a message of these bytes, if it reads. -/
def moveOf (conn : Conn) (bytes : List UInt8) : Action :=
  .worker conn (some ⟨bytes.take bufLen, List.length_take_le ..⟩) .zeroes fun _ => 0

/-- The worker of a client enters its loop, reads the letter `g` and forwards it. -/
def oneCommand : List Action :=
  [.main .zeroes fun _ => 0, .connect 1 fun _ => 0, moveOf 1 [],
    moveOf 1 [TNetConstants.commandPacket.code, 'g'.toUInt8], moveOf 1 [], moveOf 1 [], moveOf 1 []]

theorem worker_of_entered {start : Server} {actions : List Action} {c : Conn}
    (h : .entered c ∈ server.trace start actions) :
    ∃ input commandPacket comms, .worker c input commandPacket comms ∈ actions := by
  induction actions using List.reverseRecOn with
  | nil => exact absurd h List.not_mem_nil
  | append_singleton actions a ih =>
      rw [server.trace_concat] at h
      rcases List.mem_append.mp h with h | h
      · obtain ⟨input, commandPacket, comms, hm⟩ := ih h
        exact ⟨input, commandPacket, comms, List.mem_append_left _ hm⟩
      · obtain ⟨_, input, commandPacket, comms, rfl, -⟩ := guard_of_entered h
        exact ⟨input, commandPacket, comms, List.mem_append_right _ List.mem_cons_self⟩

def Response.read (r : Response) : SerialInput :=
  some ⟨r.frame, by
    rw [r.length_frame]
    decide⟩

theorem uartReceiveThread_read {uart : Uart} (hb : uart.assembler.Between)
    (hp : uart.assembler.pending = []) (r : Response) :
    (uartReceiveThread.step uart r.read).2 = some .packetOk ∧
      TPacket.ofMemory (uartReceiveThread.step uart r.read).1.packet.get = r.2 := by
  have hbytes : uart.assembler.pending ++ (r.read.bytes ++ []) = [r].flatMap Response.frame := by
    rw [hp, List.append_nil, List.nil_append, List.flatMap_singleton]
    rfl
  have hlen : r.read.bytes.length ≤ packetSize := Nat.le_of_eq r.length_frame
  obtain ⟨hb', ⟨-, hrest⟩ | ⟨_, _, hr, hok, hpacket, -⟩⟩ :=
    uartReceiveThread_frames hb hlen hbytes
  · -- a frame does not fit into what is pending
    have hshort := hb'.length_pending
    rw [List.append_nil, List.flatMap_singleton] at hrest
    rw [hrest, r.length_frame] at hshort
    exact absurd hshort (Nat.lt_irrefl _)
  · cases hr
    exact ⟨hok, hpacket⟩

theorem sslWrite_of_read {s : Server} {conn : Conn} (hg : s.globals = ⟨true, some conn⟩)
    (hpc : s.receiver.pc = .receive) (hb : s.receiver.uart.assembler.Between)
    (hp : s.receiver.uart.assembler.pending = []) {r : Response} {data : List UInt8}
    (hdata : handleUARTPacket r.2 = some data) (count : Int) :
    .sslWrite (some conn) data count ∈
      server.trace s (List.replicate 6 (.uart r.read count)) := by
  obtain ⟨hok, hpacket⟩ := uartReceiveThread_read hb hp r
  have hstep : server.step s (.uart r.read count) =
      ({ s with receiver := ⟨.testActive data, (uartReceiveThread.step s.receiver.uart r.read).1⟩ },
        []) := by
    simp only [server, Receiver.step, hpc, hok, hpacket, hdata, if_true]
  rw [List.replicate_succ, server.trace_cons, hstep]
  refine List.mem_append_right _ ?_
  obtain ⟨globals, main, workers, receiver⟩ := s
  obtain rfl : globals = ⟨true, some conn⟩ := hg
  exact List.mem_cons_self

def Response.ok : Response :=
  (LoopInput.silent.first, { TPacket.zeroes with packetType := TPacketType.response.code })

/-- The UART thread receives it and passes it on. -/
def oneResponse : List Action := List.replicate 6 (.uart Response.ok.read 2)

theorem isUart_oneResponse {a : Action} (h : a ∈ oneResponse) : a.isUart = true := by
  rw [List.eq_of_mem_replicate h]
  rfl

theorem isUart_oneCommand : ∀ a ∈ oneCommand, a.isUart = false := by
  simp [oneCommand, moveOf, Action.isUart]

theorem worker_oneCommand {conn : Conn} {input : NetworkInput} {commandPacket : TPacket}
    {comms : Nat → UInt8} (h : .worker conn input commandPacket comms ∈ oneCommand ++ oneResponse) :
    conn = 1 := by
  rcases List.mem_append.mp h with h | h
  · simp only [oneCommand, moveOf, List.mem_cons, Action.worker.injEq, reduceCtorEq, false_or,
      List.not_mem_nil, or_false] at h
    rcases h with h | h | h | h | h <;> exact h.1
  · exact nomatch isUart_oneResponse h

theorem collect_uarts {α : Type*} {f : Server → Action → Option α}
    (hf : ∀ s input count, f s (.uart input count) = none) {start : Server} {actions : List Action}
    (h : ∀ a ∈ actions, a.isUart = true) : server.collect f start actions = [] := by
  refine server.collect_of_none (fun a ha s => ?_) start
  cases a with
  | uart input count => exact hf s input count
  | main _ _ => exact nomatch h _ ha
  | connect _ _ => exact nomatch h _ ha
  | worker _ _ _ _ => exact nomatch h _ ha

/-- The command is answered, and the client that has sent it is in control. -/
theorem one_client_controls_response :
    let start := Server.initial (fun _ => 0) (fun _ => 0) (fun _ => 0) fun _ => 0
    .sslWrite (some 1) [TNetConstants.errorPacket.code, TResponseType.ok.code] 2 ∈
        server.trace start (oneCommand ++ oneResponse) ∧
      OneControls start (oneCommand ++ oneResponse) := by
  intro start
  refine ⟨?_, (one_client_controls_iff _ _ _ _ _).mpr ⟨?_, ?_⟩⟩
  · rw [server.trace_append]
    refine List.mem_append_right _ ?_
    exact sslWrite_of_read (s := server.final start oneCommand) rfl rfl
      (Assembler.between_initial _ _) rfl rfl 2
  · intro before a hp conn htest c hc hne
    have hsub : ∀ d ∈ before ++ [a], d ∈ oneCommand ++ oneResponse := fun d hd => hp.subset hd
    obtain ⟨_, _, _, hm⟩ := worker_of_entered hc.1
    obtain ⟨_, _, _, _, rfl, -⟩ := htest
    rw [worker_oneCommand (hsub _ (List.mem_append_left _ hm)),
      worker_oneCommand (hsub _ (List.mem_append_right _ List.mem_cons_self))] at hne
    exact absurd rfl hne
  · intro earlier a between b data hp hload ha hb hbetween
    rcases List.prefix_or_prefix_of_prefix ((List.prefix_append _ _).trans hp)
      (List.prefix_append oneCommand oneResponse) with hbefore | ⟨passes, rfl⟩
    · have hpc : (server.final start earlier).receiver.pc = .receive := by
        rw [receiver_final fun d hd => isUart_oneCommand d (hbefore.subset hd)]
        rfl
      exact nomatch hpc.symm.trans hload
    · rw [List.append_assoc, List.prefix_append_right_inj] at hp
      have huart (d : Action) (hd : d ∈ passes ++ a :: between) : d.isUart = true := by
        refine isUart_oneResponse (hp.subset ?_)
        rw [← List.cons_append, ← List.append_assoc]
        exact List.mem_append_left _ hd
      refine ⟨1, ?_, ?_⟩
      · rw [tlsConnsSet, server.collect_append, collect_uarts (fun _ _ _ => rfl) fun d hd =>
          huart d (List.mem_append_left _ hd)]
        rfl
      · rw [List.append_assoc, forwarders, server.collect_append,
          collect_uarts (fun _ _ _ => rfl) huart, List.append_nil]
        rfl

/-- Two clients connect before either is served. -/
def bothAtOnce : List Action :=
  [.main .zeroes fun _ => 0, .connect 1 fun _ => 0, .connect 2 fun _ => 0, moveOf 1 [],
    moveOf 2 []]

/-- Both are served. -/
theorem two_clients_control :
    ¬ OneControls (.initial (fun _ => 0) (fun _ => 0) (fun _ => 0) (fun _ => 0)) bothAtOnce := by
  intro h
  have htrace : server.trace (.initial (fun _ => 0) (fun _ => 0) (fun _ => 0) (fun _ => 0))
      bothAtOnce = [.assigned .main 1, .connected 1, .connected 2, .entered 1, .entered 2] := rfl
  have hserved := h.served bothAtOnce (List.prefix_refl _) 1 2
  rw [htrace] at hserved
  have heq : (1 : Conn) = 2 := hserved ⟨by decide, by decide⟩ ⟨by decide, by decide⟩
  exact absurd heq (by decide)

end Alex
