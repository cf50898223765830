/-
# `Alex.ClientLoop` — the gate in front of the client's threads

`make_tls_client.cpp`.  `_client_loop` makes a socket and a context, connects, has the
handshake and then, if it was asked to, verifies the server's certificate:

    socket  gethostbyname  create_context  configure_context  connect  connectSSL
            setHostVerification  verifyCertificate  → threads

Every call of the first line ends the program when it fails.  The gate of the second
line does not: `_closeAndExit` frees the session and, in spite of its name, does not
exit.  Nor does it look at the name: the host is set after the handshake.
-/
import Alex.Tls
import Mathlib.Data.List.Pairwise

namespace Alex

namespace Client

/-! ## The client -/

/-- The arguments of `createClient`, as the static variables hold them; of the two
functions, whether there is one. -/
structure ClientConfig where
  serverName : String
  serverPort : Nat
  verifyServer : Bool
  caCertFname : String
  serverNameOnCert : String
  sendCert : Bool
  clientCertFname : String
  clientKeyFname : String
  readerThread : Bool
  writerThread : Bool

/-- What the calls before the handshake come back with. -/
structure Outcomes where
  socket : Int
  gethostbyname : String → Option String
  context : ContextCalls
  connect : String → Nat → Int

inductive ClientThread where
  | writer | reader
  deriving DecidableEq, Repr

/-- What happens to the session, and to the program. -/
inductive ClientEvent where
  | started (thread : ClientThread)
  | freed
  | exited
  deriving DecidableEq, Repr

/-- The context `_client_loop` connects with. -/
def context (config : ClientConfig) (o : Outcomes) : Option Context := do
  let ctx ← createContext o.context config.caCertFname config.verifyServer false
  if config.sendCert then
    configureContext o.context ctx config.clientCertFname config.clientKeyFname
  else some ctx

section
variable {σ κ : Type*} (O : OpenSSL σ κ)

/-- `connectSSL(ctx, fd, hostName)`, with a server that presents `cert`.  The host name
is not used. -/
def connectSSL (ctx : Context) (_hostName : String) (cert : κ) : Option σ :=
  let (ssl, result) := O.handshake (O.new ctx) (some cert)
  if result ≠ 1 then none else some ssl

/-- `_closeAndExit(exitCode)`, as far as the session goes. -/
def closeAndExit : List ClientEvent := [.freed]

/-- `if(_verify_server)` -/
def verify (config : ClientConfig) (ssl : σ) : List ClientEvent :=
  if config.verifyServer then
    let (ssl, _) := setHostVerification O ssl config.serverNameOnCert
    if !verifyCertificate O ssl then closeAndExit else []
  else []

/-- The two `pthread_create`.  `writerDone` says that the writer thread has come to
`EXIT_THREAD(conn)` before the reader is started. -/
def startThreads (config : ClientConfig) (writerDone : Bool) : List ClientEvent :=
  (if config.writerThread then .started .writer :: if writerDone then [.freed] else [] else []) ++
    if config.readerThread then [.started .reader] else []

/-- `_client_loop`, to the end if `_exitFlag` is set. -/
def clientLoop (config : ClientConfig) (o : Outcomes) (cert : κ) (writerDone : Bool) :
    List ClientEvent :=
  if o.socket < 0 then [.exited]
  else match o.gethostbyname config.serverName with
    | none => closeAndExit ++ [.exited]
    | some hostIP =>
        match context config o with
        | none => [.exited]
        | some ctx =>
            if o.connect hostIP config.serverPort < 0 then [.exited]
            else match connectSSL O ctx hostIP cert with
              -- `connectSSL` has freed its session
              | none => [.freed, .exited]
              | some ssl => verify O config ssl ++ startThreads config writerDone ++ closeAndExit

/-! ## What a run does -/

/-- No call up to `SSL_connect` fails. -/
structure Connects (config : ClientConfig) (o : Outcomes) (cert : κ) (ctx : Context) : Prop where
  socket : 0 ≤ o.socket
  connect : ∃ hostIP, o.gethostbyname config.serverName = some hostIP ∧
    0 ≤ o.connect hostIP config.serverPort
  context : context config o = some ctx
  handshake : (O.handshake (O.new ctx) (some cert)).2 = 1

variable {O} {config : ClientConfig} {o : Outcomes} {cert : κ} {writerDone : Bool}

theorem clientLoop_of_connects {ctx : Context} (h : Connects O config o cert ctx) :
    clientLoop O config o cert writerDone =
      verify O config (O.handshake (O.new ctx) (some cert)).1 ++
        startThreads config writerDone ++ closeAndExit := by
  obtain ⟨hsocket, ⟨hostIP, hhost, hconnect⟩, hctx, hshake⟩ := h
  rw [clientLoop, if_neg (Int.not_lt.mpr hsocket), hhost, hctx]
  show (if o.connect hostIP config.serverPort < 0 then _ else _) = _
  rw [if_neg (Int.not_lt.mpr hconnect), connectSSL]
  simp only [hshake, ne_eq, not_true_eq_false, if_false]

theorem clientLoop_cases (O : OpenSSL σ κ) (config : ClientConfig) (o : Outcomes) (cert : κ)
    (writerDone : Bool) :
    (∃ ctx, Connects O config o cert ctx) ∨
      clientLoop O config o cert writerDone = [.exited] ∨
      clientLoop O config o cert writerDone = [.freed, .exited] := by
  rw [clientLoop]
  by_cases hsocket : o.socket < 0
  · rw [if_pos hsocket]
    exact .inr (.inl rfl)
  rw [if_neg hsocket]
  cases hhost : o.gethostbyname config.serverName with
  | none => exact .inr (.inr rfl)
  | some hostIP =>
      cases hctx : context config o with
      | none => exact .inr (.inl rfl)
      | some ctx =>
          by_cases hconnect : o.connect hostIP config.serverPort < 0
          · exact .inr (.inl (if_pos hconnect))
          by_cases hshake : (O.handshake (O.new ctx) (some cert)).2 = 1
          · exact .inl ⟨ctx, Int.not_lt.mp hsocket, ⟨hostIP, hhost, Int.not_lt.mp hconnect⟩,
              hctx, hshake⟩
          · have hnone : connectSSL O ctx hostIP cert = none := if_pos hshake
            refine .inr (.inr ?_)
            show (if o.connect hostIP config.serverPort < 0 then _ else _) = _
            rw [if_neg hconnect, hnone]

/-! ## Authenticated sessions -/

/-- A thread is started only on a session whose certificate comes from the CA and bears
the name, and never on one that has been freed. -/
structure StartsAuthenticated (O : OpenSSL σ κ) (config : ClientConfig) (o : Outcomes) (cert : κ)
    (events : List ClientEvent) : Prop where
  authenticated : ∀ thread, .started thread ∈ events →
    (∃ ctx ∈ context config o, O.chainVerifies ctx cert = true) ∧
      O.nameMatches cert config.serverNameOnCert = true
  alive : events.Pairwise fun e f => e = .freed → ∀ thread, f ≠ .started thread

theorem verify_of_lawful (hO : O.Lawful) (hv : config.verifyServer = true) {ctx : Context}
    (h : (O.handshake (O.new ctx) (some cert)).2 = 1) :
    verify O config (O.handshake (O.new ctx) (some cert)).1 =
      if O.chainVerifies ctx cert then [] else [.freed] := by
  have hc := verifyCertificate_setHostVerification hO h config.serverNameOnCert
  rw [verify, if_pos hv]
  show (if !verifyCertificate O
    (setHostVerification O (O.handshake (O.new ctx) (some cert)).1 config.serverNameOnCert).1
    then _ else _) = _
  rw [hc]
  cases O.chainVerifies ctx cert <;> rfl

theorem started_mem_startThreads {thread : ClientThread} :
    .started thread ∈ startThreads config writerDone ↔
      thread = .writer ∧ config.writerThread = true ∨
        thread = .reader ∧ config.readerThread = true := by
  cases thread <;> cases hw : config.writerThread <;> cases hr : config.readerThread <;>
    cases writerDone <;> simp [startThreads, hw, hr]

/-- The writer may end before the reader begins. -/
theorem alive_startThreads :
    ((startThreads config writerDone).Pairwise fun e f =>
        e = .freed → ∀ thread, f ≠ .started thread) ↔
      ¬ (config.writerThread = true ∧ config.readerThread = true ∧ writerDone = true) := by
  cases hw : config.writerThread <;> cases hr : config.readerThread <;> cases writerDone <;>
    simp [startThreads, hw, hr]

theorem startsAuthenticated_of_no_start {events : List ClientEvent}
    (h : ∀ thread, .started thread ∉ events) : StartsAuthenticated O config o cert events where
  authenticated thread hmem := absurd hmem (h thread)
  alive := List.pairwise_of_forall_mem_list fun _ _ _ hf _ thread hstarted =>
    h thread (hstarted ▸ hf)

/-- With verification requested, threads are started on authenticated sessions only if no
session is had, or no threads are given, or the server is the right one and the first
thread does not end too soon. -/
theorem starts_authenticated_iff (hO : O.Lawful) (hv : config.verifyServer = true)
    (o : Outcomes) (cert : κ) (writerDone : Bool) :
    StartsAuthenticated O config o cert (clientLoop O config o cert writerDone) ↔
      ∀ ctx, Connects O config o cert ctx →
        config.writerThread = true ∨ config.readerThread = true →
        O.chainVerifies ctx cert = true ∧ O.nameMatches cert config.serverNameOnCert = true ∧
          ¬ (config.writerThread = true ∧ config.readerThread = true ∧ writerDone = true) := by
  constructor
  · rintro ⟨hauth, halive⟩ ctx hconn hthreads
    rw [clientLoop_of_connects hconn, verify_of_lawful hO hv hconn.handshake] at hauth halive
    obtain ⟨thread, hstarted⟩ : ∃ thread, .started thread ∈ startThreads config writerDone := by
      cases hthreads with
      | inl hw => exact ⟨.writer, started_mem_startThreads.mpr (.inl ⟨rfl, hw⟩)⟩
      | inr hr => exact ⟨.reader, started_mem_startThreads.mpr (.inr ⟨rfl, hr⟩)⟩
    obtain ⟨⟨ctx', hctx', hchain⟩, hname⟩ := hauth thread
      (List.mem_append_left _ (List.mem_append_right _ hstarted))
    obtain rfl := Option.some.inj (hconn.context.symm.trans hctx')
    refine ⟨hchain, hname, alive_startThreads.mp ?_⟩
    exact (List.pairwise_append.mp (List.pairwise_append.mp halive).1).2.1
  · intro h
    obtain ⟨ctx, hconn⟩ | hloop | hloop := clientLoop_cases O config o cert writerDone
    · rw [clientLoop_of_connects hconn, verify_of_lawful hO hv hconn.handshake]
      by_cases hthreads : config.writerThread = true ∨ config.readerThread = true
      · obtain ⟨hchain, hname, hnot⟩ := h ctx hconn hthreads
        rw [if_pos hchain, List.nil_append]
        refine ⟨fun thread _ => ⟨⟨ctx, hconn.context, hchain⟩, hname⟩, ?_⟩
        refine List.pairwise_append.mpr
          ⟨alive_startThreads.mpr hnot, List.pairwise_singleton _ _, ?_⟩
        -- what comes last is no start
        intro e _ f hf _ thread hstarted
        cases (List.mem_singleton.mp hf).symm.trans hstarted
      · obtain ⟨hw, hr⟩ := not_or.mp hthreads
        have hnil : startThreads config writerDone = [] := by
          rw [startThreads, if_neg hw, if_neg hr, List.nil_append]
        rw [hnil, List.append_nil]
        refine startsAuthenticated_of_no_start fun thread => ?_
        cases O.chainVerifies ctx cert <;> exact (nomatch ·)
    · rw [hloop]
      exact startsAuthenticated_of_no_start fun _ => (nomatch ·)
    · rw [hloop]
      exact startsAuthenticated_of_no_start fun _ => (nomatch ·)

end

/-! ## The laptop -/

/-- `connectToServer(serverName, portNum)`.  It does not look at its arguments. -/
def connectToServer : ClientConfig where
  serverName := "192.168.43.124"
  serverPort := 5000
  verifyServer := true
  caCertFname := "signing.pem"
  serverNameOnCert := "alexyuzhao.epp.com"
  sendCert := true
  clientCertFname := "laptop.crt"
  clientKeyFname := "laptop.key"
  readerThread := true
  writerThread := true

def Outcomes.good : Outcomes where
  socket := 3
  gethostbyname := some
  context := ⟨true, fun _ => true, fun _ => 1, fun _ => 1⟩
  connect _ _ := 0

theorem starts_authenticated_alex :
    StartsAuthenticated openSSL connectToServer .good ⟨"signing.pem", "alexyuzhao.epp.com"⟩
      (clientLoop openSSL connectToServer .good ⟨"signing.pem", "alexyuzhao.epp.com"⟩ false) := by
  refine (starts_authenticated_iff openSSL_lawful rfl ..).mpr ?_
  intro ctx hconn _
  obtain rfl := Option.some.inj hconn.context
  exact ⟨rfl, rfl, nofun⟩

/-- Any certificate of the CA will do: the laptop talks to a server that shows the
laptop's own. -/
theorem other_name_accepted :
    openSSL.Lawful ∧ connectToServer.verifyServer = true ∧
      ¬ StartsAuthenticated openSSL connectToServer .good ⟨"signing.pem", "laptop.epp.com"⟩
        (clientLoop openSSL connectToServer .good ⟨"signing.pem", "laptop.epp.com"⟩ false) := by
  refine ⟨openSSL_lawful, rfl, ?_⟩
  intro h
  have hmem : ClientEvent.started .writer ∈
      clientLoop openSSL connectToServer .good ⟨"signing.pem", "laptop.epp.com"⟩ false := by
    decide
  have hname := (h.authenticated .writer hmem).2
  exact absurd hname (by decide)

end Client

end Alex
