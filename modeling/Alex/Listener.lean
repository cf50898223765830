/-
# `Alex.Listener` — the gate in front of the server's worker

`make_tls_server.cpp` and `tls_server_lib.cpp`.  `_tls_listener` takes one connection
after the other and starts a worker on those that pass:

    connectSSL           SSL_accept, with the host name set before it;
                         SSL_get_peer_certificate
    verifyCertificate    SSL_get_verify_result

Each of the three can be passed without the others.  A peer that presents no certificate
passes the handshake, since `SSL_VERIFY_FAIL_IF_NO_PEER_CERT` is not set, and its
verification result is `X509_V_OK`; `connectSSL` turns it away.

Sessions are told apart by the number of the attempt `SSL_new` was called for.
-/
import Alex.Tls
import Mathlib.Data.List.Basic

namespace Alex

/-- OpenSSL as a server uses it. -/
structure ServerOpenSSL (σ κ : Type*) extends OpenSSL σ κ where
  setFd : σ → Int → σ
  /-- `SSL_get_peer_certificate` -/
  peerCertificate : σ → Option κ

/-- The session `SSL_accept` is called with. -/
def ServerOpenSSL.prepared {σ κ : Type*} (O : ServerOpenSSL σ κ) (ctx : Context) (fd : Int)
    (name : String) : σ :=
  (setHostVerification O.toOpenSSL (O.setFd (O.new ctx) fd) name).1

/-- What the documentation promises a server that verifies its peers. -/
structure ServerOpenSSL.Lawful {σ κ : Type*} (O : ServerOpenSSL σ κ) : Prop where
  /-- `X509_VERIFY_PARAM_set1_host` succeeds. -/
  set1Host_pos : ∀ ssl name, 0 < (O.set1Host ssl name).2
  /-- A host name set before the handshake is checked in it, like the chain, and a peer
  without a certificate passes. -/
  verifyResult_handshake : ∀ ctx fd name presented,
    ctx.verifyPeer = true → 0 < (O.set1Host (O.setFd (O.new ctx) fd) name).2 →
    0 < (O.handshake (O.prepared ctx fd name) presented).2 →
      (O.verifyResult (O.handshake (O.prepared ctx fd name) presented).1 = x509Ok ↔
        ∀ cert ∈ presented, O.chainVerifies ctx cert = true ∧ O.nameMatches cert name = true)
  /-- The peer's certificate is the one it presented. -/
  peerCertificate_handshake : ∀ ctx fd name presented,
    ctx.verifyPeer = true → 0 < (O.handshake (O.prepared ctx fd name) presented).2 →
      O.peerCertificate (O.handshake (O.prepared ctx fd name) presented).1 = presented
  /-- No chain verifies where no certificate is trusted. -/
  trusted_of_chainVerifies : ∀ ctx cert, O.chainVerifies ctx cert = true → ctx.trusted ≠ none

structure ServerSession extends Session where
  fd : Int
  peer : Option Certificate

/-- The OpenSSL of `Alex.Tls`, with the peer's certificate kept. -/
def serverOpenSSL : ServerOpenSSL ServerSession Certificate where
  new ctx := ⟨openSSL.new ctx, -1, none⟩
  set1Host ssl name :=
    ({ ssl with toSession := (openSSL.set1Host ssl.toSession name).1 },
      (openSSL.set1Host ssl.toSession name).2)
  handshake ssl presented :=
    (⟨(openSSL.handshake ssl.toSession presented).1, ssl.fd, presented⟩,
      (openSSL.handshake ssl.toSession presented).2)
  verifyResult ssl := openSSL.verifyResult ssl.toSession
  chainVerifies := openSSL.chainVerifies
  nameMatches := openSSL.nameMatches
  setFd ssl fd := { ssl with fd }
  peerCertificate ssl := ssl.peer

theorem serverOpenSSL_lawful : serverOpenSSL.Lawful where
  set1Host_pos _ _ := Int.one_pos
  verifyResult_handshake ctx fd name presented _ _ _ := by
    cases presented with
    | none => exact iff_of_true rfl fun c hc => absurd hc (Option.not_mem_none c)
    | some cert =>
        have hall : (∀ c ∈ some cert, serverOpenSSL.chainVerifies ctx c = true ∧
            serverOpenSSL.nameMatches c name = true) ↔
            ctx.trusted = some cert.issuer ∧ cert.name = name := by
          simp [serverOpenSSL, openSSL]
        rw [hall]
        by_cases htrusted : ctx.trusted = some cert.issuer
        · by_cases hname : cert.name = name
          · simp [serverOpenSSL, ServerOpenSSL.prepared, setHostVerification, openSSL, htrusted,
              hname]
          · simp [serverOpenSSL, ServerOpenSSL.prepared, setHostVerification, openSSL, htrusted,
              hname, Ne.symm hname, x509Ok]
        · simp [serverOpenSSL, ServerOpenSSL.prepared, setHostVerification, openSSL, htrusted,
            x509Ok]
  peerCertificate_handshake _ _ _ _ _ _ := rfl
  trusted_of_chainVerifies ctx cert h := by
    intro hnone
    have htrusted : ctx.trusted = some cert.issuer := of_decide_eq_true h
    exact absurd (htrusted.symm.trans hnone) (Option.some_ne_none _)

/-! ## The server -/

/-- The arguments of `createServer`, as the static variables hold them, but for the worker
function. -/
structure ServerConfig where
  keyFilename : String
  certFilename : String
  portNum : Nat
  caCertFilename : String
  clientName : String
  verifyPeer : Bool

/-- What the calls before the loop come back with. -/
structure ListenerCalls where
  socket : Int
  bind : Nat → Int
  listen : Int
  context : ContextCalls

/-- A pass of the loop: what `accept` returns, the certificate the peer presents if the
handshake takes its course, and the error if it does not. -/
structure Attempt (κ : Type*) where
  connfd : Int
  presented : Option κ
  failure : Option Nat

inductive ListenerEvent (σ : Type*) where
  | freed (attempt : Nat)
  | started (attempt : Nat) (ssl : σ)
  | exited

namespace Listener

variable {σ κ : Type*} (O : ServerOpenSSL σ κ)

/-- `SSL_accept(ssl)` -/
def accept (ssl : σ) (a : Attempt κ) : σ × Int :=
  match a.failure with
  | some error => (ssl, -error)
  | none => O.handshake ssl a.presented

/-- `connectSSL(ctx, fd, common_name)`: the session, if it is not NULL, and what happened to
it. -/
def connectSSL (ctx : Context) (fd : Int) (commonName : Option String) (n : Nat) (a : Attempt κ) :
    Option σ × List (ListenerEvent σ) :=
  let ssl := O.setFd (O.new ctx) fd
  let ssl := match commonName with
    | some name => (setHostVerification O.toOpenSSL ssl name).1
    | none => ssl
  let (ssl, result) := accept O ssl a
  if result ≤ 0 then (none, [.freed n])
  else match O.peerCertificate ssl with
    | none => (none, [.freed n])
    | some _ => (some ssl, [])

/-- The body of `while(!_exitFlag)`. -/
def serve (config : ServerConfig) (ctx : Context) (n : Nat) (a : Attempt κ) :
    List (ListenerEvent σ) :=
  let (ssl, events) :=
    if config.verifyPeer then connectSSL O ctx a.connfd (some config.clientName) n a
    else connectSSL O ctx a.connfd none n a
  match ssl with
  | none => events
  | some ssl =>
      let spawn := !config.verifyPeer || verifyCertificate O.toOpenSSL ssl
      events ++ if spawn then [.started n ssl] else []

/-- The loop, from attempt `n` on, until `_exitFlag` is set. -/
def loop (config : ServerConfig) (ctx : Context) (n : Nat) :
    List (Attempt κ) → List (ListenerEvent σ)
  | [] => []
  | a :: attempts => serve O config ctx n a ++ loop config ctx (n + 1) attempts

/-- The context the listener accepts with. -/
def context (config : ServerConfig) (calls : ListenerCalls) : Option Context := do
  let ctx ← createContext calls.context config.caCertFilename config.verifyPeer true
  configureContext calls.context ctx config.certFilename config.keyFilename

def tlsListener (config : ServerConfig) (calls : ListenerCalls) (attempts : List (Attempt κ)) :
    List (ListenerEvent σ) :=
  if calls.socket < 0 then [.exited]
  else if calls.bind config.portNum < 0 then [.exited]
  else if calls.listen < 0 then [.exited]
  else match context config calls with
    | none => [.exited]
    | some ctx => loop O config ctx 0 attempts

/-! ## Authenticated sessions -/

/-- The session of an attempt, authenticated: the handshake succeeded, and the peer
presented a certificate of the CA that bears the client's name. -/
structure Authenticated (config : ServerConfig) (ctx : Context) (a : Attempt κ) (ssl : σ) :
    Prop where
  session : ssl = (accept O (O.prepared ctx a.connfd config.clientName) a).1
  handshake : 0 < (accept O (O.prepared ctx a.connfd config.clientName) a).2
  trusted : ctx.trusted = some config.caCertFilename
  certificate : ∃ cert, a.presented = some cert ∧ O.chainVerifies ctx cert = true ∧
    O.nameMatches cert config.clientName = true

variable {O} {config : ServerConfig} {ctx : Context} {calls : ListenerCalls}

theorem context_of_verifyPeer (hv : config.verifyPeer = true)
    (h : context config calls = some ctx) :
    ctx.verifyPeer = true ∧ (ctx.trusted ≠ none → ctx.trusted = some config.caCertFilename) := by
  obtain ⟨made, hmade, hconf⟩ := Option.bind_eq_some_iff.mp h
  have hsame : ctx.verifyPeer = made.verifyPeer ∧ ctx.trusted = made.trusted := by
    rw [configureContext] at hconf
    split at hconf
    · exact nomatch hconf
    · split at hconf
      · exact nomatch hconf
      · obtain rfl := Option.some.inj hconf
        exact ⟨rfl, rfl⟩
  rw [createContext, hv] at hmade
  split at hmade
  · obtain rfl := Option.some.inj hmade
    rw [hsame.1, hsame.2]
    refine ⟨rfl, fun htrusted => ?_⟩
    dsimp only at htrusted ⊢
    split
    · rfl
    · rename_i hload
      rw [if_neg hload] at htrusted
      exact absurd rfl htrusted
  · exact nomatch hmade

theorem accept_of_pos {ssl : σ} {a : Attempt κ} (h : 0 < (accept O ssl a).2) :
    accept O ssl a = O.handshake ssl a.presented := by
  cases hf : a.failure with
  | none => rw [accept, hf]
  | some error =>
      rw [accept, hf] at h
      have hneg : (0 : Int) < -error := h
      omega

/-- `connectSSL` frees the session, or hands out one whose handshake succeeded and whose
peer has a certificate. -/
theorem connectSSL_cases (O : ServerOpenSSL σ κ) (ctx : Context) (name : String) (n : Nat)
    (a : Attempt κ) :
    let shaken := accept O (O.prepared ctx a.connfd name) a
    (connectSSL O ctx a.connfd (some name) n a = (none, [.freed n]) ∧
        (shaken.2 ≤ 0 ∨ O.peerCertificate shaken.1 = none)) ∨
      connectSSL O ctx a.connfd (some name) n a = (some shaken.1, []) ∧ 0 < shaken.2 ∧
        ∃ cert, O.peerCertificate shaken.1 = some cert := by
  intro shaken
  have hconnect : connectSSL O ctx a.connfd (some name) n a =
      if shaken.2 ≤ 0 then (none, [.freed n])
      else match O.peerCertificate shaken.1 with
        | none => (none, [.freed n])
        | some _ => (some shaken.1, []) := rfl
  rw [hconnect]
  by_cases hres : shaken.2 ≤ 0
  · exact .inl ⟨if_pos hres, .inl hres⟩
  · rw [if_neg hres]
    cases hcert : O.peerCertificate shaken.1 with
    | none => exact .inl ⟨rfl, .inr rfl⟩
    | some cert => exact .inr ⟨rfl, Int.not_le.mp hres, cert, rfl⟩

/-- **Step.**  A pass frees its session, or leaves it, or starts a worker on it, and then
the peer is authenticated. -/
theorem serve_cases (hO : O.Lawful) (hv : config.verifyPeer = true)
    (h : context config calls = some ctx) (n : Nat) (a : Attempt κ) :
    serve O config ctx n a = [.freed n] ∨ serve O config ctx n a = [] ∨
      ∃ ssl, serve O config ctx n a = [.started n ssl] ∧ Authenticated O config ctx a ssl := by
  obtain ⟨hctx, htrusted⟩ := context_of_verifyPeer hv h
  rw [serve, if_pos hv]
  rcases connectSSL_cases O ctx config.clientName n a with ⟨hc, -⟩ | ⟨hc, hpos, cert, hcert⟩
  · rw [hc]
    exact .inl rfl
  rw [hc]
  by_cases hverified : verifyCertificate O.toOpenSSL
      (accept O (O.prepared ctx a.connfd config.clientName) a).1 = true
  · have hshake := accept_of_pos hpos
    have hpos' := hpos
    rw [hshake] at hverified hcert hpos'
    have hpresented : a.presented = some cert :=
      (hO.peerCertificate_handshake _ _ _ _ hctx hpos').symm.trans hcert
    obtain ⟨hchain, hname⟩ :=
      (hO.verifyResult_handshake _ _ _ _ hctx (hO.set1Host_pos _ _) hpos').mp
        (of_decide_eq_true hverified) cert hpresented
    rw [← hshake] at hverified
    refine .inr (.inr ⟨_, ?_, rfl, hpos, htrusted (hO.trusted_of_chainVerifies _ _ hchain),
      cert, hpresented, hchain, hname⟩)
    simp only [hv, hverified, Bool.or_true, if_true, List.nil_append]
  · refine .inr (.inl ?_)
    simp only [hv, hverified, Bool.or_false, Bool.not_true, List.nil_append]
    rfl

/-- **Run.**  So it is of every attempt. -/
theorem started_loop (hO : O.Lawful) (hv : config.verifyPeer = true)
    (h : context config calls = some ctx) {attempts : List (Attempt κ)} {n m : Nat} {ssl : σ}
    {before after : List (ListenerEvent σ)}
    (hloop : loop O config ctx n attempts = before ++ .started m ssl :: after) :
    (∃ k a, m = n + k ∧ attempts[k]? = some a ∧ Authenticated O config ctx a ssl) ∧
      .freed m ∉ before := by
  induction attempts generalizing n before with
  | nil => exact absurd hloop.symm (List.append_ne_nil_of_right_ne_nil _ (List.cons_ne_nil _ _))
  | cons a attempts ih =>
      rw [loop] at hloop
      -- an event of a later attempt, after what this one left behind
      have hlater {events : List (ListenerEvent σ)}
          (hrest : loop O config ctx (n + 1) attempts = events ++ .started m ssl :: after)
          (hbefore : ∀ e ∈ before, e = .freed m → e ∈ events ∨ m = n) :
          (∃ k a', m = n + k ∧ (a :: attempts)[k]? = some a' ∧
            Authenticated O config ctx a' ssl) ∧ .freed m ∉ before := by
        obtain ⟨⟨k, a', rfl, ha', hauth⟩, hfreed⟩ := ih hrest
        refine ⟨⟨k + 1, a', by omega, ha', hauth⟩, fun hmem => ?_⟩
        rcases hbefore _ hmem rfl with he | hm
        · exact hfreed he
        · omega
      rcases serve_cases hO hv h n a with hs | hs | ⟨ssl', hs, hauth⟩
      · rw [hs] at hloop
        cases before with
        | nil => exact nomatch (List.cons.inj hloop).1
        | cons e events =>
            obtain ⟨he, hrest⟩ := List.cons.inj hloop
            refine hlater hrest fun f hf hfreed => ?_
            rcases List.mem_cons.mp hf with rfl | hf
            · injection he.trans hfreed with hn
              exact .inr hn.symm
            · exact .inl hf
      · rw [hs] at hloop
        exact hlater hloop fun f hf _ => .inl hf
      · rw [hs] at hloop
        cases before with
        | nil =>
            obtain ⟨he, -⟩ := List.cons.inj hloop
            injection he with hn hssl
            subst hn hssl
            exact ⟨⟨0, a, rfl, rfl, hauth⟩, List.not_mem_nil⟩
        | cons e events =>
            obtain ⟨he, hrest⟩ := List.cons.inj hloop
            refine hlater hrest fun f hf hfreed => ?_
            rcases List.mem_cons.mp hf with rfl | hf
            · exact nomatch he.trans hfreed
            · exact .inl hf

/-- **Authenticated clients.**  With verification requested, the listener starts a worker
only on the session of an attempt whose peer it has authenticated, and before it is freed. -/
theorem serves_authenticated (hO : O.Lawful) (hv : config.verifyPeer = true)
    (calls : ListenerCalls) (attempts : List (Attempt κ)) {n : Nat} {ssl : σ}
    {before after : List (ListenerEvent σ)}
    (h : tlsListener O config calls attempts = before ++ .started n ssl :: after) :
    (∃ ctx a, context config calls = some ctx ∧ attempts[n]? = some a ∧
      Authenticated O config ctx a ssl) ∧ .freed n ∉ before := by
  have hexit : ¬ [.exited] = before ++ .started n ssl :: after := by
    intro he
    cases before with
    | nil => exact nomatch (List.cons.inj he).1
    | cons e events =>
        exact List.append_ne_nil_of_right_ne_nil _ (List.cons_ne_nil _ _) (List.cons.inj he).2.symm
  rw [tlsListener] at h
  split at h
  · exact absurd h hexit
  split at h
  · exact absurd h hexit
  split at h
  · exact absurd h hexit
  split at h
  · exact absurd h hexit
  · rename_i ctx hctx
    obtain ⟨⟨k, a, hk, ha, hauth⟩, hfreed⟩ := started_loop hO hv hctx h
    obtain rfl : n = k := hk.trans (Nat.zero_add k)
    exact ⟨⟨ctx, a, hctx, ha, hauth⟩, hfreed⟩

theorem serve_of_authenticated (hO : O.Lawful) (hv : config.verifyPeer = true)
    (h : context config calls = some ctx) {a : Attempt κ} {ssl : σ}
    (ha : Authenticated O config ctx a ssl) (n : Nat) :
    serve O config ctx n a = [.started n ssl] := by
  obtain ⟨hctx, -⟩ := context_of_verifyPeer hv h
  obtain ⟨rfl, hpos, -, cert, hpresented, hchain, hname⟩ := ha
  have hshake := accept_of_pos hpos
  have hpos' := hpos
  rw [hshake] at hpos'
  have hpeer := hO.peerCertificate_handshake _ _ _ _ hctx hpos'
  have hresult := (hO.verifyResult_handshake _ _ _ _ hctx (hO.set1Host_pos _ _) hpos').mpr
    fun c hc => by
      obtain rfl := Option.mem_some_iff.mp (hpresented ▸ hc)
      exact ⟨hchain, hname⟩
  rw [← hshake] at hpeer hresult
  rw [serve, if_pos hv]
  rcases connectSSL_cases O ctx config.clientName n a with ⟨-, hle | hnone⟩ | ⟨hc, -⟩
  · exact absurd hpos (Int.not_lt.mpr hle)
  · exact nomatch (hpeer.trans hpresented).symm.trans hnone
  · rw [hc]
    have hverified : verifyCertificate O.toOpenSSL
        (accept O (O.prepared ctx a.connfd config.clientName) a).1 = true :=
      decide_eq_true hresult
    simp only [hverified, Bool.or_true, if_true, List.nil_append]

/-- The gate lets every client through that it should. -/
theorem serves_every_authenticated (hO : O.Lawful) (hv : config.verifyPeer = true)
    (hsocket : 0 ≤ calls.socket) (hbind : 0 ≤ calls.bind config.portNum)
    (hlisten : 0 ≤ calls.listen) (hctx : context config calls = some ctx)
    {attempts : List (Attempt κ)} {n : Nat} {a : Attempt κ} {ssl : σ}
    (hn : attempts[n]? = some a) (ha : Authenticated O config ctx a ssl) :
    .started n ssl ∈ tlsListener O config calls attempts := by
  have hloop (attempts : List (Attempt κ)) (k m : Nat) (hk : attempts[k]? = some a) :
      .started (m + k) ssl ∈ loop O config ctx m attempts := by
    induction attempts generalizing k m with
    | nil => exact nomatch hk
    | cons b attempts ih =>
        rw [loop]
        cases k with
        | zero =>
            obtain rfl : b = a := Option.some.inj hk
            apply List.mem_append_left
            rw [serve_of_authenticated hO hv hctx ha]
            exact List.mem_singleton_self _
        | succ k =>
            apply List.mem_append_right
            have hm : m + (k + 1) = m + 1 + k := by omega
            rw [hm]
            exact ih k (m + 1) hk
  have hlistener : tlsListener O config calls attempts = loop O config ctx 0 attempts := by
    rw [tlsListener, if_neg (Int.not_lt.mpr hsocket), if_neg (Int.not_lt.mpr hbind),
      if_neg (Int.not_lt.mpr hlisten), hctx]
  rw [hlistener, ← Nat.zero_add n]
  exact hloop attempts n 0 hn

end Listener

/-! ## The Pi -/

/-- `createServer` as `main` calls it. -/
def createServer : ServerConfig where
  keyFilename := "alex.key"
  certFilename := "alex.crt"
  portNum := 5000
  caCertFilename := "signing.pem"
  clientName := "laptop.cg1112.com"
  verifyPeer := true

def ListenerCalls.good : ListenerCalls where
  socket := 3
  bind _ := 0
  listen := 0
  context := ⟨true, fun _ => true, fun _ => 1, fun _ => 1⟩

/-- A peer without a certificate, one with another name, one that hangs up, and the laptop. -/
def Attempt.four : List (Attempt Certificate) :=
  [⟨4, none, none⟩, ⟨5, some ⟨"signing.pem", "eve.cg1112.com"⟩, none⟩,
    ⟨6, some ⟨"signing.pem", "laptop.cg1112.com"⟩, some 0⟩,
    ⟨7, some ⟨"signing.pem", "laptop.cg1112.com"⟩, none⟩]

theorem serves_authenticated_four :
    ∃ ssl, Listener.tlsListener serverOpenSSL createServer .good Attempt.four =
        [.freed 0, .freed 1, .freed 2] ++ [.started 3 ssl] ∧
      (∃ ctx a, Listener.context createServer .good = some ctx ∧ Attempt.four[3]? = some a ∧
        Listener.Authenticated serverOpenSSL createServer ctx a ssl) ∧
      ListenerEvent.freed 3 ∉ ([.freed 0, .freed 1, .freed 2] : List (ListenerEvent ServerSession)) :=
  ⟨_, rfl, Listener.serves_authenticated serverOpenSSL_lawful rfl .good Attempt.four rfl⟩

end Alex
