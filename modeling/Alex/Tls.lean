/-
# `Alex.Tls` — OpenSSL, as the program uses it

`tls_common_lib.cpp`.  OpenSSL itself is a parameter: a session is whatever `SSL *`
points at, and the calls are what the program can see of them.  Of the rules it keeps
two matter to a client: what `SSL_get_verify_result` reports is the outcome of the
handshake, and a host name set after the handshake changes nothing in it.

`exit(-1)` in a function of the library is the result `none`.
-/
import Mathlib.Data.Option.Basic

namespace Alex

/-- What the program sets in an `SSL_CTX`. -/
structure Context where
  isServer : Bool
  verifyPeer : Bool
  verifyDepth : Option Nat
  /-- The file whose certificates are trusted, if it could be loaded. -/
  trusted : Option String
  certificate : Option String
  privateKey : Option String
  deriving DecidableEq, Repr

/-- OpenSSL, with sessions `σ` and certificates `κ`.  `handshake` is `SSL_connect` or
`SSL_accept` with a peer that presents a certificate, or none. -/
structure OpenSSL (σ κ : Type*) where
  new : Context → σ
  set1Host : σ → String → σ × Int
  handshake : σ → Option κ → σ × Int
  verifyResult : σ → Int
  chainVerifies : Context → κ → Bool
  nameMatches : κ → String → Bool

def x509Ok : Int := 0

/-- What the documentation promises about a session that has had its handshake. -/
structure OpenSSL.Lawful {σ κ : Type*} (O : OpenSSL σ κ) : Prop where
  /-- Without a host name it is the chain that is verified. -/
  verifyResult_handshake : ∀ ctx presented, (O.handshake (O.new ctx) presented).2 = 1 →
    (O.verifyResult (O.handshake (O.new ctx) presented).1 = x509Ok ↔
      ∀ cert ∈ presented, O.chainVerifies ctx cert = true)
  /-- A host name is for the next handshake. -/
  verifyResult_set1Host : ∀ ssl name, O.verifyResult (O.set1Host ssl name).1 = O.verifyResult ssl

/-- A certificate, by the file of the one who signed it and its own name. -/
structure Certificate where
  issuer : String
  name : String

structure Session where
  ctx : Context
  host : Option String
  result : Int

/-- An OpenSSL to compute with.  With `SSL_VERIFY_PEER` a handshake fails if the
verification does. -/
def openSSL : OpenSSL Session Certificate where
  new ctx := ⟨ctx, none, x509Ok⟩
  set1Host ssl name := ({ ssl with host := some name }, 1)
  handshake ssl presented :=
    let result := match presented with
      | none => x509Ok
      | some cert =>
          if ssl.ctx.trusted ≠ some cert.issuer then 20
          else if ∃ name ∈ ssl.host, name ≠ cert.name then 62 else x509Ok
    ({ ssl with result }, if ssl.ctx.verifyPeer ∧ result ≠ x509Ok then -1 else 1)
  verifyResult ssl := ssl.result
  chainVerifies ctx cert := ctx.trusted = some cert.issuer
  nameMatches cert name := cert.name = name

theorem openSSL_lawful : openSSL.Lawful where
  verifyResult_handshake ctx presented _ := by
    cases presented with
    | none => exact iff_of_true rfl nofun
    | some cert =>
        have hall : (∀ c ∈ some cert, openSSL.chainVerifies ctx c = true) ↔
            ctx.trusted = some cert.issuer := by
          simp [openSSL]
        rw [hall]
        by_cases htrusted : ctx.trusted = some cert.issuer
        · simp [openSSL, htrusted]
        · simp [openSSL, htrusted, x509Ok]
  verifyResult_set1Host _ _ := rfl

/-! ## Contexts -/

/-- What the calls that make a context come back with. -/
structure ContextCalls where
  ctxNew : Bool
  loadVerifyLocations : String → Bool
  useCertificateFile : String → Int
  usePrivateKeyFile : String → Int

/-- `create_context(CACertName, verifyPeer, isServer)`.  Whether the file of the CA
could be loaded is not looked at. -/
def createContext (calls : ContextCalls) (CACertName : String) (verifyPeer isServer : Bool) :
    Option Context :=
  if calls.ctxNew then
    some {
      isServer
      verifyPeer
      verifyDepth := if verifyPeer then some 4 else none
      trusted := if verifyPeer && calls.loadVerifyLocations CACertName then some CACertName
        else none
      certificate := none
      privateKey := none }
  else none

def configureContext (calls : ContextCalls) (ctx : Context) (certName pkeyName : String) :
    Option Context :=
  if calls.useCertificateFile certName ≤ 0 then none
  else if calls.usePrivateKeyFile pkeyName ≤ 0 then none
  else some { ctx with certificate := some certName, privateKey := some pkeyName }

/-! ## Sessions -/

section
variable {σ κ : Type*} (O : OpenSSL σ κ)

def verifyCertificate (ssl : σ) : Bool := O.verifyResult ssl = x509Ok

def setHostVerification (ssl : σ) (hostname : String) : σ × Int := O.set1Host ssl hostname

variable {O}

/-- After a handshake `setHostVerification` comes too late: only the chain counts. -/
theorem verifyCertificate_setHostVerification (hO : O.Lawful) {ctx : Context} {cert : κ}
    (h : (O.handshake (O.new ctx) (some cert)).2 = 1) (hostname : String) :
    verifyCertificate O
        (setHostVerification O (O.handshake (O.new ctx) (some cert)).1 hostname).1 =
      O.chainVerifies ctx cert := by
  have hres : O.verifyResult (O.handshake (O.new ctx) (some cert)).1 = x509Ok ↔
      O.chainVerifies ctx cert = true := by
    rw [hO.verifyResult_handshake ctx (some cert) h]
    constructor
    · intro hall
      exact hall cert rfl
    · intro hc c hmem
      obtain rfl := Option.mem_some_iff.mp hmem
      exact hc
  rw [verifyCertificate, setHostVerification, hO.verifyResult_set1Host]
  cases hc : O.chainVerifies ctx cert with
  | true => exact decide_eq_true (hres.mpr hc)
  | false => exact decide_eq_false fun hok => Bool.false_ne_true (hc.symm.trans (hres.mp hok))

end

end Alex
