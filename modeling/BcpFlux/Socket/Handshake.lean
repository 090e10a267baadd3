import BcpFlux.Basic
import BcpFlux.Socket.Session

/-! # The handshake

The four messages and their handlers, `Connect` and `RetryHandshakes`, on one peer
entry.  The key exchange, the key derivation and the confirmation code are a suite
with the laws they are used under; ephemeral keys come from a generator that never
repeats itself.
-/

namespace BcpFlux.Socket
open Library Crypto

def handshakeMaxAttempts : ℕ := 8

inductive HandshakeState where
  | awaitingChallenge
  | awaitingFinish
  | established
deriving DecidableEq, Repr

/-- What both ends bind into the session key, in the order of the roles.  The fields have
fixed widths on the wire, so the record and its bytes determine each other. -/
structure Transcript where
  initiatorPk : Key
  responderPk : Key
  initiatorEph : Key
  responderEph : Key
  saltI : Key
  saltR : Key
  initiatorCaps : ℕ
  responderCaps : ℕ
  initiatorVersion : ℕ
  responderVersion : ℕ
  tag : Key
deriving DecidableEq, Repr

/-- Key exchange, derivation and confirmation code, and one generator of ephemeral secrets
for each of two sockets. -/
structure HandshakeSuite (Mac : Type) where
  publicOf : Key → Key
  sharedSecret : Key → Key → Key
  /-- From the static secret, the ephemeral secret and the transcript. -/
  deriveSessionKey : Key → Key → Transcript → Key
  computeMac : Key → Transcript → Mac
  zeroMac : Mac
  deriveId : Key → BcpId
  ephemeral : Bool → ℕ → Key
  shared_comm : ∀ a b, sharedSecret a (publicOf b) = sharedSecret b (publicOf a)
  mac_inj : ∀ k k' t t', computeMac k t = computeMac k' t' → t = t'
  ephemeral_inj : ∀ side i j,
    publicOf (ephemeral side i) = publicOf (ephemeral side j) → i = j
  ephemeral_ne : ∀ side i, publicOf (ephemeral side i) ≠ zeroKey

/-- The handshake half of a peer entry. -/
structure HsEntry (Mac : Type) where
  state : HandshakeState
  id : Option BcpId
  /-- A packet has been opened under the session key. -/
  confirmed : Bool
  attempts : ℕ
  hsSalt : Key
  hsEphSecret : Key
  hsEphPub : Key
  /-- The initiator's ephemeral, as accepted. -/
  hsPeerEph : Key
  hsConfirm : Mac
  theirPk : Key
  session : Key
deriving DecidableEq

/-- One socket, as far as the handshake with one other socket goes. -/
structure HsNode (Mac : Type) where
  side : Bool
  secretKey : Key
  publicKey : Key
  ownTag : Key
  version : ℕ
  entry : Option (HsEntry Mac)
  /-- Ephemeral secrets taken from the generator. -/
  generated : ℕ

structure HsRes where
  pk : Key
  eph : Key
  salt : Key
  version : ℕ
  caps : ℕ
deriving DecidableEq, Repr

structure HsFinish (Mac : Type) where
  pk : Key
  eph : Key
  salt : Key
  tag : Key
  version : ℕ
  caps : ℕ
  confirm : Mac
deriving DecidableEq

inductive HsMessage (Mac : Type) where
  | init
  | challenge
  | res (r : HsRes)
  | finish (f : HsFinish Mac)
deriving DecidableEq

/-- What the environment answers during one handler. -/
structure HsChoices where
  /-- The kernel pool has a slot for the message. -/
  pool : Bool
  /-- `RandomBytes` and `GenerateKeypair` succeed. -/
  random : Bool
  salt : Key
  /-- The echoed cookie verifies, and so does the code over the message it keys. -/
  cookieOk : Bool
  /-- The peer table has room. -/
  registers : Bool
  /-- The announced tag is trusted under another key. -/
  mismatch : Bool
deriving DecidableEq, Repr

/-- No capabilities in this version. -/
def capsBitmap : ℕ := 0

section Handlers
variable {Mac : Type} [DecidableEq Mac] (suite : HandshakeSuite Mac)

/-- The entry `RegisterPeer` writes. -/
def HsEntry.register (id : Option BcpId) : HsEntry Mac where
  state := .awaitingChallenge
  id := id
  confirmed := false
  attempts := 0
  hsSalt := zeroKey
  hsEphSecret := zeroKey
  hsEphPub := zeroKey
  hsPeerEph := zeroKey
  hsConfirm := suite.zeroMac
  theirPk := zeroKey
  session := zeroKey

namespace HsNode
variable (me : HsNode Mac)

/-- `Connect`: an entry that exists is enough.  The result says whether an `HS_INIT` goes
out. -/
def connect (registers : Bool) : HsNode Mac × Bool :=
  if me.entry.isNone && registers then
    ({ me with entry := some { HsEntry.register suite none with attempts := 1 } }, true)
  else (me, false)

/-- `RetryHandshakes` on an entry that is due. -/
def retry : HsNode Mac × Bool :=
  match me.entry with
  | none => (me, false)
  | some e =>
    if e.state = .established then (me, false)
    else if handshakeMaxAttempts ≤ e.attempts then ({ me with entry := none }, false)
    else
      ({ me with entry := some { e with state := .awaitingChallenge, attempts := e.attempts + 1 } },
        true)

/-- `Handshake_Respond`: a fresh pair for every attempt, taken before the entry is looked
at. -/
def respond (c : HsChoices) : HsNode Mac × Option HsRes :=
  if !c.random then (me, none)
  else
    let secret := suite.ephemeral me.side me.generated
    let me := { me with generated := me.generated + 1 }
    if !c.pool then (me, none)
    else match me.entry with
      | none => (me, none)
      | some e =>
        if e.state ≠ .awaitingChallenge then (me, none)
        else
          ({ me with entry := some { e with
              state := .awaitingFinish
              hsSalt := c.salt
              hsEphSecret := secret
              hsEphPub := suite.publicOf secret } },
            some ⟨me.publicKey, suite.publicOf secret, c.salt, me.version, capsBitmap⟩)

/-- What `Handshake_Validate` decides to do with an `HS_RES`. -/
inductive ResVerdict (Mac : Type) where
  | ignore
  /-- The id held was never proven: drop the peer, the initiator retries. -/
  | remove
  /-- The same attempt again: repeat the answer. -/
  | again (e : HsEntry Mac)
  /-- Establish, or re-key, this entry. -/
  | commit (e : HsEntry Mac)

def judgeRes (r : HsRes) (c : HsChoices) : ResVerdict Mac :=
  let id := suite.deriveId r.pk
  match me.entry with
  | none => if c.registers then .commit (HsEntry.register suite (some id)) else .ignore
  | some e =>
    if e.state = .established then
      if e.id ≠ some id then (if e.confirmed then .ignore else .remove)
      else if e.hsPeerEph = r.eph then .again e
      else if e.confirmed then .ignore
      else .commit e
    -- both sides initiated: only the exchange of the lower public key goes on
    else if !bytesLt r.pk me.publicKey then .ignore
    else .commit { e with id := some (e.id.getD id) }

/-- `DeriveSessionInto`. -/
def deriveSession (theirPk myEphSecret theirEph : Key) (t : Transcript) : Key :=
  suite.deriveSessionKey (suite.sharedSecret me.secretKey theirPk)
    (suite.sharedSecret myEphSecret theirEph) t

def responderTranscript (r : HsRes) (eph salt : Key) : Transcript where
  initiatorPk := r.pk
  responderPk := me.publicKey
  initiatorEph := r.eph
  responderEph := eph
  saltI := r.salt
  saltR := salt
  initiatorCaps := r.caps
  responderCaps := capsBitmap
  initiatorVersion := r.version
  responderVersion := me.version
  tag := me.ownTag

/-- The entry after the establish branch. -/
def committed (e : HsEntry Mac) (r : HsRes) (secret salt : Key) : HsEntry Mac :=
  let t := me.responderTranscript r (suite.publicOf secret) salt
  let session := me.deriveSession suite r.pk secret r.eph t
  { e with
    state := .established
    theirPk := r.pk
    session := session
    hsSalt := salt
    hsPeerEph := r.eph
    hsEphPub := suite.publicOf secret
    hsConfirm := suite.computeMac session t }

/-- The `HS_FINISH` an entry answers with. -/
def answer (e : HsEntry Mac) : HsFinish Mac :=
  ⟨me.publicKey, e.hsEphPub, e.hsSalt, me.ownTag, me.version, capsBitmap, e.hsConfirm⟩

/-- `Handshake_Validate`. -/
def validate (r : HsRes) (c : HsChoices) : HsNode Mac × Option (HsFinish Mac) :=
  if !c.cookieOk then (me, none)
  else match me.judgeRes suite r c with
    | .ignore => (me, none)
    | .remove => ({ me with entry := none }, none)
    | .again e => (me, if c.pool then some (me.answer e) else none)
    | .commit e =>
      if !c.random then ({ me with entry := some e }, none)
      else
        let e := me.committed suite e r (suite.ephemeral me.side me.generated) c.salt
        ({ me with entry := some e, generated := me.generated + 1 },
          if c.pool then some (me.answer e) else none)

def initiatorTranscript (e : HsEntry Mac) (f : HsFinish Mac) : Transcript where
  initiatorPk := me.publicKey
  responderPk := f.pk
  initiatorEph := e.hsEphPub
  responderEph := f.eph
  saltI := e.hsSalt
  saltR := f.salt
  initiatorCaps := capsBitmap
  responderCaps := f.caps
  initiatorVersion := me.version
  responderVersion := f.version
  tag := f.tag

def finishSession (e : HsEntry Mac) (f : HsFinish Mac) : Key :=
  me.deriveSession suite f.pk e.hsEphSecret f.eph (me.initiatorTranscript e f)

/-- An entry that waits, and the confirmation code matches. -/
def accepts (e : HsEntry Mac) (f : HsFinish Mac) : Bool :=
  decide (e.state ≠ .established) &&
    decide (suite.computeMac (me.finishSession suite e f) (me.initiatorTranscript e f) = f.confirm)

/-- `Handshake_Complete`.  An id bound before refuses a second one. -/
def complete (f : HsFinish Mac) (c : HsChoices) : HsNode Mac :=
  match me.entry with
  | none => me
  | some e =>
    if c.mismatch || !me.accepts suite e f || e.id.isSome then me
    else { me with entry := some { e with
        state := .established
        id := some (suite.deriveId f.pk)
        theirPk := f.pk
        session := me.finishSession suite e f
        hsEphSecret := zeroKey } }

/-- The first packet that opens under the session key. -/
def confirm : HsNode Mac :=
  match me.entry with
  | none => me
  | some e =>
    if e.state = .established then { me with entry := some { e with confirmed := true } } else me

/-- `ProcessInternal`: what the receiver becomes and what it sends back. -/
def handle (message : HsMessage Mac) (c : HsChoices) :
    HsNode Mac × Option (HsMessage Mac) :=
  match message with
  | .init => (me, if c.pool then some .challenge else none)
  | .challenge =>
    let r := me.respond suite c
    (r.1, r.2.map .res)
  | .res r =>
    let v := me.validate suite r c
    (v.1, v.2.map .finish)
  | .finish f => (me.complete suite f c, none)

end HsNode

end Handlers

end BcpFlux.Socket
