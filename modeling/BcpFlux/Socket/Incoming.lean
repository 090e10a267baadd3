import BcpFlux.Flow.Directory
import BcpFlux.Socket.Handshake
import BcpFlux.Socket.Verify
import BcpFlux.Wire.Batch

/-! # The receive path

One turn of the loop in `ReceiveIntoPool`: handshake traffic, the gate of
`PreProcessIn`, migration, and the hand-over to the flow machinery.  Peers live in slots
that an address index points into, and each slot has its directory of receiving
associations.
-/

namespace BcpFlux.Socket
open Library Wire Crypto Function

def secureChannelPathResp : UInt8 := 2

def pathChallengeSize : ℕ := 16

def tagCandidates : ℕ := 4

structure RecvPeer (Mac : Type) where
  addr : Address
  hs : HsEntry Mac
  window : ReplayWindow
  lastSeenAt : ℕ
  theirTagStep : ℕ
  /-- The address under validation. -/
  pathAddr : Option Address
  pathChallenge : List UInt8
  pathStep : ℕ

structure RecvSocket (Mac : Type) where
  side : Bool
  secretKey : Key
  publicKey : Key
  ownTag : Key
  version : ℕ
  generated : ℕ
  receiveEnabled : Bool
  acceptUnsecureFromUnknown : Bool
  migration : Bool
  limits : Flow.ReceiveLimits
  seenGrainStamp : ℕ
  /-- Trial opens left in this pass. -/
  migrateBudget : ℕ
  slotOf : Address → Option ℕ
  peer : ℕ → RecvPeer Mac
  inDir : ℕ → List Flow.InDirEntry

structure RecvSuite (Mac : Type) where
  cipher : CipherSuite
  handshake : HandshakeSuite Mac
  readMac : List UInt8 → Mac

structure RecvChoices where
  /-- The receive slot the datagram landed in. -/
  slot : ℕ
  stamp : ℕ
  flow : Flow.FlowInEnv
  /-- The ready lane takes a packet without a flow. -/
  queue : Bool
  hs : HsChoices
  /-- The slot a new peer is registered in. -/
  peerSlot : ℕ
  /-- The peers the tag on the wire names. -/
  candidates : List ℕ
  /-- The peers the tag inside a path response names. -/
  holders : List ℕ
  /-- `RandomBytes` for a path challenge. -/
  challenge : Option (List UInt8)

inductive RecvOut (Mac : Type) where
  | flowData (r : Flow.Ready)
  | app (d : Datagram)
  /-- An authenticated control message, for its handler. -/
  | control (channel : UInt8) (payload : List UInt8)
  | reject (flowId : ℕ) (flowEpoch : UInt8)
  | handshake (m : HsMessage Mac)
  | pathChallenge (challenge : List UInt8)

/-- What opening a packet reads of a peer; the sub-keys are those `CommitSession` derived. -/
def RecvPeer.session {Mac : Type} (suite : CipherSuite) (publicKey : Key) (p : RecvPeer Mac) :
    SessionPeer :=
  { commitSession suite publicKey p.hs.theirPk p.hs.session with
    established := decide (p.hs.state = .established) }

/-! ## Handshake messages on the wire -/

/-- The bytes a `PacketSlotReader` starts with. -/
def readMessage (d : Datagram) : Option (List UInt8) :=
  if d.length < d.contentOffset then none
  else if d.isBatch then
    if batchValidate d.content then (batchNext d.content 0).map Prod.fst else none
  else some d.content

def parseRes (bytes : List UInt8) : Option HsRes :=
  if bytes.length < 94 then none
  else some ⟨(bytes.drop 8).take 32, (bytes.drop 40).take 32, (bytes.drop 72).take 16,
    ofLeBytes ((bytes.drop 88).take 2), ofLeBytes ((bytes.drop 90).take 4)⟩

def parseFinish {Mac : Type} (readMac : List UInt8 → Mac) (bytes : List UInt8) :
    Option (HsFinish Mac) :=
  if bytes.length < 134 then none
  else some ⟨bytes.take 32, (bytes.drop 32).take 32, (bytes.drop 64).take 16,
    (bytes.drop 80).take 32, ofLeBytes ((bytes.drop 112).take 2),
    ofLeBytes ((bytes.drop 114).take 4), readMac ((bytes.drop 118).take 16)⟩

def parseInternal {Mac : Type} (readMac : List UInt8 → Mac) (d : Datagram) :
    Option (HsMessage Mac) :=
  match readMessage d with
  | none | some [] => none
  | some (opcode :: rest) =>
    if opcode = 0 then some .init
    else if opcode = 1 then (if rest.length < 8 then none else some .challenge)
    else if opcode = 2 then (parseRes rest).map .res
    else if opcode = 3 then (parseFinish readMac rest).map .finish
    else none

namespace RecvSocket
variable {Mac : Type} [DecidableEq Mac] (suite : RecvSuite Mac) (s : RecvSocket Mac)

def setPeer (i : ℕ) (p : RecvPeer Mac) : RecvSocket Mac :=
  { s with peer := update s.peer i p }

/-! ## Handshake traffic -/

/-- The socket as the handshake with one address sees it. -/
def nodeAt (src : Address) : HsNode Mac :=
  ⟨s.side, s.secretKey, s.publicKey, s.ownTag, s.version, (s.slotOf src).map fun i => (s.peer i).hs,
    s.generated⟩

/-- The entry after a handler: a session just committed resets the replay window and the
tag step. -/
def rewriteEntry (p : RecvPeer Mac) (e : HsEntry Mac) : RecvPeer Mac :=
  let p' := { p with hs := e }
  if e.state = .established ∧ (p.hs.state ≠ .established ∨ e.hsPeerEph ≠ p.hs.hsPeerEph) then
    { p' with window := p.window.reset, theirTagStep := 0 }
  else p'

/-- `RemovePeer` with the sweep of the receiving half. -/
def removePeer (src : Address) (i : ℕ) : RecvSocket Mac :=
  { s with
    slotOf := update s.slotOf src none
    inDir := if s.receiveEnabled then update s.inDir i [] else s.inDir }

def registerPeer (src : Address) (i : ℕ) (e : HsEntry Mac) (stamp : ℕ) : RecvSocket Mac :=
  { s with
    slotOf := update s.slotOf src (some i)
    peer := update s.peer i
      ⟨src, e, (s.peer i).window.reset, stamp, 0, none, List.replicate pathChallengeSize 0, 0⟩ }

/-- Write back what a handshake handler made of the entry. -/
def putNode (src : Address) (node : HsNode Mac) (c : RecvChoices) : RecvSocket Mac :=
  let s := { s with generated := node.generated }
  match s.slotOf src, node.entry with
  | none, none => s
  | none, some e => s.registerPeer src c.peerSlot e c.stamp
  | some i, none => s.removePeer src i
  | some i, some e => s.setPeer i (rewriteEntry (s.peer i) e)

/-- `ProcessInternal`. -/
def processInternal (src : Address) (d : Datagram) (c : RecvChoices) :
    RecvSocket Mac × List (RecvOut Mac) :=
  match parseInternal suite.readMac d with
  | none => (s, [])
  | some m =>
    let r := (s.nodeAt src).handle suite.handshake m c.hs
    (s.putNode src r.1 c, (r.2.map RecvOut.handshake).toList)

/-! ## Migration -/

/-- `UpdateAddress`: a move never displaces a peer that holds the address. -/
def updateAddress (i : ℕ) (dest : Address) : RecvSocket Mac :=
  let old := (s.peer i).addr
  if s.slotOf old ≠ some i then s
  else if dest = old then s
  else if (s.slotOf dest).isSome then s
  else { s with
    slotOf := update (update s.slotOf old none) dest (some i)
    peer := update s.peer i { s.peer i with addr := dest } }

/-- `PathChallenge_Complete`: the echo has to match the round it answers. -/
def pathChallengeComplete (src : Address) (payload : List UInt8) (c : RecvChoices) :
    RecvSocket Mac :=
  if payload.length < wirePeerTagSize + pathChallengeSize then s
  else
    let echo := (payload.drop wirePeerTagSize).take pathChallengeSize
    match (c.holders.take tagCandidates).find? fun i =>
        decide ((s.peer i).hs.state = .established) && decide ((s.peer i).pathAddr = some src) &&
          decide ((s.peer i).pathChallenge = echo) with
    | none => s
    | some i =>
      let p := s.peer i
      (s.setPeer i { p with pathAddr := none, theirTagStep := p.pathStep }).updateAddress i src

/-- The first candidate whose session opens the packet, with the counter it carries. -/
def openCandidate (d : Datagram) : List ℕ → Option (ℕ × ℕ × Datagram)
  | [] => none
  | i :: is =>
    let peer := (s.peer i).session suite.cipher s.publicKey
    if !peer.established then openCandidate d is
    else match openSecurePacket suite.cipher d peer.session peer.headerKey
        (laneFrom s.publicKey peer.theirPk) with
      | none => openCandidate d is
      | some (counter, opened) => some (i, counter, opened)

/-- The step of the tag window a mover presented. -/
def presentedStep (p : RecvPeer Mac) (wireTag : List UInt8) : ℕ :=
  let lane := laneFrom s.publicKey p.hs.theirPk
  match [0, 1, 2].find? fun step =>
      decide ((derivePeerTag suite.cipher p.hs.session lane (p.theirTagStep + step)).bytes =
        wireTag) with
  | none => p.theirTagStep
  | some step => p.theirTagStep + step

/-- Start a validation round for a new address, or keep the one under way. -/
def armPath (p : RecvPeer Mac) (src : Address) (wireTag : List UInt8) (c : RecvChoices) :
    RecvPeer Mac :=
  if p.pathAddr = some src then p
  else match c.challenge with
    | none => p
    | some challenge => { p with
        pathChallenge := challenge
        pathAddr := some src
        pathStep := s.presentedStep suite p wireTag }

/-- `TryMigrate`: the packet is handed on only if it is application data that opened. -/
def tryMigrate (src : Address) (d : Datagram) (c : RecvChoices) :
    RecvSocket Mac × Option Datagram × List (RecvOut Mac) :=
  if s.migrateBudget = 0 then (s, none, [])
  else
    let s := { s with migrateBudget := s.migrateBudget - 1 }
    match s.openCandidate suite d (c.candidates.take tagCandidates) with
    | none => (s, none, [])
    | some (i, counter, opened) =>
      match (s.peer i).window.accept counter with
      | none => (s, none, [])
      | some window =>
        let p := { s.peer i with window := window }
        if opened.secureChannel = secureChannelPathResp then
          let payload := (opened.drop (opened.headSize + wireSecureChannelSize)).take 64
          ((s.setPeer i p).pathChallengeComplete src payload c, none, [])
        else
          let p := s.armPath suite p src ((d.drop wireSecureHeadSize).take wirePeerTagSize) c
          (s.setPeer i p,
            if opened.secureChannel = secureChannelApp then some opened else none,
            if p.pathAddr = some src then [.pathChallenge p.pathChallenge] else [])

/-! ## The gate -/

/-- The liveness stamp, written on its grain only. -/
def stampSeen (p : RecvPeer Mac) (stamp : ℕ) : RecvPeer Mac :=
  if s.seenGrainStamp ≤ u32 (stamp + 2 ^ 32 - p.lastSeenAt) then { p with lastSeenAt := stamp }
  else p

/-- `PreProcessIn`: a packet without protection passes as it is, a secure one is opened in
place. -/
def preProcessIn (src : Address) (d : Datagram) (c : RecvChoices) :
    RecvSocket Mac × Option Datagram × List (RecvOut Mac) :=
  if !d.isSecure then
    if s.acceptUnsecureFromUnknown then (s, some d, [])
    else match s.slotOf src with
      | none => (s, none, [])
      | some i => (s.setPeer i (s.stampSeen (s.peer i) c.stamp), some d, [])
  else if d.length < secureHeaderSize d then (s, none, [])
  else match s.slotOf src with
    | none => if s.migration && d.isTagged then s.tryMigrate suite src d c else (s, none, [])
    | some i =>
      let p := s.peer i
      match verify suite.cipher s.publicKey (p.session suite.cipher s.publicKey) p.window d with
      | none => (s, none, [])
      | some (opened, window) =>
        let p := { p with window := window, hs := { p.hs with confirmed := true } }
        (s.setPeer i (s.stampSeen p c.stamp), some opened, [])

/-! ## Flow packets -/

/-- `ProcessFlowIn`. -/
def processFlowIn (src : Address) (d : Datagram) (c : RecvChoices) :
    RecvSocket Mac × List (RecvOut Mac) :=
  if !s.receiveEnabled then (s, [])
  else if d.flowId = Flow.invalidFlowId ∨ d.flowSeq = 0 then (s, [])
  else if d.isBatch && !batchValidate d.content then (s, [])
  else match s.slotOf src with
    | none => (s, [])
    | some i =>
      let e := (s.peer i).hs
      if e.state ≠ .established then (s, [])
      else
        let r := Flow.flowIn s.limits c.flow (s.inDir i) ⟨i, src, e.id.getD ⟨[]⟩⟩ d.flowId
          d.flowData d.flowSeq c.slot
        ({ s with inDir := update s.inDir i r.1 },
          (if r.2.1 = .rejected then [.reject d.flowId (Flow.flowDataEpoch d.flowData)] else []) ++
            r.2.2.map .flowData)

/-- `ProcessSecureControl`, up to the handler of the channel. -/
def processSecureControl (p : Datagram) : List (RecvOut Mac) :=
  if p.length < p.contentOffset then []
  else [.control p.secureChannel (p.drop p.contentOffset)]

/-- One datagram in `ReceiveIntoPool`. -/
def receive (src : Address) (d : Datagram) (c : RecvChoices) :
    RecvSocket Mac × List (RecvOut Mac) :=
  if d.isInternal then
    if d.isSecure then (s, []) else s.processInternal suite src d c
  else
    let r := s.preProcessIn suite src d c
    match r.2.1 with
    | none => (r.1, r.2.2)
    | some p =>
      if p.secureChannel ≠ secureChannelApp then
        (r.1, r.2.2 ++ processSecureControl p)
      else if p.hasFlow then
        let f := r.1.processFlowIn src p c
        (f.1, r.2.2 ++ f.2)
      else (r.1, r.2.2 ++ if c.queue then [.app p] else [])

end RecvSocket

end BcpFlux.Socket
