import Valhalla.Continuity.Request

/-!
# Continuity replies (`reply.rs`) and their proofs (`continuity.rs`)

A reply is checked against the request that it answers, when it is encoded and when it is decoded.
-/

namespace Valhalla.Continuity
open Fallible FixedWidth Check
open RoomActivity (EventId VerifiedEvent zeroBytes maxEventBytes)

def maxReplyBytes : Nat := 256 + 32 * (1 + 8 + 32 + 2 + maxEventBytes)
def maxProofBytes : Nat := 5 + 32 + 2 + maxRequestBytes + 32 + 64
/-- `VHCR` and `VHCP`, version 1. -/
def replyMagic : List UInt8 := [0x56, 0x48, 0x43, 0x52, 1]
def proofMagic : List UInt8 := [0x56, 0x48, 0x43, 0x50, 1]
def proofDomain : List UInt8 := "vhalla/public-continuity-response/v1".toUTF8.toList ++ [0]

inductive EvidenceRole
  | historicalContinuity | currentAdmission
deriving DecidableEq, Repr

/-- Acknowledges one page of a stage. -/
structure StageAck where
  observed : Observed
  base : Position
  ticket : StageRef
  submittedEnd : Position
  submittedBody : Bytes32
deriving DecidableEq

/-- One locally admitted terminal. -/
structure TerminalReceipt (crypto : Crypto) where
  observed : Observed
  event : VerifiedEvent crypto
  cursor : UInt64
  registry : Bytes32
  reconciled : Bool
deriving DecidableEq

structure Status where
  observed : Observed
  published : Position
  stage : Option StageRef
deriving DecidableEq

structure Entry (crypto : Crypto) where
  role : EvidenceRole
  committedBy : UInt64
  registry : Bytes32
  event : VerifiedEvent crypto
deriving DecidableEq

structure FeedPage (crypto : Crypto) where
  observed : Observed
  tip : UInt64
  entries : List (Entry crypto)
deriving DecidableEq

structure EvidencePage (crypto : Crypto) where
  observed : Observed
  tip : Position
  entries : List (Entry crypto)
deriving DecidableEq

inductive Reply (crypto : Crypto)
  | staged (ack : StageAck)
  | committed (receipt : TerminalReceipt crypto)
  | status (status : Status)
  | feed (page : FeedPage crypto)
  | evidence (page : EvidencePage crypto)
deriving DecidableEq

variable {crypto : Crypto}

/-! ### The checks -/

def Observed.covers (observed : Observed) (request : Request crypto) : Except Error Unit := do
  observed.check
  let floor := request.context.floor
  require .request !(decide (observed.height < floor.height) || (observed.height == floor.height && observed.frontier != floor.frontier))

def pageLen (after tip : UInt64) (count : UInt8) (len : Nat) : Except Error Unit :=
  require .bounds (decide (after ≤ tip) && decide (len ≤ count.toNat) &&
    ((checkedAdd after (UInt64.ofNat len)).any fun n => decide (n ≤ tip)) && !(len == 0 && decide (after < tip)))

def Entry.check (entry : Entry crypto) (scope : Scope) (author : Option Bytes32) : Except Error Unit := do
  require .bounds (entry.committedBy != 0 && entry.registry != zeroBytes)
  identity entry.event scope author

def feedEntries (scope : Scope) (after : UInt64) : List (Entry crypto) → List (Entry crypto) → Except Error Unit
  | _, [] => .ok ()
  | before, entry :: rest => do
    entry.check scope none
    require .request (entry.role == .currentAdmission && checkedAdd after (UInt64.ofNat (before.length + 1)) == some entry.committedBy)
    require .request !(before.any fun prior => prior.event.id == entry.event.id ||
      (prior.event.claims.author == entry.event.claims.author && decide (entry.event.claims.sequence ≤ prior.event.claims.sequence)))
    feedEntries scope after (before ++ [entry]) rest

/-- What may come behind an entry: its own transaction behind an ancestor, a later one behind a terminal. -/
def continues (role : EvidenceRole) (committedBy : UInt64) (entry : Entry crypto) : Bool :=
  match role with
  | .historicalContinuity => entry.committedBy == committedBy
  | .currentAdmission => decide (committedBy < entry.committedBy)

def evidenceEntries (request : Request crypto) : Position → Option (Entry crypto) → List (Entry crypto) → Except Error Position
  | tail, _, [] => .ok tail
  | tail, previous, entry :: rest => do
    let author ← request.author
    entry.check request.context.scope (some author)
    let tail ← tail.extension entry.event
    require .request (previous.all fun prior => continues prior.role prior.committedBy entry)
    evidenceEntries request tail (some entry) rest

namespace StageAck

def check (a : StageAck) (request : Request crypto) (s : StageRequest) : Except Error Unit := do
  a.observed.covers request
  let _ ← request.author
  a.ticket.check s.base
  let expectedPages := (s.prior.map fun prior => prior.pages + 1).getD 1
  require .request (a.base == s.base && a.submittedEnd == s.end_ && a.submittedBody == s.body && decide (expectedPages ≤ a.ticket.pages) &&
    decide (s.end_.sequence ≤ a.ticket.tail.sequence) && !(a.ticket.tail.sequence == s.end_.sequence && a.ticket.tail != s.end_) &&
    s.prior.all fun prior => prior.id == a.ticket.id && prior.expires == a.ticket.expires)

end StageAck

def TerminalReceipt.check (c : TerminalReceipt crypto) (request : Request crypto) (commit : CommitRequest) : Except Error Unit := do
  c.observed.covers request
  let author ← request.author
  identity c.event request.context.scope (some author)
  require .request (c.cursor != 0 && c.registry != zeroBytes && Position.of c.event == commit.terminal &&
    crypto.sha256 c.event.encode == commit.terminalFrame)

def Status.check (s : Status) (request : Request crypto) (minimum : Position) : Except Error Unit := do
  s.observed.covers request
  let _ ← request.author
  require .request !(decide (s.published.sequence < minimum.sequence) ||
    (s.published.sequence == minimum.sequence && s.published != minimum))
  match s.stage with
  | some stage => stage.check s.published
  | none => .ok ()

def FeedPage.check (p : FeedPage crypto) (request : Request crypto) (after : UInt64) (count : UInt8) : Except Error Unit := do
  require .request (request.selection == .roomFeed)
  p.observed.covers request
  pageLen after p.tip count p.entries.length
  feedEntries request.context.scope after [] p.entries

def EvidencePage.check (p : EvidencePage crypto) (request : Request crypto) (after : Position) (count : UInt8) : Except Error Unit := do
  p.observed.covers request
  pageLen after.sequence p.tip.sequence count p.entries.length
  require .request !(after.sequence == p.tip.sequence && after != p.tip)
  let tail ← evidenceEntries request after none p.entries
  require .request !(tail.sequence == p.tip.sequence && (tail != p.tip ||
    p.entries.getLast?.any fun entry => entry.role != .currentAdmission))

def Reply.check (reply : Reply crypto) (request : Request crypto) : Except Error Unit :=
  match reply, request.kind with
  | .staged a, .stage s => a.check request s
  | .committed c, .commit commit => c.check request commit
  | .status s, .status minimum => s.check request minimum
  | .feed p, .feed after count => p.check request after count
  | .evidence p, .evidence after count => p.check request after count
  | _, _ => .error .request

/-! ### The bytes -/

def StageAck.put (a : StageAck) : List UInt8 :=
  a.observed.put ++ (a.base.put ++ (a.ticket.put ++ (a.submittedEnd.put ++ a.submittedBody.toList)))

def StageAck.read : Reader Error StageAck := do
  let observed ← Observed.read
  let base ← Position.read
  let ticket ← StageRef.read base
  let submittedEnd ← Position.read
  let submittedBody ← Reader.array .encoding 32
  pure ⟨observed, base, ticket, submittedEnd, submittedBody⟩

def boolPut (b : Bool) : List UInt8 := [if b then 1 else 0]

def boolRead : Reader Error Bool := do
  let byte ← (Reader.int .encoding : Reader Error UInt8)
  match byte with
  | 0 => pure false
  | 1 => pure true
  | _ => throw .encoding

def TerminalReceipt.put (c : TerminalReceipt crypto) : List UInt8 :=
  c.observed.put ++ (toBe c.cursor ++ (c.registry.toList ++ (boolPut c.reconciled ++ eventPut c.event)))

def TerminalReceipt.read (crypto : Crypto) : Reader Error (TerminalReceipt crypto) := do
  let observed ← Observed.read
  let cursor ← (Reader.int .encoding : Reader Error UInt64)
  let registry ← Reader.array .encoding 32
  let reconciled ← boolRead
  let event ← eventRead crypto
  pure ⟨observed, event, cursor, registry, reconciled⟩

def Status.put (s : Status) : List UInt8 := s.observed.put ++ (s.published.put ++ stagePut s.stage)

def Status.read : Reader Error Status := do
  let observed ← Observed.read
  let published ← Position.read
  let stage ← stageRead published
  pure ⟨observed, published, stage⟩

def rolePut : EvidenceRole → List UInt8
  | .historicalContinuity => [0]
  | .currentAdmission => [1]

def roleRead : Reader Error EvidenceRole := do
  let byte ← (Reader.int .encoding : Reader Error UInt8)
  match byte with
  | 0 => pure .historicalContinuity
  | 1 => pure .currentAdmission
  | _ => throw .encoding

def Entry.put (entry : Entry crypto) : List UInt8 :=
  rolePut entry.role ++ (toBe entry.committedBy ++ (entry.registry.toList ++ eventPut entry.event))

def Entry.read (crypto : Crypto) : Reader Error (Entry crypto) := do
  let role ← roleRead
  let committedBy ← (Reader.int .encoding : Reader Error UInt64)
  let registry ← Reader.array .encoding 32
  let event ← eventRead crypto
  pure ⟨role, committedBy, registry, event⟩

def entriesPut (entries : List (Entry crypto)) : List UInt8 :=
  toBe (UInt8.ofNat entries.length) ++ entries.flatMap Entry.put

def getCount : Reader Error Nat := do
  let n ← (Reader.int .encoding : Reader Error UInt8)
  if toNat n > maxPage then throw .bounds else pure (toNat n)

def entriesRead (crypto : Crypto) : Reader Error (List (Entry crypto)) := do
  let n ← getCount
  Reader.replicate (Entry.read crypto) n

def FeedPage.put (p : FeedPage crypto) : List UInt8 := p.observed.put ++ (toBe p.tip ++ entriesPut p.entries)

def FeedPage.read (crypto : Crypto) : Reader Error (FeedPage crypto) := do
  let observed ← Observed.read
  let tip ← (Reader.int .encoding : Reader Error UInt64)
  let entries ← entriesRead crypto
  pure ⟨observed, tip, entries⟩

def EvidencePage.put (p : EvidencePage crypto) : List UInt8 := p.observed.put ++ (p.tip.put ++ entriesPut p.entries)

def EvidencePage.read (crypto : Crypto) : Reader Error (EvidencePage crypto) := do
  let observed ← Observed.read
  let tip ← Position.read
  let entries ← entriesRead crypto
  pure ⟨observed, tip, entries⟩

namespace Reply

def put : Reply crypto → List UInt8
  | .staged a => 0 :: a.put
  | .committed c => 1 :: c.put
  | .status s => 2 :: s.put
  | .feed p => 3 :: p.put
  | .evidence p => 4 :: p.put

def read (crypto : Crypto) : Reader Error (Reply crypto) := do
  let tag ← (Reader.int .encoding : Reader Error UInt8)
  match tag with
  | 0 => do
    let a ← StageAck.read
    pure (.staged a)
  | 1 => do
    let c ← TerminalReceipt.read crypto
    pure (.committed c)
  | 2 => do
    let s ← Status.read
    pure (.status s)
  | 3 => do
    let p ← FeedPage.read crypto
    pure (.feed p)
  | 4 => do
    let p ← EvidencePage.read crypto
    pure (.evidence p)
  | _ => throw .encoding

def encode (reply : Reply crypto) (request : Request crypto) : Except Error (List UInt8) := do
  reply.check request
  require .bounds (decide ((replyMagic ++ reply.put).length ≤ maxReplyBytes))
  pure (replyMagic ++ reply.put)

def decode (raw : List UInt8) (request : Request crypto) : Except Error (Reply crypto) := do
  let reply ← framed replyMagic maxReplyBytes (read crypto) raw
  reply.check request
  pure reply

end Reply

/-! ### Proofs -/

structure UnsignedResponse (crypto : Crypto) where
  peer : Bytes32
  request : Request crypto
  body : Bytes32
  key : checkedKey crypto peer = .ok ()
deriving DecidableEq

namespace UnsignedResponse

def make (peer : Bytes32) (request : Request crypto) (body : Bytes32) : Except Error (UnsignedResponse crypto) :=
  match h : checkedKey crypto peer with
  | .ok () => .ok ⟨peer, request, body, h⟩
  | .error e => .error e

def new (peer : Bytes32) (request : Request crypto) (body : List UInt8) : Except Error (UnsignedResponse crypto) := do
  let statement ← make peer request (crypto.sha256 body)
  let _ ← Reply.decode body request
  pure statement

variable (statement : UnsignedResponse crypto)

def unsigned : List UInt8 :=
  proofMagic ++ (statement.peer.toList ++ (toBe (UInt16.ofNat statement.request.encode.length) ++
    (statement.request.encode ++ statement.body.toList)))

def signingBytes : List UInt8 := proofDomain ++ statement.unsigned

end UnsignedResponse

structure ResponseProof (crypto : Crypto) where
  statement : UnsignedResponse crypto
  signature : Signature
deriving DecidableEq

/-- A peer's statement whose signature was verified. -/
structure VerifiedResponse (crypto : Crypto) where
  peer : Bytes32
  request : Request crypto
  reply : Reply crypto

namespace ResponseProof

def encode (proof : ResponseProof crypto) : List UInt8 := proof.statement.unsigned ++ proof.signature.toList

/-- What follows the magic. -/
def read (crypto : Crypto) : Reader Error (ResponseProof crypto) := do
  let peer ← Reader.array .encoding 32
  Reader.lift (checkedKey crypto peer)
  let n ← sizeRead maxRequestBytes
  let raw ← Reader.take .encoding n
  let request ← Reader.lift (Request.decode crypto raw)
  let body ← Reader.array .encoding 32
  let signature ← Reader.array .encoding 64
  let statement ← Reader.lift (UnsignedResponse.make peer request body)
  pure ⟨statement, signature⟩

def decode (crypto : Crypto) (raw : List UInt8) : Except Error (ResponseProof crypto) :=
  framed proofMagic maxProofBytes (read crypto) raw

def fromHex (crypto : Crypto) (raw : List UInt8) : Except Error (ResponseProof crypto) := do
  let bytes ← unhex raw maxProofBytes
  decode crypto bytes

def checkSignature (proof : ResponseProof crypto) : Except Error Unit := do
  checkedKey crypto proof.statement.peer
  require .signature (crypto.verifyStrict proof.statement.peer proof.statement.signingBytes proof.signature)

def verify (proof : ResponseProof crypto) (peer : Bytes32) (request : Request crypto) (body : List UInt8) :
    Except Error (VerifiedResponse crypto) := do
  require .peer (peer == proof.statement.peer)
  require .request (decide (request = proof.statement.request))
  require .bounds (decide (body.length ≤ maxReplyBytes))
  require .body (crypto.sha256 body == proof.statement.body)
  proof.checkSignature
  let reply ← Reply.decode body request
  pure ⟨peer, request, reply⟩

end ResponseProof

end Valhalla.Continuity
