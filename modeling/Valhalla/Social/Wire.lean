import Valhalla.Lib.Wire
import Valhalla.Social.Model

/-!
# Signed social records (`wire.rs` of `vhalla-social`)

Writers and readers of the canonical bytes, and unsigned, signed and verified records, each with the checks
it passed.
-/

namespace Valhalla.Social
open Fallible FixedWidth Check

def wireMagic : List UInt8 := [86, 72, 83, 79, 1]
def idDomain : List UInt8 := "vhalla/social/content-id/v1".toUTF8.toList
def signDomain : List UInt8 := "vhalla/social/signature/v1".toUTF8.toList

/-! ### Writers -/

section
variable {α : Type}

def putU8 (b : UInt8) : List UInt8 := [b]

def putBool (b : Bool) : List UInt8 := putU8 (if b then 1 else 0)

def putId {kind : IdKind} (id : Id kind) : List UInt8 := id.bytes.toList

def putRealm (realm : RealmId) : List UInt8 := toBe realm.value

def putCount (n : Nat) : List UInt8 := putU8 (UInt8.ofNat n)

def putOption (put : α → List UInt8) : Option α → List UInt8
  | none => putBool false
  | some a => putBool true ++ put a

end

def putRefs (refs : References) : List UInt8 := putCount refs.ids.length ++ refs.ids.flatMap putId

def putText (text : Text) : List UInt8 := toBe (UInt16.ofNat text.str.utf8ByteSize) ++ text.bytes

def putPostRef (reference : PostRef) : List UInt8 := putId reference.post ++ putId reference.revision

def putReplyRef (reply : ReplyRef) : List UInt8 := putId reply.root ++ putPostRef reply.parent

def encodeActor : Actor → List UInt8
  | .owner owner control => putU8 0 ++ (putId owner ++ putId control)
  | .agent owner agent grant => putU8 1 ++ (putId owner ++ (putId agent ++ putId grant))

def encodePlacement : Placement → List UInt8
  | .profile => putU8 0
  | .channel room => putU8 1 ++ toBe room.value

/-- What the two kinds of posts share. -/
structure PostFields where
  placement : Placement
  text : Text
  reply : Option ReplyRef
  quote : Option PostRef

def encodePostFields (fields : PostFields) : List UInt8 :=
  encodePlacement fields.placement ++ (putText fields.text ++
    (putOption putReplyRef fields.reply ++ putOption putPostRef fields.quote))

/-- What the two kinds of revisions share. -/
structure RevisionFields where
  post : RecordId
  text : Text
  supersedes : References

def encodeRevisionFields (fields : RevisionFields) : List UInt8 :=
  putId fields.post ++ (putText fields.text ++ putRefs fields.supersedes)

def encodeFacetKind : FacetKind → List UInt8
  | .mention (.owner id) => putU8 0 ++ putId id
  | .mention (.agent id) => putU8 1 ++ putId id
  | .tag tag => putU8 2 ++ (putCount tag.bytes.length ++ tag.bytes)

def encodeFacet (facet : Facet) : List UInt8 := toBe facet.start ++ (toBe facet.stop ++ encodeFacetKind facet.kind)

def encodeFacets (facets : List Facet) : List UInt8 := putCount facets.length ++ facets.flatMap encodeFacet

def encodeReaction : Reaction → List UInt8
  | .clear => putU8 0
  | .up revision => putU8 1 ++ putId revision
  | .down revision => putU8 2 ++ putId revision

def encodeOperation : Operation → List UInt8
  | .post placement text reply quote => putU8 0 ++ encodePostFields ⟨placement, text, reply, quote⟩
  | .postFaceted placement content reply quote =>
    putU8 8 ++ (encodePostFields ⟨placement, content.text, reply, quote⟩ ++ encodeFacets content.facets)
  | .revise post text supersedes => putU8 1 ++ encodeRevisionFields ⟨post, text, supersedes⟩
  | .reviseFaceted post content supersedes =>
    putU8 9 ++ (encodeRevisionFields ⟨post, content.text, supersedes⟩ ++ encodeFacets content.facets)
  | .retract post => putU8 2 ++ putId post
  | .repost post revision supersedes => putU8 3 ++ (putId post ++ (putOption putId revision ++ putRefs supersedes))
  | .react post reaction supersedes => putU8 4 ++ (putId post ++ (encodeReaction reaction ++ putRefs supersedes))
  | .follow target following supersedes => putU8 5 ++ (putId target ++ (putBool following ++ putRefs supersedes))
  | .agentBio text supersedes => putU8 6 ++ (putText text ++ putRefs supersedes)
  | .ownerProfile text supersedes => putU8 7 ++ (putText text ++ putRefs supersedes)

def encodeAction : ControlAction → List UInt8
  | .grant agent realm rights expiresAt nonce =>
    putU8 0 ++ (putId agent ++ (putRealm realm ++ (putU8 rights.bits ++ (toBe expiresAt ++ nonce.toList))))
  | .revoke grant accepted => putU8 1 ++ (putId grant ++ putRefs accepted)
  | .retire agent realm accepted => putU8 2 ++ (putId agent ++ (putRealm realm ++ putRefs accepted))
  | .sealHeads realm heads => putU8 3 ++ (putRealm realm ++ putRefs heads)
  | .ratify realm heads => putU8 4 ++ (putRealm realm ++ putRefs heads)
  | .rotate newKey => putU8 5 ++ newKey.toList

def encodeBody : Body → List UInt8
  | .ownerGenesis controller recovery nonce =>
    putU8 0 ++ (controller.toList ++ (putOption Vector.toList recovery ++ nonce.toList))
  | .control owner previous action => putU8 1 ++ (putId owner ++ (putId previous ++ encodeAction action))
  | .agentGenesis owner control key nonce => putU8 2 ++ (putId owner ++ (putId control ++ (key.toList ++ nonce.toList)))
  | .social actor realm sequence previous operation =>
    putU8 3 ++ (encodeActor actor ++ (putRealm realm ++ (toBe sequence ++ (putOption putId previous ++
      encodeOperation operation))))

/-! ### Readers -/

abbrev GetM := Reader Error

def getArray (n : Nat) : GetM (Vector UInt8 n) := Reader.array .encoding n

section
variable {α : Type}

def getInt [FixedWidth α] : GetM α := Reader.int .encoding

def getU8 : GetM UInt8 := getInt

def getBool : GetM Bool := do
  match ← getU8 with
  | 0 => pure false
  | 1 => pure true
  | _ => throw .encoding

def getId {kind : IdKind} : GetM (Id kind) := do
  let bytes ← getArray 32
  pure ⟨bytes⟩

def getRealm : GetM RealmId := do
  let value ← getInt
  pure ⟨value⟩

def getCount (limit : Nat) : GetM Nat := do
  let n ← getU8
  if n.toNat > limit then throw .bounds else pure n.toNat

def getOption (get : GetM α) : GetM (Option α) := do
  match ← getU8 with
  | 0 => pure none
  | 1 => do
    let a ← get
    pure (some a)
  | _ => throw .encoding

def getList (limit : Nat) (get : GetM α) : GetM (List α) := do
  let n ← getCount limit
  Reader.replicate get n

end

def getRefs : GetM References := do
  let ids ← getList maxRefs getId
  Reader.lift (References.new ids)

def getTextLength : GetM Nat := do
  let n ← (getInt : GetM UInt16)
  if n.toNat > maxTextBytes then throw .bounds else pure n.toNat

def getText : GetM Text := do
  let n ← getTextLength
  let bytes ← Reader.take .encoding n
  match String.fromUTF8? ⟨bytes.toArray⟩ with
  | some str => Reader.lift (Text.new str)
  | none => throw .encoding

def getPostRef : GetM PostRef := do
  let post ← getId
  let revision ← getId
  pure ⟨post, revision⟩

def getReplyRef : GetM ReplyRef := do
  let root ← getId
  let parent ← getPostRef
  pure ⟨root, parent⟩

def getPlacement : GetM Placement := do
  match ← getU8 with
  | 0 => pure .profile
  | 1 => do
    let room ← getInt
    pure (.channel ⟨room⟩)
  | _ => throw .encoding

def getPostFields : GetM PostFields := do
  let placement ← getPlacement
  let text ← getText
  let reply ← getOption getReplyRef
  let quote ← getOption getPostRef
  pure ⟨placement, text, reply, quote⟩

def getRevisionFields : GetM RevisionFields := do
  let post ← getId
  let text ← getText
  let supersedes ← getRefs
  pure ⟨post, text, supersedes⟩

def getTag : GetM CanonicalTag := do
  let n ← getCount maxTagBytes
  let bytes ← Reader.take .encoding n
  Reader.lift (CanonicalTag.canonical bytes)

def getFacetKind : GetM FacetKind := do
  match ← getU8 with
  | 0 => do
    let id ← getId
    pure (.mention (.owner id))
  | 1 => do
    let id ← getId
    pure (.mention (.agent id))
  | 2 => do
    let tag ← getTag
    pure (.tag tag)
  | _ => throw .encoding

def getFacet : GetM Facet := do
  let start ← getInt
  let stop ← getInt
  let kind ← getFacetKind
  pure ⟨start, stop, kind⟩

def getFacets : GetM (List Facet) := getList maxFacets getFacet

def getReaction : GetM Reaction := do
  match ← getU8 with
  | 0 => pure .clear
  | 1 => do
    let revision ← getId
    pure (.up revision)
  | 2 => do
    let revision ← getId
    pure (.down revision)
  | _ => throw .encoding

def postOf (fields : PostFields) : Operation := .post fields.placement fields.text fields.reply fields.quote

def postFacetedOf (p : PostFields × List Facet) : Except Error Operation := do
  let content ← FacetedText.new p.1.text p.2
  pure (.postFaceted p.1.placement content p.1.reply p.1.quote)

def reviseOf (fields : RevisionFields) : Operation := .revise fields.post fields.text fields.supersedes

def reviseFacetedOf (p : RevisionFields × List Facet) : Except Error Operation := do
  let content ← FacetedText.new p.1.text p.2
  pure (.reviseFaceted p.1.post content p.1.supersedes)

def getOperation : GetM Operation := do
  match ← getU8 with
  | 0 => do
    let fields ← getPostFields
    pure (postOf fields)
  | 1 => do
    let fields ← getRevisionFields
    pure (reviseOf fields)
  | 2 => do
    let post ← getId
    pure (.retract post)
  | 3 => do
    let post ← getId
    let revision ← getOption getId
    let supersedes ← getRefs
    pure (.repost post revision supersedes)
  | 4 => do
    let post ← getId
    let reaction ← getReaction
    let supersedes ← getRefs
    pure (.react post reaction supersedes)
  | 5 => do
    let target ← getId
    let following ← getBool
    let supersedes ← getRefs
    pure (.follow target following supersedes)
  | 6 => do
    let text ← getText
    let supersedes ← getRefs
    pure (.agentBio text supersedes)
  | 7 => do
    let text ← getText
    let supersedes ← getRefs
    pure (.ownerProfile text supersedes)
  | 8 => do
    let fields ← getPostFields
    let facets ← getFacets
    Reader.lift (postFacetedOf (fields, facets))
  | 9 => do
    let fields ← getRevisionFields
    let facets ← getFacets
    Reader.lift (reviseFacetedOf (fields, facets))
  | _ => throw .encoding

def getActor : GetM Actor := do
  match ← getU8 with
  | 0 => do
    let owner ← getId
    let control ← getId
    pure (.owner owner control)
  | 1 => do
    let owner ← getId
    let agent ← getId
    let grant ← getId
    pure (.agent owner agent grant)
  | _ => throw .encoding

def getRights : GetM Rights := do
  let bits ← getU8
  Reader.lift (Rights.fromBits bits)

def getAction : GetM ControlAction := do
  match ← getU8 with
  | 0 => do
    let agent ← getId
    let realm ← getRealm
    let rights ← getRights
    let expiresAt ← getInt
    let nonce ← getArray 32
    pure (.grant agent realm rights expiresAt nonce)
  | 1 => do
    let grant ← getId
    let accepted ← getRefs
    pure (.revoke grant accepted)
  | 2 => do
    let agent ← getId
    let realm ← getRealm
    let accepted ← getRefs
    pure (.retire agent realm accepted)
  | 3 => do
    let realm ← getRealm
    let heads ← getRefs
    pure (.sealHeads realm heads)
  | 4 => do
    let realm ← getRealm
    let heads ← getRefs
    pure (.ratify realm heads)
  | 5 => do
    let newKey ← getArray 32
    pure (.rotate newKey)
  | _ => throw .encoding

def getBody : GetM Body := do
  match ← getU8 with
  | 0 => do
    let controller ← getArray 32
    let recovery ← getOption (getArray 32)
    let nonce ← getArray 32
    pure (.ownerGenesis controller recovery nonce)
  | 1 => do
    let owner ← getId
    let previous ← getId
    let action ← getAction
    pure (.control owner previous action)
  | 2 => do
    let owner ← getId
    let control ← getId
    let key ← getArray 32
    let nonce ← getArray 32
    pure (.agentGenesis owner control key nonce)
  | 3 => do
    let actor ← getActor
    let realm ← getRealm
    let sequence ← getInt
    let previous ← getOption getId
    let operation ← getOperation
    pure (.social actor realm sequence previous operation)
  | 128 => throw .privateDisabled
  | _ => throw .encoding

/-! ### Unsigned records -/

section
variable (crypto : Crypto)

def checkedKey (key : Bytes32) : Except Error Unit := do
  require .key (crypto.decodesKey key)
  require .key !(crypto.isWeak key)

def checkOperation : Operation → Except Error Unit
  | .agentBio text _ | .ownerProfile text _ => require .bounds (decide (text.str.utf8ByteSize ≤ maxBioBytes))
  | .revise _ _ supersedes | .reviseFaceted _ _ supersedes => require .encoding !supersedes.ids.isEmpty
  | _ => .ok ()

def validateBody (body : Body) (primary : Bytes32) : Except Error Unit :=
  match body with
  | .ownerGenesis controller recovery _ => do
    require .signingKey (controller == primary)
    checkedKey crypto controller
    match recovery with
    | some key => checkedKey crypto key
    | none => pure ()
  | .control _ _ (.grant _ _ _ expiresAt _) => require .bounds (expiresAt != 0)
  | .control _ _ (.rotate newKey) => checkedKey crypto newKey
  | .control .. => .ok ()
  | .agentGenesis _ _ key _ => checkedKey crypto key
  | .social _ _ sequence previous operation => do
    require .encoding ((sequence == 0) == previous.isNone)
    checkOperation operation

/-- What a record says and the key that signs it first. -/
structure Fact where
  primary : Bytes32
  body : Body
deriving DecidableEq

def Fact.bytes (fact : Fact) : List UInt8 := wireMagic ++ (fact.primary.toList ++ encodeBody fact.body)

/-- Bytes that the signatures take besides the fact. -/
def proofSize (body : Body) : Nat := 4 + 64 + 1 + if body.acknowledgementKey.isSome then 64 else 0

def Fact.check (fact : Fact) : Except Error Unit := do
  checkedKey crypto fact.primary
  validateBody crypto fact.body fact.primary
  require .bounds (decide (fact.bytes.length ≤ maxRecordBytes - proofSize fact.body))

/-- Content ID, excluding signature representations. -/
def Fact.id (fact : Fact) : RecordId := ⟨crypto.sha256 (idDomain ++ fact.bytes)⟩

structure UnsignedRecord where
  fact : Fact
  valid : fact.check crypto = .ok ()
deriving DecidableEq

end

variable {crypto : Crypto}

namespace UnsignedRecord

def new (primary : Bytes32) (body : Body) : Except Error (UnsignedRecord crypto) :=
  match h : Fact.check crypto ⟨primary, body⟩ with
  | .ok () => .ok ⟨⟨primary, body⟩, h⟩
  | .error e => .error e

def unsignedBytes (record : UnsignedRecord crypto) : List UInt8 := record.fact.bytes

def id (record : UnsignedRecord crypto) : RecordId := record.fact.id crypto

def acknowledgementKey (record : UnsignedRecord crypto) : Option Bytes32 := record.fact.body.acknowledgementKey

end UnsignedRecord

def getMagic : GetM Unit := do
  let found ← Reader.take .encoding wireMagic.length
  if found ≠ wireMagic then throw .encoding else pure ()

def getFact : GetM Fact := do
  getMagic
  let primary ← getArray 32
  let body ← getBody
  pure ⟨primary, body⟩

def decodeUnsigned (canonical : List UInt8) : Except Error (UnsignedRecord crypto) :=
  match exec getFact canonical with
  | (.error e, _) => .error e
  | (.ok fact, rest) => do
    require .encoding rest.isEmpty
    let unsigned ← UnsignedRecord.new fact.primary fact.body
    require .encoding (unsigned.unsignedBytes == canonical)
    pure unsigned

/-! ### Signed records -/

/-- Structurally checked signed bytes. -/
structure SignedRecord (crypto : Crypto) where
  unsigned : UnsignedRecord crypto
  signature : Signature
  acknowledgement : Option Signature
  acknowledged : acknowledgement.isSome = unsigned.acknowledgementKey.isSome
deriving DecidableEq

def getCanonical : GetM (List UInt8) := do
  let n ← (getInt : GetM UInt32)
  if 38 ≤ n.toNat ∧ n.toNat ≤ maxRecordBytes - 69 then Reader.take .encoding n.toNat else throw .bounds

def SignedRecord.build (p : UnsignedRecord crypto × Signature × Option Signature) : Except Error (SignedRecord crypto) :=
  if h : p.2.2.isSome = p.1.acknowledgementKey.isSome then .ok ⟨p.1, p.2.1, p.2.2, h⟩ else .error .encoding

def getUnsigned : GetM (UnsignedRecord crypto) := do
  let canonical ← getCanonical
  Reader.lift (decodeUnsigned canonical)

def getProof : GetM (Signature × Option Signature) := do
  let signature ← getArray 64
  let acknowledgement ← getOption (getArray 64)
  pure (signature, acknowledgement)

def getSigned : GetM (SignedRecord crypto) := do
  let parts ← (do
    let unsigned ← getUnsigned
    let proof ← getProof
    pure (unsigned, proof))
  Reader.lift (SignedRecord.build parts)

namespace SignedRecord

def decode (raw : List UInt8) : Except Error (SignedRecord crypto) :=
  Reader.decode (fun _ _ => .bounds) (fun _ => .encoding) maxRecordBytes getSigned raw

variable (record : SignedRecord crypto)

def encode : List UInt8 :=
  (toBe (UInt32.ofNat record.unsigned.unsignedBytes.length) ++ record.unsigned.unsignedBytes) ++
    (record.signature.toList ++ putOption Vector.toList record.acknowledgement)

def id : RecordId := record.unsigned.id

def body : Body := record.unsigned.fact.body

def signatureTranscript (id : RecordId) : List UInt8 := signDomain ++ id.bytes.toList

def checkSignature (crypto : Crypto) (id : RecordId) (key : Bytes32) (signature : Signature) : Except Error Unit := do
  checkedKey crypto key
  require .signature (crypto.verifyStrict key (signatureTranscript id) signature)

def verify : Except Error Unit := do
  checkSignature crypto record.id record.unsigned.fact.primary record.signature
  match record.unsigned.acknowledgementKey, record.acknowledgement with
  | some key, some signature => checkSignature crypto record.id key signature
  | none, none => pure ()
  | _, _ => throw .signature

end SignedRecord

/-- Immutable signature evidence. -/
structure VerifiedRecord (crypto : Crypto) where
  signed : SignedRecord crypto
  verified : signed.verify = .ok ()
deriving DecidableEq

namespace VerifiedRecord

/-- `SignedRecord::verify`. -/
def new (signed : SignedRecord crypto) : Except Error (VerifiedRecord crypto) :=
  match h : signed.verify with
  | .ok () => .ok ⟨signed, h⟩
  | .error e => .error e

variable (record : VerifiedRecord crypto)

def fact : Fact := record.signed.unsigned.fact

def id : RecordId := record.signed.id

def body : Body := record.fact.body

def primaryKey : Bytes32 := record.fact.primary

def encode : List UInt8 := record.signed.encode

end VerifiedRecord

end Valhalla.Social
