import Valhalla.Lib.Maps
import Valhalla.DirectRoom.Records

/-!
# Owner policy and author continuity (`state.rs` of `vhalla-direct-room`)

A `PolicyState` replays signed owner policies, an `AuthorChain` the events of one author. Both are prepared
first, with a token that names its base, and committed later. `&mut self` methods keep the state they leave
behind when they fail.
-/

namespace Valhalla.DirectRoom
open Fallible FixedWidth Check

def maxSealedAuthors : Nat := 4096
def maxObservedPolicies : Nat := 256
def maxChainPage : Nat := 32

/-- Exact observed owner-policy position. -/
structure PolicyPosition where
  revision : UInt64
  id : PolicyId
deriving DecidableEq

/-- One verified author-chain position. -/
structure AuthorHead where
  sequence : UInt64
  event : EventId
deriving DecidableEq

def AuthorHead.empty : AuthorHead := ⟨0, .zero⟩

/-- Immutable policy boundary of an accepted owner update. -/
structure ClosedPolicy where
  room : RoomId
  policy : PolicyId
  closingPolicy : PolicyId
  writers : List Bytes32
  seals : List SealHead
deriving DecidableEq

structure PolicyState (crypto : Crypto) where
  genesis : PinnedGenesis crypto
  current : Option (VerifiedPolicy crypto)
  sealedHeads : Std.ExtTreeMap Bytes32 AuthorHead compare
  observed : Std.ExtTreeMap UInt64 PolicyId compare
  observationOverflow : Bool
  forked : Bool
deriving DecidableEq

/-- Per-room full-author continuity. -/
structure AuthorChain where
  room : RoomId
  author : Bytes32
  head : AuthorHead
  checkedSeal : Option AuthorHead
deriving DecidableEq

structure SealProof where
  chain : AuthorChain
  target : SealHead
  policy : PolicyId
deriving DecidableEq

/-- A checked policy replacement bound to its exact preparation base. -/
structure PreparedPolicy (crypto : Crypto) where
  room : RoomId
  base : PolicyPosition
  update : VerifiedPolicy crypto
  closed : ClosedPolicy
  proofs : List SealProof
deriving DecidableEq

/-- Historical chain extension. -/
structure PreparedContinuity (crypto : Crypto) where
  room : RoomId
  author : Bytes32
  base : AuthorHead
  event : VerifiedEvent crypto
deriving DecidableEq

/-- Fresh event admission prepared against both author and policy heads. -/
structure PreparedEvent (crypto : Crypto) where
  step : PreparedContinuity crypto
  policy : PolicyPosition
deriving DecidableEq

/-- Proof that an existing author head descends from a newly learned owner seal. -/
structure AnchorReconciliation where
  room : RoomId
  author : Bytes32
  policy : PolicyPosition
  sealHead : AuthorHead
  target : AuthorHead
  progress : AuthorHead
deriving DecidableEq

variable {crypto : Crypto}

def headOf (event : VerifiedEvent crypto) : AuthorHead := ⟨event.claims.sequence, event.id⟩

def SealHead.head (sealHead : SealHead) : AuthorHead := ⟨sealHead.sequence, sealHead.event⟩

/-! ### Chain steps -/

def AuthorChain.checkNext (chain : AuthorChain) (event : VerifiedEvent crypto) : Except Error Unit := do
  require .scope (event.claims.room == chain.room)
  require .author (event.claims.author == chain.author)
  require .replay !decide (event.claims.sequence < chain.head.sequence)
  if event.claims.sequence = chain.head.sequence then
    .error (if event.id = chain.head.event then .duplicate else .fork)
  else do
    let next ← okOr .exhausted (checkedAdd chain.head.sequence 1)
    require .gap (event.claims.sequence == next)
    require .fork (event.claims.previous == chain.head.event)

namespace SealProof

def checkTerminal (proof : SealProof) (event : VerifiedEvent crypto) : Except Error Unit :=
  if event.claims.sequence = proof.target.sequence then do
    require .fork (event.id == proof.target.event)
    require .policy (event.claims.policy == proof.policy)
  else .ok ()

def pushEvent (proof : SealProof) (next : AuthorChain) (event : VerifiedEvent crypto) : Except Error AuthorChain := do
  require .bounds (decide (event.claims.sequence ≤ proof.target.sequence))
  next.checkNext event
  proof.checkTerminal event
  pure { next with head := headOf event }

def push (proof : SealProof) (page : List (VerifiedEvent crypto)) : Except Error SealProof := do
  require .bounds (!page.isEmpty && decide (page.length ≤ maxChainPage))
  let next ← page.foldlM proof.pushEvent proof.chain
  pure { proof with chain := next }

def complete (proof : SealProof) : Bool :=
  proof.chain.head.sequence == proof.target.sequence && proof.chain.head.event == proof.target.event

end SealProof

namespace PreparedPolicy

/-- `find` and a push of the proof found: a refused page changes nothing. -/
def pushProofs (author : Bytes32) (page : List (VerifiedEvent crypto)) : List SealProof → Except Error (List SealProof)
  | [] => .error .author
  | proof :: proofs =>
    if proof.target.author = author then do
      let proof ← proof.push page
      pure (proof :: proofs)
    else do
      let proofs ← pushProofs author page proofs
      pure (proof :: proofs)

def pushSeal (author : Bytes32) (page : List (VerifiedEvent crypto)) : Fallible Error (PreparedPolicy crypto) Unit := do
  let proofs ← examine fun prepared => pushProofs author page prepared.proofs
  Fallible.update fun prepared => { prepared with proofs }

def isReady (prepared : PreparedPolicy crypto) : Bool := prepared.proofs.all SealProof.complete

end PreparedPolicy

/-! ### Policies -/

namespace PolicyState

def new (genesis : PinnedGenesis crypto) : PolicyState crypto := ⟨genesis, none, ∅, ∅, false, false⟩

variable (state : PolicyState crypto)

def room : RoomId := state.genesis.verified.id

def owner : Bytes32 := state.genesis.verified.claims.owner

def head : PolicyPosition :=
  match state.current with
  | some current => ⟨current.claims.revision, current.id⟩
  | none => ⟨0, state.room.initialPolicy crypto⟩

def writers : List Bytes32 :=
  match state.current with
  | some current => current.claims.writers
  | none => state.genesis.verified.claims.writers

/-- `binary_search` on the sorted writers. -/
def allows (author : Bytes32) : Bool := state.writers.contains author

def sealedHead (author : Bytes32) : Option AuthorHead := state.sealedHeads[author]?

def checkOwner (update : VerifiedPolicy crypto) : Except Error Unit := do
  require .scope (update.claims.room == state.room)
  require .owner (update.claims.owner == state.owner)

def freshAdmission : Except Error Unit := do
  require .fork !state.forked
  require .capacity !state.observationOverflow
  require .policyPending state.observed.isEmpty

def agrees (update : VerifiedPolicy crypto) : Bool :=
  match state.observed[update.claims.revision]? with
  | some id => id == update.id
  | none => true

def observeAfterPersist (update : VerifiedPolicy crypto) : Fallible Error (PolicyState crypto) Unit := do
  examine fun state => state.checkOwner update
  let state ← view id
  if update.claims.revision < state.head.revision then throw .replay
  else if update.claims.revision = state.head.revision then
    if update.id = state.head.id then throw .duplicate
    else do
      Fallible.update fun state => { state with forked := true }
      throw .fork
  else
    match state.observed[update.claims.revision]? with
    | some observed =>
      if update.id ≠ observed then do
        Fallible.update fun state => { state with forked := true }
        throw .fork
      else pure ()
    | none =>
      if state.observed.size = maxObservedPolicies then do
        Fallible.update fun state => { state with observationOverflow := true }
        throw .capacity
      else
        Fallible.update fun state => { state with observed := state.observed.insert update.claims.revision update.id }

def prepareSeal (sealHead : SealHead) : Except Error SealProof :=
  let prior := (state.sealedHead sealHead.author).getD .empty
  if sealHead.sequence < prior.sequence ∨ sealHead.sequence = prior.sequence ∧ sealHead.event ≠ prior.event then .error .fork
  else if sealHead.sequence = prior.sequence then .error .policy
  else .ok ⟨⟨state.room, sealHead.author, prior, none⟩, sealHead, state.head.id⟩

def prepareUpdate (signed : SignedPolicy crypto) : Except Error (PreparedPolicy crypto) := do
  require .fork !state.forked
  let update ← signed.verify
  state.checkOwner update
  require .fork (state.agrees update)
  let head := state.head
  require .replay !decide (update.claims.revision < head.revision)
  if update.claims.revision = head.revision then
    .error (if update.id = head.id then .duplicate else .fork)
  else do
    let next ← okOr .exhausted (checkedAdd head.revision 1)
    require .gap (update.claims.revision == next)
    require .fork (update.claims.previous == head.id)
    require .author (update.claims.sealedHeads.all fun sealHead => state.allows sealHead.author)
    let added := (update.claims.sealedHeads.filter fun sealHead => !state.sealedHeads.contains sealHead.author).length
    require .capacity (decide (state.sealedHeads.size + added ≤ maxSealedAuthors))
    let proofs ← update.claims.sealedHeads.mapM state.prepareSeal
    let closed := ⟨state.room, head.id, update.id, state.writers, update.claims.sealedHeads⟩
    pure ⟨state.room, head, update, closed, proofs⟩

/-- `self.sealed.insert` for every proof. -/
def install (proofs : List SealProof) (heads : Std.ExtTreeMap Bytes32 AuthorHead compare) :
    Std.ExtTreeMap Bytes32 AuthorHead compare :=
  Maps.insertAll (fun proof => proof.target.author) (fun proof => proof.chain.head) heads proofs

def commitAfterPersist (prepared : PreparedPolicy crypto) : Fallible Error (PolicyState crypto) ClosedPolicy := do
  examine fun state => require .fork !state.forked
  examine fun state => require .staleBase (prepared.room == state.room && prepared.base == state.head)
  examine fun _ => require .gap prepared.isReady
  examine fun state => require .fork (state.agrees prepared.update)
  update fun state => { state with sealedHeads := install prepared.proofs state.sealedHeads }
  update fun state => { state with current := some prepared.update }
  update fun state => { state with observed := state.observed.erase state.head.revision }
  pure prepared.closed

def compareRetained (retained : VerifiedPolicy crypto) (offered : SignedPolicy crypto) : Except Error Unit := do
  let offered ← offered.verify
  state.checkOwner retained
  state.checkOwner offered
  require .sequence (retained.claims.revision == offered.claims.revision)
  .error (if retained.id = offered.id then .duplicate else .fork)

def observeRetainedAfterPersist (retained : VerifiedPolicy crypto) (offered : SignedPolicy crypto) :
    Fallible Error (PolicyState crypto) Unit := do
  let result ← view fun state => state.compareRetained retained offered
  if result = .error .fork then
    update fun state => { state with forked := true }
  match result with
  | .ok () => pure ()
  | .error e => throw e

end PolicyState

/-! ### Author chains -/

namespace AuthorChain

def new (crypto : Crypto) (room : RoomId) (author : Bytes32) : Except Error AuthorChain := do
  require .scope (room != .zero)
  checkedKey crypto author
  pure ⟨room, author, .empty, none⟩

variable (chain : AuthorChain)

def checkFreshAnchor (policy : PolicyState crypto) : Except Error Unit :=
  match policy.sealedHead chain.author with
  | none => .ok ()
  | some sealHead =>
    if chain.head.sequence < sealHead.sequence then .error .gap
    else if chain.head.sequence = sealHead.sequence then require .fork (chain.head == sealHead)
    else require .gap (chain.checkedSeal == some sealHead)

def checkedAnchorAfter (event : VerifiedEvent crypto) (policy : PolicyState crypto) : Except Error (Option AuthorHead) := do
  require .scope (policy.room == chain.room)
  match policy.sealedHead chain.author with
  | none => pure none
  | some sealHead =>
    if chain.head.sequence < sealHead.sequence then
      if event.claims.sequence = sealHead.sequence then do
        require .fork (event.id == sealHead.event)
        pure (some sealHead)
      else pure none
    else do
      chain.checkFreshAnchor policy
      pure (some sealHead)

def authoringHead (policy : PolicyState crypto) : Except Error AuthorHead := do
  policy.freshAdmission
  require .scope (policy.room == chain.room)
  require .author (policy.allows chain.author)
  chain.checkFreshAnchor policy
  pure chain.head

def prepareNext (event : VerifiedEvent crypto) (policy : PolicyState crypto) : Except Error (PreparedEvent crypto) := do
  policy.freshAdmission
  require .scope (policy.room == chain.room)
  require .policy (event.claims.policy == policy.head.id)
  let _ ← chain.authoringHead policy
  chain.checkNext event
  pure ⟨⟨chain.room, chain.author, chain.head, event⟩, policy.head⟩

def prepareContinuity (event : VerifiedEvent crypto) (policy : PolicyState crypto) :
    Except Error (PreparedContinuity crypto) := do
  chain.checkNext event
  let _ ← chain.checkedAnchorAfter event policy
  pure ⟨chain.room, chain.author, chain.head, event⟩

def commitContinuityAfterPersist (prepared : PreparedContinuity crypto) (policy : PolicyState crypto) :
    Fallible Error AuthorChain Unit := do
  examine fun chain => require .staleBase
    (prepared.room == chain.room && prepared.author == chain.author && prepared.base == chain.head)
  let checkedSeal ← examine fun chain => chain.checkedAnchorAfter prepared.event policy
  update fun chain => { chain with head := headOf prepared.event }
  update fun chain => { chain with checkedSeal }

def commitAfterPersist (prepared : PreparedEvent crypto) (policy : PolicyState crypto) : Fallible Error AuthorChain Unit := do
  examine fun _ => policy.freshAdmission
  examine fun chain => require .stalePolicy (policy.room == chain.room && prepared.policy == policy.head)
  examine fun chain => chain.checkFreshAnchor policy
  commitContinuityAfterPersist prepared.step policy

def prepareAnchorReconciliation (policy : PolicyState crypto) : Except Error AnchorReconciliation := do
  require .scope (policy.room == chain.room)
  let sealHead ← okOr .policy (policy.sealedHead chain.author)
  require .gap !decide (chain.head.sequence < sealHead.sequence)
  require .fork !(chain.head.sequence == sealHead.sequence && chain.head != sealHead)
  pure ⟨chain.room, chain.author, policy.head, sealHead, chain.head, sealHead⟩

end AuthorChain

namespace AnchorReconciliation

def isReady (proof : AnchorReconciliation) : Bool := proof.progress == proof.target

def pushEvent (proof : AnchorReconciliation) (chain : AuthorChain) (event : VerifiedEvent crypto) : Except Error AuthorChain := do
  require .bounds (decide (event.claims.sequence ≤ proof.target.sequence))
  chain.checkNext event
  require .fork !((headOf event).sequence == proof.target.sequence && headOf event != proof.target)
  pure { chain with head := headOf event }

def push (page : List (VerifiedEvent crypto)) : Fallible Error AnchorReconciliation Unit := do
  examine fun _ => require .bounds (!page.isEmpty && decide (page.length ≤ maxChainPage))
  let chain ← examine fun proof => page.foldlM proof.pushEvent ⟨proof.room, proof.author, proof.progress, none⟩
  update fun proof => { proof with progress := chain.head }

end AnchorReconciliation

def AuthorChain.reconcileAnchor (proof : AnchorReconciliation) (policy : PolicyState crypto) : Fallible Error AuthorChain Unit := do
  examine fun chain => require .staleBase
    (proof.room == chain.room && proof.author == chain.author && proof.target == chain.head)
  examine fun chain => require .stalePolicy
    (policy.room == chain.room && policy.head == proof.policy && policy.sealedHead chain.author == some proof.sealHead)
  examine fun _ => require .gap proof.isReady
  update fun chain => { chain with checkedSeal := some proof.sealHead }

end Valhalla.DirectRoom
