import Valhalla.Lib.Weights
import Valhalla.Rooms.Registry
import Valhalla.RoomsConsensus.Batch
import Valhalla.Social.Archive

/-!
# The application behind the batches (`Application` of `vhalla-rooms-consensus`)

The evidence archive and the room registry at the frontier of the committed batches. A batch is prepared from a body,
or validated, by replaying it on copies of both.
-/

namespace Valhalla.RoomsConsensus
open Fallible FixedWidth Social Check

/-- One day. -/
def maxTimeDrift : UInt64 := 86400
def minRotationNotice : UInt64 := 2

inductive ApplyError
  | decode | parent | result
  | ingest (e : Social.Error)
  | social (e : Social.Error)
  | rooms (e : Rooms.Error)
  | registry (e : Rooms.RegistryError)
  | bounds | clock | rotation
deriving DecidableEq, Repr

variable {crypto : Crypto}

/-- A batch that was replayed, with the states it leads to. -/
structure Checked (crypto : Crypto) where
  batch : Batch
  social : Archive crypto
  registry : Rooms.Registry crypto
  next : Frontier

structure Application (crypto : Crypto) where
  social : Archive crypto
  registry : Rooms.Registry crypto
  frontier : Frontier

def controlOf (social : Archive crypto) (registry : Rooms.Registry crypto) (time : UInt64) : Bytes32 :=
  registry.authority.snapshot (ControlView.new social.evidence time)

/-! ### Replay -/

def ingestItem (acc : Archive crypto × InputBudget) (raw : List UInt8) : Except ApplyError (Archive crypto × InputBudget) :=
  match exec (Archive.ingest raw) acc with
  | (.ok _, next) => .ok next
  | (.error e, _) => .error (.ingest e)

def onRegistry {α : Type} (m : Rooms.RegistryM crypto α) (registry : Rooms.Registry crypto) :
    Except ApplyError (Rooms.Registry crypto) :=
  match exec m registry with
  | (.ok _, next) => .ok next
  | (.error e, _) => .error (.registry e)

def awardItem (view : ControlView) (time : UInt64) (registry : Rooms.Registry crypto) (raw : List UInt8) :
    Except ApplyError (Rooms.Registry crypto) := do
  let record ← (Social.VerifiedRecord.decode raw).mapError .social
  pure (exec (Rooms.award record view time) registry).2

def applyItem (view : ControlView) (time : UInt64) (registry : Rooms.Registry crypto) (raw : List UInt8) :
    Except ApplyError (Rooms.Registry crypto) := do
  let signed ← (Rooms.SignedRecord.decode raw).mapError .rooms
  let record ← (Rooms.VerifiedRecord.new signed).mapError .rooms
  onRegistry (Rooms.applyRecord record view time) registry

namespace Application
variable (app : Application crypto)

/-- The clock that a batch may have: any before the first batch, afterwards one day of progress at most. -/
def boundTime (time : UInt64) : UInt64 :=
  if app.frontier.time = 0 then time
  else if time < app.frontier.time then app.frontier.time
  else if saturatingAdd app.frontier.time maxTimeDrift < time then saturatingAdd app.frontier.time maxTimeDrift
  else time

def ingestAll (evidence : List (List UInt8)) : Except ApplyError (Archive crypto) := do
  let budget ← (InputBudget.new (evidence.length * 2) (Weights.total List.length evidence)).mapError .ingest
  let (social, _) ← evidence.foldlM ingestItem (app.social, budget)
  pure social

def applyEligible (time : UInt64) (eligible : Option (List OwnerId)) (registry : Rooms.Registry crypto) :
    Except ApplyError (Rooms.Registry crypto) :=
  match eligible with
  | none => pure registry
  | some set => onRegistry (Rooms.setEligible set time) registry

def applyRotation (time : UInt64) (rotation : Option CommittedRotation) (registry : Rooms.Registry crypto) :
    Except ApplyError (Rooms.Registry crypto) :=
  match rotation with
  | none => pure registry
  | some rotation => do
    require .rotation !decide (rotation.fromHeight ≤ saturatingAdd app.frontier.height minRotationNotice)
    onRegistry (Rooms.applyRotation rotation.fromHeight rotation.validators time) registry

def replay (time : UInt64) (body : BatchBody) : Except ApplyError (Archive crypto × Rooms.Registry crypto) := do
  let social ← app.ingestAll body.evidence
  let view := ControlView.new social.evidence time
  let registry ← body.evidence.foldlM (awardItem view time) app.registry
  let registry ← body.records.foldlM (applyItem view time) registry
  let registry ← applyEligible time body.eligible registry
  let registry ← app.applyRotation time body.rotation registry
  pure (social, registry)

def checkItems (body : BatchBody) : Except ApplyError Unit :=
  require .bounds !(decide (body.evidence.length > maxBatchItems) || decide (body.records.length > maxBatchItems) ||
    decide (body.games.length > maxGameCommitments))

def nextFrontier (batch : Batch) : Frontier where
  height := app.frontier.height + 1
  value := batch.valueId crypto
  registry := batch.resultRegistry
  social := batch.resultSocial
  control := batch.resultControl
  time := batch.time

def assemble (body : BatchBody) (social : Archive crypto) (registry : Rooms.Registry crypto) : Batch :=
  { body with
    parent := app.frontier
    resultRegistry := registry.digest
    resultSocial := social.root.bytes
    resultControl := controlOf social registry body.time }

def prepareWithGames (body : BatchBody) : Except ApplyError (Checked crypto) := do
  checkItems body
  let time := app.boundTime body.time
  let (social, registry) ← app.replay time body
  let batch := app.assemble { body with time } social registry
  require .bounds !decide (batch.encode.length > maxBatchBytes)
  pure ⟨batch, social, registry, app.nextFrontier batch⟩

def validate (batch : Batch) : Except ApplyError (Checked crypto) := do
  require .parent (batch.parent == app.frontier)
  checkItems batch.toBatchBody
  require .clock (batch.time == app.boundTime batch.time)
  let (social, registry) ← app.replay batch.time batch.toBatchBody
  require .result !(registry.digest != batch.resultRegistry || social.root.bytes != batch.resultSocial ||
    controlOf social registry batch.time != batch.resultControl)
  pure ⟨batch, social, registry, app.nextFrontier batch⟩

def applyLocally (checked : Checked crypto) : Application crypto := ⟨checked.social, checked.registry, checked.next⟩

def genesisDomain : List UInt8 := "vhalla/rooms/live-genesis/v1\x00".toUTF8.toList

def genesis (social : Archive crypto) (registry : Rooms.Registry crypto) : Application crypto :=
  let control := controlOf social registry 0
  let value := crypto.sha256 (genesisDomain ++ (registry.digest.toList ++ (social.root.bytes.toList ++ control.toList)))
  ⟨social, registry, ⟨0, value, registry.digest, social.root.bytes, control, 0⟩⟩

theorem prepareWithGames_body {app : Application crypto} {body : BatchBody} {checked : Checked crypto}
    (h : app.prepareWithGames body = .ok checked) :
    checked.batch.toBatchBody = { body with time := app.boundTime body.time } := by
  simp only [prepareWithGames, bind_eq_ok] at h
  obtain ⟨-, -, ⟨social, registry⟩, -, -, -, hpure⟩ := h
  cases hpure
  rfl

end Application

end Valhalla.RoomsConsensus
