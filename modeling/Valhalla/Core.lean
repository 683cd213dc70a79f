import Valhalla.Lib.FixedWidth
import Mathlib.Tactic.Common

/-!
# Shared vocabulary (`vhalla-core`), and the cryptography the crates call
-/

namespace Valhalla

abbrev Bytes32 := Vector UInt8 32
abbrev Signature := Vector UInt8 64

structure RealmId where
  value : BitVec 128
deriving DecidableEq, Repr

structure RoomId where
  value : BitVec 128
deriving DecidableEq, Repr

structure Crypto where
  sha256 : List UInt8 → Bytes32
  /-- `VerifyingKey::from_bytes` accepts the key. -/
  decodesKey : Bytes32 → Bool
  isWeak : Bytes32 → Bool
  verifyStrict : Bytes32 → List UInt8 → Signature → Bool

end Valhalla
