import RoundChain.Crypto.Bls12381.Group
import RoundChain.Error

/-!
# Threshold signatures

Every party of a threshold construction signs the same message with its own key.
Any `threshold` of these partial signatures add up to one signature, which is
valid under the sum of the parties' public keys. Keys and signatures are points of a
pair of curves; what is done with the points is the business of a library, and
`Library` is what it has to offer.

Reading a key or a signature checks that it is a point of its curve. Whether it
lies in the right subgroup is checked where it matters: when it is verified and
when it enters a sum.
-/

namespace RoundChain.Bls12381

/-- The domain in which block hashes are signed. -/
def signingTag : Bytes := Bytes.ofText "BLOCK_STREAM_BLS_SIG_BLS12381G2_XMD:SHA-256_SSWU_RO_NUL_"

/-- Bytes of a public key. -/
def publicKeyLength : Nat := 48

/-- Bytes of a signature. -/
def signatureLength : Nat := 96

/-! ### Keys -/

/-- A public key. -/
structure PublicKey where
  point : G1
  deriving DecidableEq, Repr

/-- A signature, of one party or of several. -/
structure Signature where
  point : G2
  deriving DecidableEq, Repr

/-- A party's key. -/
structure SecretKey where
  scalar : Nat
  deriving DecidableEq, Repr

/-- A library of signatures over pairings. -/
class Library where
  /-- The key that key material gives, or what is wrong with the material. -/
  keyOf : Bytes → Except String SecretKey
  publicKey : SecretKey → PublicKey
  /-- The signature of a message in a domain. -/
  sign : SecretKey → (message tag : Bytes) → Signature
  /-- Whether a signature is one of a message in a domain; neither an invalid key nor an invalid
  signature will do. -/
  verify : PublicKey → (message tag : Bytes) → Signature → Bool
  /-- Whether a key may be used. -/
  isValidKey : PublicKey → Bool
  /-- Whether a signature may be used. -/
  isValidSignature : Signature → Bool
  sumKeys : List PublicKey → PublicKey
  sumSignatures : List Signature → Signature
  /-- Reads a compressed key. -/
  readKey? : Bytes → Option PublicKey
  /-- Reads a compressed signature. -/
  readSignature? : Bytes → Option Signature
  compressKey : PublicKey → Bytes
  compressSignature : Signature → Bytes

variable [Library]

namespace SecretKey

/-- The key that key material gives. -/
def ofMaterial (material : Bytes) : Except CryptoError SecretKey :=
  (Library.keyOf material).mapError .keyGenerationFailed

/-- The public half. -/
def publicKey (key : SecretKey) : PublicKey := Library.publicKey key

/-- A party's signature of a message. -/
def sign (key : SecretKey) (message : Bytes) : Signature := Library.sign key message signingTag

end SecretKey

namespace PublicKey

/-- Reads a compressed key. -/
def ofBytes (bs : Bytes) : Except CryptoError PublicKey :=
  if bs.length ≠ publicKeyLength then .error (.invalidLength publicKeyLength bs.length)
  else
    match Library.readKey? bs with
    | some key => .ok key
    | none => .error .invalidPublicKey

/-- The compressed key. -/
def toBytes (key : PublicKey) : Bytes := Library.compressKey key

/-- Whether a key may be used. -/
def isValid (key : PublicKey) : Bool := Library.isValidKey key

/-- The sum of keys. -/
def aggregate (keys : List PublicKey) : Except CryptoError PublicKey :=
  if keys.isEmpty then .error (.invalidInput "empty key list")
  else if keys.all isValid then .ok (Library.sumKeys keys)
  else .error .aggregationFailed

/-- Whether a signature is one of a message under a key. -/
def verify (key : PublicKey) (message : Bytes) (signature : Signature) : Bool :=
  Library.verify key message signingTag signature

end PublicKey

namespace Signature

/-- Reads a compressed signature. -/
def ofBytes (bs : Bytes) : Except CryptoError Signature :=
  if bs.length ≠ signatureLength then .error (.invalidLength signatureLength bs.length)
  else
    match Library.readSignature? bs with
    | some signature => .ok signature
    | none => .error .invalidSignature

/-- The compressed signature. -/
def toBytes (signature : Signature) : Bytes := Library.compressSignature signature

/-- Whether a signature may be used. -/
def isValid (signature : Signature) : Bool := Library.isValidSignature signature

/-- The sum of signatures. -/
def aggregate (signatures : List Signature) : Except CryptoError Signature :=
  if signatures.isEmpty then .error (.invalidInput "empty signature list")
  else if signatures.all isValid then .ok (Library.sumSignatures signatures)
  else .error .aggregationFailed

end Signature

/-! ### Partial signatures -/

/-- A party's contribution to a signature. -/
structure PartialSignature where
  party : UInt64
  signature : Signature
  deriving DecidableEq, Repr

/-- The first contribution of each party, of contributions in the order of their parties. -/
def firstOfEach : List PartialSignature → List PartialSignature
  | [] => []
  | p :: rest =>
    match firstOfEach rest with
    | [] => [p]
    | q :: more => if p.party = q.party then p :: more else p :: q :: more

/-- Adds up the contributions of the `threshold` lowest parties. -/
def aggregatePartials (partials : List PartialSignature) (threshold : Nat) :
    Except CryptoError Signature :=
  let ordered := firstOfEach (partials.mergeSort fun a b => decide (a.party ≤ b.party))
  if threshold = 0 ∨ ordered.length < threshold then
    .error (.notEnoughPartials ordered.length threshold)
  else
    Signature.aggregate ((ordered.take threshold).map (·.signature))

end RoundChain.Bls12381
