import RoundChain.Bytes
import RoundChain.Error

/-!
# History signatures

A node endorses an address book with a long-lived key: it signs the book's hash
followed by the metadata in force, with Ed25519. The curve is the business of a
library; `Library` is what it has to offer. Verification is its strict one.
-/

namespace RoundChain.Ed25519

/-- What is signed to endorse a book together with metadata. -/
def bindingMessage (book metadata : Bytes) : Bytes := book ++ metadata

/-- A public key, as the bytes it was given in; they spell a point. -/
structure PublicKey where
  bytes : Bytes
  deriving DecidableEq, Repr, Inhabited

/-- A signature: its point and its scalar, in 32 bytes each. -/
structure Signature where
  bytes : Bytes
  length_bytes : bytes.length = 64
  deriving DecidableEq, Repr

/-- A signing key, as the seed it is drawn from. -/
structure SecretKey where
  seed : Bytes
  deriving DecidableEq, Repr

/-- A library of Ed25519 signatures. -/
class Library where
  publicKey : SecretKey → PublicKey
  sign : SecretKey → Bytes → Signature
  /-- Whether bytes spell a point, as those of a key must. -/
  isPoint : Bytes → Bool
  /-- Whether a signature is strictly one of a message under a key. -/
  verifyStrict : PublicKey → Bytes → Signature → Bool

variable [Library]

namespace SecretKey

/-- The public half. -/
def publicKey (key : SecretKey) : PublicKey := Library.publicKey key

/-- Endorses a book together with metadata. -/
def signBinding (key : SecretKey) (book metadata : Bytes) : Signature :=
  Library.sign key (bindingMessage book metadata)

end SecretKey

/-- Reads a signature; any 64 bytes will do. -/
def Signature.ofBytes (bs : Bytes) : Except CryptoError Signature :=
  if h : bs.length = 64 then .ok ⟨bs, h⟩ else .error (.invalidLength 64 bs.length)

omit [Library] in
/-- A signature is read from its bytes. -/
@[simp] theorem Signature.ofBytes_bytes (signature : Signature) : ofBytes signature.bytes = .ok signature :=
  dif_pos signature.length_bytes

namespace PublicKey

/-- Reads a key: bytes that spell a point. -/
def ofBytes (bs : Bytes) : Except CryptoError PublicKey :=
  if Library.isPoint bs then .ok ⟨bs⟩ else .error .invalidPublicKey

/-- Checks an endorsement of a book together with metadata. -/
def verifyBinding (key : PublicKey) (book metadata : Bytes) (signature : Signature) :
    Except CryptoError Unit :=
  if Library.isPoint key.bytes then
    if Library.verifyStrict key (bindingMessage book metadata) signature then .ok ()
    else .error .signatureVerificationFailed
  else .error .invalidPublicKey

end PublicKey

end RoundChain.Ed25519
