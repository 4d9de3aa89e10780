import RoundChain.Crypto.Bls12381.HashToCurve
import RoundChain.Crypto.Bls12381.Pairing
import RoundChain.Crypto.Bls12381.Signature

/-!
# Signatures over BLS12-381

The signatures themselves: a key is a scalar, its public half a multiple of the first
curve's generator, and a signature the same multiple of the message's point on the
second curve.
-/

namespace RoundChain.Bls12381.Scheme

open Sha256 (sha256 hkdf)

/-- A scalar from key material and a salt; it may be zero. -/
def candidate (salt material : Bytes) : Nat :=
  Bytes.toNatBE (hkdf salt (material ++ [0]) (Bytes.ofNatBE 2 48) 48) % order

/-- The first candidate that is not zero; the salt is digested once more for each. -/
def derive : Nat → Bytes → Bytes → Except String SecretKey
  | 0, _, _ => .error "no key"
  | tries + 1, salt, material =>
    let salt := sha256 salt
    let scalar := candidate salt material
    if scalar = 0 then derive tries salt material else .ok ⟨scalar⟩

/-- The key that key material of at least 32 bytes gives. -/
def keyOf (material : Bytes) : Except String SecretKey :=
  if material.length < 32 then .error "BLST_BAD_ENCODING"
  else derive 256 (Bytes.ofText "BLS-SIG-KEYGEN-SALT-") material

/-- The public half of a key. -/
def publicKey (key : SecretKey) : PublicKey := ⟨G1.generator.smul key.scalar⟩

/-- A party's signature of a message in a domain. -/
def sign (key : SecretKey) (message tag : Bytes) : Signature :=
  ⟨(hashToCurve message tag).smul key.scalar⟩

/-- Whether a key may be used: a point of the subgroup other than infinity. -/
def isValidKey (key : PublicKey) : Bool := key.point != .infinity && key.point.inSubgroup

/-- Whether a signature may be used: a point of the subgroup. -/
def isValidSignature (signature : Signature) : Bool := signature.point.inSubgroup

/-- Whether a signature is one of a message in a domain: its pairing with the generator is the pairing of
the key with the message's point. -/
def verify (key : PublicKey) (message tag : Bytes) (signature : Signature) : Bool :=
  isValidSignature signature && isValidKey key &&
    pairingsCancel [(key.point, hashToCurve message tag), (G1.generator.neg, signature.point)]

end RoundChain.Bls12381.Scheme
