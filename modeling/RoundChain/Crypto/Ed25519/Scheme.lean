import RoundChain.Crypto.Ed25519.Group
import RoundChain.Crypto.Ed25519.Signature
import RoundChain.Hash.Sha512

/-!
# Ed25519

The signatures themselves. Verification is strict: the scalar must be reduced, neither
the key nor the signature's point may have small order, and the point must be written
in its one canonical form.
-/

namespace RoundChain.Ed25519.Scheme

open Sha512 (sha512)

/-- The scalar that a digest gives. -/
def scalarOf (digest : Bytes) : Nat := Bytes.toNatLE digest % order

/-- The digest that the secret scalar and the nonces are drawn from. -/
def expanded (key : SecretKey) : Bytes := sha512 key.seed

/-- The secret scalar: three low bits are clear, and the highest set bit is always the same. -/
def scalar (key : SecretKey) : Nat :=
  let n := Bytes.toNatLE ((expanded key).take 32)
  n % (1 <<< 254) / 8 * 8 + (1 <<< 254)

/-- The public half of a key. -/
def publicKey (key : SecretKey) : PublicKey := ⟨(EdwardsPoint.base.smul (scalar key)).toBytes⟩

/-- Signs a message. -/
def sign (key : SecretKey) (message : Bytes) : Signature :=
  let nonce := scalarOf (sha512 ((expanded key).drop 32 ++ message))
  let point := (EdwardsPoint.base.smul nonce).toBytes
  let challenge := scalarOf (sha512 (point ++ (publicKey key).bytes ++ message))
  ⟨point ++ Bytes.ofNatLE 32 ((nonce + challenge * scalar key) % order), by
    rw [List.length_append, EdwardsPoint.length_toBytes, Bytes.length_ofNatLE]⟩

/-- Whether bytes spell a point. -/
def isPoint (bs : Bytes) : Bool := (EdwardsPoint.ofBytes? bs).isSome

/-- Whether a signature is strictly one of a message under a key. -/
def verifyStrict (key : PublicKey) (message : Bytes) (signature : Signature) : Bool :=
  let r := signature.bytes.take 32
  let s := Bytes.toNatLE (signature.bytes.drop 32)
  match EdwardsPoint.ofBytes? key.bytes, EdwardsPoint.ofBytes? r with
  | some point, some rPoint =>
    let challenge := scalarOf (sha512 (r ++ key.bytes ++ message))
    s < order && !rPoint.hasSmallOrder && !point.hasSmallOrder &&
      ((EdwardsPoint.base.smul s).add (point.neg.smul challenge)).toBytes == r
  | _, _ => false

end RoundChain.Ed25519.Scheme
