import RoundChain.Crypto.Bls12381.Scheme
import RoundChain.Crypto.Ed25519.Scheme
import RoundChain.Store.Compression
import RoundChain.Zstandard.RoundTrip

/-!
# The libraries of the program

Compression and the two kinds of signatures come from libraries. Whatever is said of the
program is said of any such libraries; these are the ones it runs with.
-/

namespace RoundChain

/-- Block files are compressed in the Zstandard format. -/
instance zstandard : Compression where
  compress := Zstandard.compress
  decompress bs := (Zstandard.decompress bs).mapError Zstandard.Fault.message
  decompress_compress content := by rw [Zstandard.decompress_compress]; rfl

/-- Address books are endorsed with Ed25519. -/
instance ed25519 : Ed25519.Library where
  publicKey := Ed25519.Scheme.publicKey
  sign := Ed25519.Scheme.sign
  isPoint := Ed25519.Scheme.isPoint
  verifyStrict := Ed25519.Scheme.verifyStrict

/-- Threshold signatures are made over BLS12-381. -/
instance bls12381 : Bls12381.Library where
  keyOf := Bls12381.Scheme.keyOf
  publicKey := Bls12381.Scheme.publicKey
  sign := Bls12381.Scheme.sign
  verify := Bls12381.Scheme.verify
  isValidKey := Bls12381.Scheme.isValidKey
  isValidSignature := Bls12381.Scheme.isValidSignature
  sumKeys keys := ⟨Point.sum (keys.map (·.point))⟩
  sumSignatures signatures := ⟨Point.sum (signatures.map (·.point))⟩
  readKey? bs := (Bls12381.G1.ofBytes? bs).map Bls12381.PublicKey.mk
  readSignature? bs := (Bls12381.G2.ofBytes? bs).map Bls12381.Signature.mk
  compressKey key := key.point.toBytes
  compressSignature signature := signature.point.toBytes

end RoundChain
