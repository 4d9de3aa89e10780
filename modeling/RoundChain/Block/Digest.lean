import RoundChain.Frame
import RoundChain.Hash.Hasher

/-!
# Block digests

The hash of a block binds its items and its whole past:

* the items' hash is SHA-384 of the items' frames, one after the other;
* the block's hash is SHA-384 of the previous block's hash and the items' hash.

The proof that ends a written block signs this hash and is no part of it. An open
block keeps the items' hash running in an `ItemsHasher`, so that closing it does
not read its items again.
-/

namespace RoundChain

/-- The hash of a sequence of items as it grows, with their number. -/
structure ItemsHasher where
  hasher : Hasher
  count : Nat
  deriving DecidableEq, Repr

namespace ItemsHasher

/-- The hasher of no items. -/
def new : ItemsHasher := ⟨Hasher.new, 0⟩

/-- Takes another item, unless it is too long for a frame. -/
def absorb (h : ItemsHasher) (item : Bytes) : Except StreamError ItemsHasher := do
  let framed ← frame item
  return ⟨h.hasher.update framed, h.count + 1⟩

/-- The hash of the items taken so far. -/
def finish (h : ItemsHasher) : BlockHash := ⟨h.hasher.finish, h.hasher.length_finish⟩

/-- A hasher as diagnostics show it. -/
def describe (h : ItemsHasher) : String := s!"ItemsHasher \x7b count: {h.count} \x7d"

end ItemsHasher

/-- The hash of a sequence of items: of their frames, one after the other. -/
def itemsHash (items : List Bytes) : Except StreamError BlockHash :=
  (frameItems items).map BlockHash.sha384

/-- The hash of a block from its predecessor's and its items'. -/
def combine (previous items : BlockHash) : BlockHash := .sha384 (previous.bytes ++ items.bytes)

/-- The hash of a block that follows `previous` and holds `items`. -/
def blockHash (previous : BlockHash) (items : List Bytes) : Except StreamError BlockHash :=
  (itemsHash items).map (combine previous)

/-- The signature that needs no key: SHA-384 of the hash. -/
def trivialSignature (hash : BlockHash) : Bytes := (BlockHash.sha384 hash.bytes).bytes

end RoundChain
