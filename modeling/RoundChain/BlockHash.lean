import RoundChain.Hash.Sha512

/-!
# Block hashes

A `BlockHash` is a SHA-384 digest: it names a block, the sequence of a block's
items, or a ledger state. Its length is part of the type, so whatever carries one
carries exactly 48 bytes.
-/

namespace RoundChain

/-- A digest of 48 bytes. -/
structure BlockHash where
  bytes : Bytes
  length_bytes : bytes.length = 48
  deriving DecidableEq

namespace BlockHash

@[ext] theorem ext {a b : BlockHash} (h : a.bytes = b.bytes) : a = b := by
  cases a; cases b; cases h; rfl

/-- The hash whose every byte is `b`. -/
def filled (b : UInt8) : BlockHash := ⟨List.replicate 48 b, by simp⟩

/-- What the first block of a network names as its predecessor. -/
def zero : BlockHash := filled 0

instance : Inhabited BlockHash := ⟨zero⟩

/-- SHA-384 of a message, as a hash. -/
def sha384 (message : Bytes) : BlockHash := ⟨Sha512.sha384 message, Sha512.length_sha384 message⟩

/-- The hash with the given bytes, if there are 48 of them. -/
def ofBytes? (bs : Bytes) : Option BlockHash :=
  if h : bs.length = 48 then some ⟨bs, h⟩ else none

/-- Reads 96 hexadecimal digits of either case. -/
def ofHex? (text : String) : Option BlockHash := (Bytes.ofHex? text).bind ofBytes?

/-- The 96 digits of a hash. -/
def toHex (h : BlockHash) : String := Bytes.toHex h.bytes

/-- The twelve digits of a hash's first six bytes, for messages to people. -/
def short (h : BlockHash) : String := Bytes.toHex (h.bytes.take 6)

/-- A hash as diagnostics show it. -/
def describe (h : BlockHash) : String := "BlockHash(" ++ h.short ++ "..)"

instance : Repr BlockHash := ⟨fun h _ => h.describe⟩

theorem ofBytes?_eq_some_iff {bs : Bytes} {h : BlockHash} : ofBytes? bs = some h ↔ h.bytes = bs := by
  unfold ofBytes?
  split
  · rename_i hl
    constructor
    · intro e; cases e; rfl
    · intro e; exact congrArg some (BlockHash.ext e.symm)
  · rename_i hl
    constructor
    · intro e; cases e
    · intro e; exact absurd (e ▸ h.length_bytes) hl

end BlockHash

end RoundChain
