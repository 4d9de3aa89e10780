import RoundChain.BlockHash

/-!
# Binary codecs

A `Codec` writes values as bytes and reads them back from the front of a byte
string. The layout is fixed: little-endian words, a four-byte tag before each
alternative, a one-byte tag before what may be absent, an eight-byte length before
each sequence.

## The model

Reading answers with the value and the bytes after it, so codecs compose: a pair
is written side by side and read one after the other. A codec is `Exact` for the
values of a kind when reading finds such a value exactly where its writing stands,
and finds no other value. Sequences are why there are kinds: no more elements than a
word counts can be read back.
-/

namespace RoundChain

/-- Why bytes spell no value. -/
inductive DecodeError where
  /-- The input ends inside a word, a tag or an element. -/
  | endOfInput
  /-- The input ends inside a hash. -/
  | hashCut
  /-- A hash of a length other than 48. -/
  | hashLength (length : Nat)
  /-- A tag of no alternative, with the number of alternatives. -/
  | alternative (tag : UInt32) (count : Nat)
  /-- A tag of neither presence nor absence. -/
  | presence (tag : UInt8)
  deriving DecidableEq, Repr

/-- The wording of a decoding failure. -/
def DecodeError.message : DecodeError → String
  | endOfInput => "io error: unexpected end of file"
  | hashCut => "io error: "
  | hashLength length => s!"invalid length {length}, expected an byte array of size 48"
  | alternative tag count =>
    s!"invalid value: integer `{tag}`, expected variant index 0 <= i < {count}"
  | presence tag => s!"tag for enum is not valid, found {tag}"

/-- How the values of a type are written and read. -/
structure Codec (α : Type) where
  encode : α → Bytes
  decode : Bytes → Except DecodeError (α × Bytes)

namespace Codec

/-- Reading finds the `countable` values and no others, each exactly where its writing stands. A value
whose writing a word can measure is one of them. -/
structure Exact {α : Type} (countable : α → Prop) (c : Codec α) : Prop where
  decode_iff : ∀ bs x rest, c.decode bs = .ok (x, rest) ↔ countable x ∧ bs = c.encode x ++ rest
  countable_of_length : ∀ x, (c.encode x).length < UInt64.size → countable x

/-! ### Words -/

/-- The little-endian number of `width` bytes at the front. -/
def decodeNat (width : Nat) (bs : Bytes) : Except DecodeError (Nat × Bytes) :=
  let front := bs.take width
  if front.length = width then .ok (Bytes.toNatLE front, bs.drop width) else .error .endOfInput

/-- One byte. -/
def word8 : Codec UInt8 where
  encode x := [x]
  decode
    | [] => .error .endOfInput
    | x :: rest => .ok (x, rest)

/-- Four bytes. -/
def word32 : Codec UInt32 where
  encode x := Bytes.ofNatLE 4 x.toNat
  decode bs := (decodeNat 4 bs).map fun (n, rest) => (UInt32.ofNat n, rest)

/-- Eight bytes. -/
def word64 : Codec UInt64 where
  encode x := Bytes.ofNatLE 8 x.toNat
  decode bs := (decodeNat 8 bs).map fun (n, rest) => (UInt64.ofNat n, rest)

/-! ### Composition -/

/-- Two values side by side. -/
def pair {α β : Type} (a : Codec α) (b : Codec β) : Codec (α × β) where
  encode x := a.encode x.1 ++ b.encode x.2
  decode bs := do
    let (x, bs) ← a.decode bs
    let (y, bs) ← b.decode bs
    return ((x, y), bs)

/-- The same bytes read as another type. -/
def imap {α β : Type} (c : Codec α) (f : α → β) (g : β → α) : Codec β where
  encode y := c.encode (g y)
  decode bs := (c.decode bs).map fun (x, rest) => (f x, rest)

/-- Reads the rest of an alternative. -/
def decodeAs {α β : Type} (c : Codec α) (f : α → β) (bs : Bytes) : Except DecodeError (β × Bytes) :=
  (c.decode bs).map fun (x, rest) => (f x, rest)

/-- A value that may be absent. -/
def option {α : Type} (c : Codec α) : Codec (Option α) where
  encode
    | none => [0]
    | some x => 1 :: c.encode x
  decode
    | [] => .error .endOfInput
    | tag :: rest =>
      if tag = 0 then .ok (none, rest)
      else if tag = 1 then c.decodeAs some rest
      else .error (.presence tag)

/-- Reads `n` values one after the other. -/
def decodeMany {α : Type} (c : Codec α) : Nat → Bytes → Except DecodeError (List α × Bytes)
  | 0, bs => .ok ([], bs)
  | n + 1, bs => do
    let (x, bs) ← c.decode bs
    let (xs, bs) ← decodeMany c n bs
    return (x :: xs, bs)

/-- A sequence behind its length. -/
def list {α : Type} (c : Codec α) : Codec (List α) where
  encode xs := Bytes.ofNatLE 8 xs.length ++ xs.flatMap c.encode
  decode bs := do
    let (n, bs) ← decodeNat 8 bs
    decodeMany c n bs

/-- A byte string behind its length. -/
def bytes : Codec Bytes where
  encode xs := Bytes.ofNatLE 8 xs.length ++ xs
  decode bs := do
    let (n, bs) ← decodeNat 8 bs
    let front := bs.take n
    if front.length = n then return (front, bs.drop n) else .error .endOfInput

/-- A hash, as a byte string of its length. -/
def hash : Codec BlockHash where
  encode h := Bytes.ofNatLE 8 48 ++ h.bytes
  decode bs := do
    let (n, bs) ← decodeNat 8 bs
    let front := bs.take n
    if front.length = n then
      match BlockHash.ofBytes? front with
      | some h => return (h, bs.drop n)
      | none => .error (.hashLength n)
    else .error .hashCut

end Codec

end RoundChain
