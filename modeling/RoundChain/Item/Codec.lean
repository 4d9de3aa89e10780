import RoundChain.Codec.Basic
import RoundChain.Item.Basic

/-!
# The binary form of items

The parts of an item are written in the order in which they are declared.
`Item.encode` writes an item; `Item.decode` reads one from the front of a byte
string and pays no heed to what follows it.
-/

namespace RoundChain

namespace Codec

/-! ### Parts -/

/-- Seconds, then nanoseconds. -/
def timestamp : Codec Timestamp :=
  (word64.pair word32).imap (fun (s, n) => ⟨⟨s⟩, n⟩) (fun t => (t.seconds.toUInt64, t.nanos))

/-- The three parts of a version. -/
def version : Codec SoftwareVersion :=
  (word32.pair (word32.pair word32)).imap (fun (a, b, c) => ⟨a, b, c⟩)
    (fun v => (v.major, v.minor, v.patch))

/-- A stream's position. -/
def streamInfo : Codec StreamInfo :=
  ((option word64).pair (hash.pair ((list hash).pair ((option timestamp).pair version)))).imap
    (fun (n, h, hs, t, v) => ⟨n, h, hs, t, v⟩)
    (fun i => (i.lastNumber, i.lastHash, i.trailing, i.lastEndTime, i.createdBy))

/-- A platform state. -/
def platformState : Codec PlatformState :=
  (word64.pair timestamp).imap (fun (r, t) => ⟨r, t⟩) (fun s => (s.round, s.time))

/-- The tag of an alternative. -/
def tag (n : UInt32) : Bytes := word32.encode n

/-- A singleton's value behind the tag of its kind. -/
def singleton : Codec Singleton where
  encode
    | .streamInfo info => tag 0 ++ streamInfo.encode info
    | .platformState state => tag 1 ++ platformState.encode state
    | .other bs => tag 2 ++ bytes.encode bs
  decode bs := do
    let (t, bs) ← word32.decode bs
    if t = 0 then streamInfo.decodeAs .streamInfo bs
    else if t = 1 then platformState.decodeAs .platformState bs
    else if t = 2 then bytes.decodeAs .other bs
    else .error (.alternative t 3)

/-- An action behind the tag of its kind. -/
def action : Codec ChangeAction where
  encode
    | .singleton value => tag 0 ++ singleton.encode value
    | .put key value => tag 1 ++ (bytes.pair bytes).encode (key, value)
    | .delete key => tag 2 ++ bytes.encode key
    | .push element => tag 3 ++ bytes.encode element
    | .pop => tag 4
  decode bs := do
    let (t, bs) ← word32.decode bs
    if t = 0 then singleton.decodeAs .singleton bs
    else if t = 1 then (bytes.pair bytes).decodeAs (fun (k, v) => .put k v) bs
    else if t = 2 then bytes.decodeAs .delete bs
    else if t = 3 then bytes.decodeAs .push bs
    else if t = 4 then return (.pop, bs)
    else .error (.alternative t 5)

/-- One state change. -/
def stateChange : Codec StateChange :=
  (word32.pair action).imap (fun (i, a) => ⟨i, a⟩) (fun c => (c.stateId, c.action))

/-- A batch of state changes. -/
def changeBatch : Codec ChangeBatch :=
  (timestamp.pair (list stateChange)).imap (fun (t, cs) => ⟨t, cs⟩) (fun b => (b.time, b.changes))

/-- A signature scheme, as its tag alone. -/
def scheme : Codec SignatureScheme where
  encode
    | .trivial => tag 0
    | .threshold => tag 1
    | .historyWrapped => tag 2
    | .thresholdWithHistory => tag 3
  decode bs := do
    let (t, bs) ← word32.decode bs
    if t = 0 then return (.trivial, bs)
    else if t = 1 then return (.threshold, bs)
    else if t = 2 then return (.historyWrapped, bs)
    else if t = 3 then return (.thresholdWithHistory, bs)
    else .error (.alternative t 4)

/-- One node's signature. -/
def nodeSignature : Codec NodeSignature :=
  (word64.pair bytes).imap (fun (n, s) => ⟨n, s⟩) (fun s => (s.node, s.signature))

/-- A history proof. -/
def historyProof : Codec HistoryProof :=
  (hash.pair (bytes.pair (list nodeSignature))).imap (fun (b, m, s) => ⟨b, m, s⟩)
    (fun p => (p.book, p.metadata, p.signatures))

/-- A block signature. -/
def signature : Codec BlockSignature :=
  (scheme.pair (bytes.pair (option historyProof))).imap (fun (s, b, h) => ⟨s, b, h⟩)
    (fun s => (s.scheme, s.bytes, s.history))

/-- A block header. -/
def blockHeader : Codec BlockHeader :=
  (word64.pair (version.pair (word64.pair timestamp))).imap (fun (n, v, r, t) => ⟨n, v, r, t⟩)
    (fun h => (h.number, h.version, h.firstRound, h.time))

/-- A block proof. -/
def blockProof : Codec BlockProof :=
  (word64.pair (hash.pair (hash.pair signature))).imap (fun (n, p, s, g) => ⟨n, p, s, g⟩)
    (fun p => (p.number, p.previous, p.startState, p.signature))

/-! ### Items -/

/-- An item behind the tag of its kind. -/
def item : Codec Item where
  encode
    | .blockHeader header => tag 0 ++ blockHeader.encode header
    | .roundHeader round => tag 1 ++ word64.encode round
    | .eventHeader creator => tag 2 ++ word64.encode creator
    | .eventTransaction payload => tag 3 ++ bytes.encode payload
    | .transactionResult payload => tag 4 ++ bytes.encode payload
    | .stateChanges batch => tag 5 ++ changeBatch.encode batch
    | .blockProof proof => tag 6 ++ blockProof.encode proof
  decode bs := do
    let (t, bs) ← word32.decode bs
    if t = 0 then blockHeader.decodeAs .blockHeader bs
    else if t = 1 then word64.decodeAs .roundHeader bs
    else if t = 2 then word64.decodeAs .eventHeader bs
    else if t = 3 then bytes.decodeAs .eventTransaction bs
    else if t = 4 then bytes.decodeAs .transactionResult bs
    else if t = 5 then changeBatch.decodeAs .stateChanges bs
    else if t = 6 then blockProof.decodeAs .blockProof bs
    else .error (.alternative t 7)

end Codec

namespace Item

/-- The bytes of an item. -/
def encode (item : Item) : Bytes := Codec.item.encode item

/-- The item at the front of a byte string. -/
def decode (bs : Bytes) : Except DecodeError Item := (Codec.item.decode bs).map (·.1)

end Item

end RoundChain
