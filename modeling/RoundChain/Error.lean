import RoundChain.Stop

/-!
# Causes of refusal

The three families of causes: of the stream (`StreamError`), of the store that
blocks are written to (`WriteError`), and of the signature schemes
(`CryptoError`). Each has one wording, `message`. A stream cause may be one the
caller can wait out (`recoverable`), one that ends production (`critical`), or
one that blames the order of the calls (`precondition`).
-/

namespace RoundChain

/-! ### The stream -/

/-- Why the stream refuses a call or stops producing. -/
inductive StreamError where
  /-- No chain to continue and no hash to anchor a new one at. -/
  | notInitialized
  /-- The anchor was already given, or rounds were already started. -/
  | alreadyInitialized
  /-- The call does not belong to the present phase. -/
  | orderingViolation (operation phase : String)
  /-- The round to end is not the one that is open. -/
  | roundMismatch (expected actual : UInt64)
  /-- The round to start does not follow the last one. -/
  | nonSequentialRound (previous actual : UInt64)
  /-- No block boundary was reached so far. -/
  | noBoundaryReached
  /-- A flush or a boundary out of turn. -/
  | flushProtocolViolation (phase : String)
  /-- The signer has not finished its bootstrap. -/
  | signerNotReady
  /-- A signature could not be made. -/
  | signing (text : String)
  /-- No signature within the attempts allowed. -/
  | signatureFailed (block : UInt64) (attempts : UInt32) (reason : String)
  /-- No successful write within the attempts allowed. -/
  | writerFailed (block : UInt64) (attempts : UInt32) (reason : String)
  /-- Production was stopped by an earlier failure. -/
  | halted (reason : String)
  /-- The stages behind intake are gone. -/
  | pipelineClosed
  /-- A value that was promised will never come. -/
  | abandoned (text : String)
  /-- Bytes that spell no value, or a value too large to be written. -/
  | serialization (text : String)
  /-- Settings the stream cannot run with. -/
  | invalidConfig (text : String)
  /-- A signature scheme refused its input. -/
  | crypto (text : String)
  /-- A block does not continue the chain. -/
  | chainBroken (block : UInt64) (reason : String)
  /-- What should not happen. -/
  | internal (text : String)
  deriving DecidableEq, Repr

namespace StreamError

/-- The wording of a cause. -/
def message : StreamError → String
  | notInitialized =>
    "Block stream not initialized: no persisted stream info and no last block hash"
  | alreadyInitialized => "Last block hash already initialized or rounds already started"
  | orderingViolation operation phase =>
    "Ordering violation: " ++ operation ++ " not allowed while " ++ phase
  | roundMismatch expected actual => s!"Round mismatch: open round is {expected}, got {actual}"
  | nonSequentialRound previous actual =>
    s!"Non-sequential round: previous {previous}, got {actual}"
  | noBoundaryReached => "No block boundary has been reached yet"
  | flushProtocolViolation phase =>
    "Boundary flush protocol violation: flush called while " ++ phase
  | signerNotReady => "Block hash signer is not ready"
  | signing text => "Signing error: " ++ text
  | signatureFailed block attempts reason =>
    s!"Signature for block {block} failed after {attempts} attempts: {reason}"
  | writerFailed block attempts reason =>
    s!"Write of block {block} failed after {attempts} attempts: {reason}"
  | halted reason => "Block stream halted: " ++ reason
  | pipelineClosed => "Block pipeline closed"
  | abandoned text => "Deferred value abandoned: " ++ text
  | serialization text => "Serialization error: " ++ text
  | invalidConfig text => "Invalid configuration: " ++ text
  | crypto text => "Crypto error: " ++ text
  | chainBroken block reason => s!"Chain verification failed at block {block}: {reason}"
  | internal text => "Internal error: " ++ text

/-- The name of a cause, as records keep it. -/
def name : StreamError → String
  | notInitialized => "NotInitialized"
  | alreadyInitialized => "AlreadyInitialized"
  | orderingViolation .. => "OrderingViolation"
  | roundMismatch .. => "RoundMismatch"
  | nonSequentialRound .. => "NonSequentialRound"
  | noBoundaryReached => "NoBoundaryReached"
  | flushProtocolViolation _ => "FlushProtocolViolation"
  | signerNotReady => "SignerNotReady"
  | signing _ => "Signing"
  | signatureFailed .. => "SignatureFailed"
  | writerFailed .. => "WriterFailed"
  | halted _ => "Halted"
  | pipelineClosed => "PipelineClosed"
  | abandoned _ => "Abandoned"
  | serialization _ => "Serialization"
  | invalidConfig _ => "InvalidConfig"
  | crypto _ => "Crypto"
  | chainBroken .. => "ChainBroken"
  | internal _ => "Internal"

/-- Whether the same call may succeed later. -/
def recoverable : StreamError → Bool
  | signerNotReady | signing _ | crypto _ => true
  | _ => false

/-- Whether production ends with this cause. -/
def critical : StreamError → Bool
  | signatureFailed .. | writerFailed .. | halted _ | chainBroken .. | internal _ => true
  | _ => false

/-- Whether the caller broke the order of calls. -/
def precondition : StreamError → Bool
  | notInitialized | alreadyInitialized | orderingViolation .. | roundMismatch ..
  | nonSequentialRound .. | noBoundaryReached | flushProtocolViolation _ => true
  | _ => false

end StreamError

/-! ### The store -/

/-- Why a store refuses a write. -/
inductive WriteError where
  /-- The file system refused. -/
  | io (text : String)
  /-- Items or a close without an open block. -/
  | noOpenBlock
  /-- Another block is open. -/
  | blockAlreadyOpen (opened requested : UInt64)
  /-- The block is stored with other content. -/
  | conflict (block : UInt64)
  /-- An item that cannot be framed. -/
  | malformed (text : String)
  /-- A setting this store does not have. -/
  | unsupported (text : String)
  /-- A failure asked for in a rehearsal. -/
  | injected (text : String)
  deriving DecidableEq, Repr

namespace WriteError

/-- The wording of a cause. -/
def message : WriteError → String
  | io text => "I/O error: " ++ text
  | noOpenBlock => "No block is open"
  | blockAlreadyOpen opened requested =>
    s!"Block {opened} is still open, cannot open block {requested}"
  | conflict block => s!"Block {block} already written with different content"
  | malformed text => "Malformed item buffer: " ++ text
  | unsupported text => "Unsupported writer option: " ++ text
  | injected text => "Injected failure: " ++ text

/-- The name of a cause, as records keep it. -/
def name : WriteError → String
  | io _ => "Io"
  | noOpenBlock => "NoOpenBlock"
  | blockAlreadyOpen .. => "BlockAlreadyOpen"
  | conflict _ => "Conflict"
  | malformed _ => "Malformed"
  | unsupported _ => "Unsupported"
  | injected _ => "Injected"

/-- Whether another attempt may succeed. -/
def retryable : WriteError → Bool
  | io _ | injected _ | blockAlreadyOpen .. => true
  | _ => false

end WriteError

/-! ### Signature schemes -/

/-- Why a signature scheme refuses. -/
inductive CryptoError where
  /-- A byte string of the wrong length. -/
  | invalidLength (expected actual : Nat)
  /-- The signature is not one of this message under this key. -/
  | signatureVerificationFailed
  /-- The bytes are no public key. -/
  | invalidPublicKey
  /-- The bytes are no signature. -/
  | invalidSignature
  /-- No key can be derived. -/
  | keyGenerationFailed (text : String)
  /-- A member of an aggregate is outside the group. -/
  | aggregationFailed
  /-- Fewer partial signatures than the threshold. -/
  | notEnoughPartials (held needed : Nat)
  /-- Any other unusable input. -/
  | invalidInput (text : String)
  deriving DecidableEq, Repr

namespace CryptoError

/-- The wording of a cause. -/
def message : CryptoError → String
  | invalidLength expected actual => s!"Invalid length: expected {expected}, got {actual}"
  | signatureVerificationFailed => "Signature verification failed"
  | invalidPublicKey => "Invalid public key"
  | invalidSignature => "Invalid signature"
  | keyGenerationFailed text => "Key generation failed: " ++ text
  | aggregationFailed => "BLS aggregation failed"
  | notEnoughPartials held needed => s!"Not enough partial signatures: have {held}, need {needed}"
  | invalidInput text => "Invalid input: " ++ text

/-- The name of a cause, as records keep it. -/
def name : CryptoError → String
  | invalidLength .. => "InvalidLength"
  | signatureVerificationFailed => "SignatureVerificationFailed"
  | invalidPublicKey => "InvalidPublicKey"
  | invalidSignature => "InvalidSignature"
  | keyGenerationFailed _ => "KeyGenerationFailed"
  | aggregationFailed => "AggregationFailed"
  | notEnoughPartials .. => "NotEnoughPartials"
  | invalidInput _ => "InvalidInput"

/-- A scheme's refusal as the stream reports it. -/
def toStreamError (e : CryptoError) : StreamError := .crypto e.message

end CryptoError

end RoundChain
