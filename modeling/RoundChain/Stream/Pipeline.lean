import RoundChain.Signing.Signer
import RoundChain.Store.Writer
import RoundChain.Stream.Intake

/-!
# Signing and writing

What happens to closed blocks. So many of them can be in signing at a time; they get
their places in the order in which they closed, and each is signed on its own.
Blocks are written strictly in order, each after its signature and its start state
are there. Signing and writing are tried several times. A failure that outlasts its
attempts halts production: the blocks behind it are dropped. Those that are being
signed get their signature all the same, and one more is taken up in vain before
the stream stops taking blocks.

`StreamState.perform` is one step on that way. Every step answers with the steps
that become due by it, and when.
-/

namespace RoundChain

variable {σ ω : Type}

/-! ### Attempts -/

/-- Signs a hash: the attempt with number `attempt` and, while they fail, up to `left` further ones.
Answers with the outcome and the number of the last attempt. -/
def signAttempts (signer : Signer σ) (number : UInt64) (hash : BlockHash) :
    Nat → UInt32 → σ → Metrics → (Except StreamError BlockSignature × UInt32) × σ × Metrics
  | left, attempt, s, m =>
    match signer.sign s hash, left with
    | (.ok signature, s), _ => ((.ok signature, attempt), s, m)
    | (.error e, s), 0 => ((.error (.signatureFailed number attempt e.message), attempt), s, m)
    | (.error _, s), left + 1 =>
      signAttempts signer number hash left (attempt + 1) s m.countSignatureRetry

/-- Signs a block's hash within the attempts allowed. -/
def signBlock (signer : Signer σ) (retry : RetryPolicy) (number : UInt64) (hash : BlockHash)
    (s : σ) (m : Metrics) : (Except StreamError BlockSignature × UInt32) × σ × Metrics :=
  signAttempts signer number hash (retry.attempts.toNat - 1) 1 s m

/-- The calls that write a block: its framed batches, then its proof. -/
def blockCalls (number : UInt64) (batches : List Bytes) (proof : Bytes) : List WriteCall :=
  .openBlock number :: batches.map .items ++ [.item proof, .closeBlock]

/-- Makes the calls that write a block: in attempt `attempt` and, while they fail in a way that may
pass, in up to `left` further ones. Answers with the outcome and the number of the last attempt. -/
def writeAttempts (writer : Writer ω) (number : UInt64) (calls : List WriteCall) :
    Nat → UInt32 → ω → Metrics → (Except StreamError Unit × UInt32) × ω × Metrics
  | left, attempt, w, m =>
    match writer.performAll w calls, left with
    | (.ok (), w), _ => ((.ok (), attempt), w, m)
    | (.error e, w), 0 => ((.error (.writerFailed number attempt e.message), attempt), w, m)
    | (.error e, w), left + 1 =>
      if e.retryable then writeAttempts writer number calls left (attempt + 1) w m.countWriteRetry
      else ((.error (.writerFailed number attempt e.message), attempt), w, m)

/-- Writes a block within the attempts allowed. -/
def writeBlock (writer : Writer ω) (retry : RetryPolicy) (number : UInt64) (calls : List WriteCall)
    (w : ω) (m : Metrics) : (Except StreamError Unit × UInt32) × ω × Metrics :=
  writeAttempts writer number calls (retry.attempts.toNat - 1) 1 w m

/-! ### Batches -/

/-- Items in groups of `size`, the last group smaller if need be; a group holds at least one item. -/
def chunks (size : Nat) (items : List Bytes) : List (List Bytes) :=
  match items with
  | [] => []
  | item :: rest => (item :: rest.take (size - 1)) :: chunks size (rest.drop (size - 1))
termination_by items.length
decreasing_by
  simp only [List.length_drop, List.length_cons]
  omega

/-- Items as framed buffers of at most `size` items each. -/
def frameBatches (size : Nat) (items : List Bytes) : Except StreamError (List Bytes) :=
  (chunks size items).mapM frameItems

/-! ### Steps -/

namespace Urgency

/-- Due at once. -/
def atOnce : Urgency := ⟨0, false⟩

/-- Due after a delay. -/
def after (delay : Nat) : Urgency := ⟨delay, false⟩

/-- Due after a delay, once nothing else is due then. -/
def yielding (delay : Nat) : Urgency := ⟨delay, true⟩

end Urgency

/-- Steps that have become due. -/
abbrev FollowUps := List (Urgency × Duty)

namespace StreamState

/-! ### Dropping blocks -/

/-- Gives up the wait for the supplied state hash, if one of the blocks waits for it. -/
def stopWaiting (s : StreamState) (starts : List StartState) : StreamState :=
  if starts.contains .supplied then { s with supplied := s.supplied.dropReader.2 } else s

/-- Stops production: the queued blocks are dropped. -/
def halt (s : StreamState) (e : StreamError) : StreamState :=
  let starts := s.queue.map (·.block.startState)
  { s with halted := some e.message, queue := [], writing := none }.stopWaiting starts

/-- Takes no more blocks, and drops those of the backlog. -/
def stopAccepting (s : StreamState) : StreamState :=
  let starts := s.backlog.map (·.startState)
  { s with accepting := false, backlog := [] }.stopWaiting starts

/-! ### Signing -/

/-- Whether one more block can be in signing. -/
def hasPlace (s : StreamState) : Bool := s.signings.length < s.config.maxInFlight

/-- Gives a block a place among the signings. -/
def startSigning (s : StreamState) (block : ClosedBlock) : StreamState :=
  { s with signings := s.signings ++ [⟨block.number, block.hash, false, none⟩] }

/-- Puts a block behind those that are to be written. -/
def enqueue (s : StreamState) (block : ClosedBlock) : StreamState :=
  { s with queue := s.queue ++ [⟨block, none⟩] }

/-- Begins signing the blocks at the front of the backlog, as far as there are places. Once production has
stopped, the first of them is signed in vain and the others are dropped. -/
def takeUpFrom (s : StreamState) : List ClosedBlock → StreamState × FollowUps
  | [] => ({ s with backlog := [] }, [])
  | block :: rest =>
    if s.hasPlace then
      let s := s.startSigning block
      if s.isLive then
        let (s, duties) := (s.enqueue block).takeUpFrom rest
        (s, (.atOnce, .sign block.number) :: (.atOnce, .consider) :: duties)
      else ({ s with backlog := block :: rest }.stopAccepting, [(.atOnce, .sign block.number)])
    else ({ s with backlog := block :: rest }, [])

/-- Begins signing blocks of the backlog. -/
def takeUp (s : StreamState) : StreamState × FollowUps := s.takeUpFrom s.backlog

/-- Asks whether the signer is ready; a signing that begins asks a second time. -/
def askReady (signer : Signer σ) (asked : Bool) (σ₀ : σ) : Bool × σ :=
  match signer.isReady σ₀ with
  | (true, σ₁) => (true, σ₁)
  | (false, σ₁) => if asked then (false, σ₁) else signer.isReady σ₁

/-- Sets what is known of a signing. -/
def setSigning (s : StreamState) (signing : Signing) : StreamState :=
  { s with signings := s.signings.map fun t => if t.number = signing.number then signing else t }

/-- The end of a signing: its place is free, and its outcome stands with the block if that is still
queued. -/
def endSigning (s : StreamState) (signing : Signing) (outcome : Except StreamError BlockSignature) :
    StreamState × FollowUps :=
  let queue := s.queue.map fun queued =>
    if queued.block.number = signing.number then { queued with signing := some outcome } else queued
  ({ s with signings := s.signings.filter (·.number != signing.number), queue },
    [(.atOnce, .takeUp), (.atOnce, .consider)])

/-- Goes on with a signing: once the signer is ready, the attempts are made, and their outcome is noticed
when the waits between them are over. A signer that has to be asked again is asked after a while; one that
something else must make ready is not asked for now. -/
def goOnSigning (signer : Signer σ) (s : StreamState) (signing : Signing) (σ₀ : σ) :
    StreamState × σ × FollowUps :=
  match askReady signer signing.asked σ₀ with
  | (false, σ₁) =>
    let again := if signer.patience σ₀ = 0 then []
      else [(.after s.config.readiness.pollMs.toNat, .sign signing.number)]
    (s.setSigning { signing with asked := true }, σ₁, again)
  | (true, σ₁) =>
    let retry := s.config.signingRetry
    let ((outcome, last), σ₂, metrics) := signBlock signer retry signing.number signing.hash σ₁ s.metrics
    let s := { s with metrics }
    match retry.totalBackoff (last.toNat - 1) with
    | 0 =>
      let (s, duties) := s.endSigning signing outcome
      (s, σ₂, duties)
    | wait =>
      (s.setSigning { signing with outcome := some outcome }, σ₂,
        [(.after wait, .noteSigned signing.number)])

/-- Goes on with the signing of a block, if it has not ended. -/
def signNumber (signer : Signer σ) (s : StreamState) (number : UInt64) (σ₀ : σ) :
    StreamState × σ × FollowUps :=
  match s.signings.find? (·.number == number) with
  | some ⟨number, hash, asked, none⟩ => s.goOnSigning signer ⟨number, hash, asked, none⟩ σ₀
  | _ => (s, σ₀, [])

/-- Notices that the signing of a block has ended. -/
def noteSigned (s : StreamState) (number : UInt64) : StreamState × FollowUps :=
  match s.signings.find? (·.number == number) with
  | some signing =>
    match signing.outcome with
    | some outcome => s.endSigning signing outcome
    | none => (s, [])
  | none => (s, [])

/-! ### Writing -/

/-- The hash of the state a block starts from: none while it may still come. -/
def resolve (s : StreamState) : StartState → Option (Except StreamError BlockHash)
  | .known hash => some (.ok hash)
  | .supplied =>
    match s.supplied.take.1 with
    | some (.value hash) => some (.ok hash)
    | some .pending => none
    | some .abandoned | none => some (.error Promise.abandonedError)
  | .notified round =>
    match s.delivered.find? round, s.slots.find? round with
    | some hash, _ => some (.ok hash)
    | none, some .awaited => none
    | none, _ => some (.error Promise.abandonedError)

/-- The calls that write a block with its proof. -/
def callsFor (s : StreamState) (block : ClosedBlock) (startState : BlockHash)
    (signature : BlockSignature) : Except StreamError (List WriteCall) := do
  let batches ← frameBatches s.config.batchSize block.items
  return blockCalls block.number batches (block.proofItem startState signature).encode

/-- The stream once its first queued block is stored. -/
def recordFinalized (s : StreamState) (block : ClosedBlock) : StreamState :=
  { s with
    queue := s.queue.tail
    finalized :=
      s.finalized.record block.number block.hash block.endTime s.config.trailingLimit
    lastFinalized := some block.number
    metrics := s.metrics.countFinalized 0 }

/-- Begins the write of a block whose signing has ended, if its start state is known. -/
def beginWrite (s : StreamState) (block : ClosedBlock) :
    Except StreamError BlockSignature → StreamState × FollowUps
  | .error e => (s.halt e, [])
  | .ok signature =>
    match s.resolve block.startState with
    | none => (s, [])
    | some (.error e) => (s.halt e, [])
    | some (.ok startState) =>
      ({ s with writing := some ⟨startState, signature, none⟩ }, [(.yielding 0, .write)])

/-- Begins the write of the first queued block, unless it has begun or has to wait. -/
def consider (s : StreamState) : StreamState × FollowUps :=
  match s.writing, s.queue with
  | none, ⟨block, some outcome⟩ :: _ => s.beginWrite block outcome
  | _, _ => (s, [])

/-- The end of a block's write: the block is stored and the next one is considered, or production stops. -/
def endWrite (s : StreamState) (block : ClosedBlock) :
    Except StreamError Unit → StreamState × FollowUps
  | .error e => (s.halt e, [])
  | .ok () => ({ s with writing := none }.recordFinalized block).consider

/-- Writes a block whose start state is known; the outcome is noticed when the waits between the attempts
are over. -/
def writeFirst (writer : Writer ω) (s : StreamState) (block : ClosedBlock) (write : BlockWrite)
    (ω₀ : ω) : StreamState × ω × FollowUps :=
  match s.callsFor block write.startState write.signature with
  | .error e => (s.halt e, ω₀, [])
  | .ok calls =>
    let retry := s.config.writeRetry
    let ((outcome, last), ω₁, metrics) := writeBlock writer retry block.number calls ω₀ s.metrics
    let s := { s with metrics }
    match retry.totalBackoff (last.toNat - 1) with
    | 0 =>
      let (s, duties) := s.endWrite block outcome
      (s, ω₁, duties)
    | wait =>
      ({ s with writing := some { write with outcome := some outcome } }, ω₁,
        [(.yielding wait, .noteWritten)])

/-- Writes the first queued block, if that has begun. -/
def write (writer : Writer ω) (s : StreamState) (ω₀ : ω) : StreamState × ω × FollowUps :=
  match s.writing, s.queue with
  | some ⟨startState, signature, none⟩, queued :: _ =>
    s.writeFirst writer queued.block ⟨startState, signature, none⟩ ω₀
  | _, _ => (s, ω₀, [])

/-- Notices that the write of the first queued block has ended. -/
def noteWritten (s : StreamState) : StreamState × FollowUps :=
  match s.writing, s.queue with
  | some ⟨_, _, some outcome⟩, queued :: _ => s.endWrite queued.block outcome
  | _, _ => (s, [])

/-! ### Any step -/

/-- Does what is due. A step that is not due any more does nothing. -/
def perform (signer : Signer σ) (writer : Writer ω) (s : StreamState) (duty : Duty) (σ₀ : σ) (ω₀ : ω) :
    StreamState × σ × ω × FollowUps :=
  match duty with
  | .takeUp => let (s, duties) := s.takeUp; (s, σ₀, ω₀, duties)
  | .sign number => let (s, σ₁, duties) := s.signNumber signer number σ₀; (s, σ₁, ω₀, duties)
  | .noteSigned number => let (s, duties) := s.noteSigned number; (s, σ₀, ω₀, duties)
  | .consider => let (s, duties) := s.consider; (s, σ₀, ω₀, duties)
  | .write => let (s, ω₁, duties) := s.write writer ω₀; (s, σ₀, ω₁, duties)
  | .noteWritten => let (s, duties) := s.noteWritten; (s, σ₀, ω₀, duties)

/-- What is due when signing and writing go on again: what calls have brought about, and, after a while, to
ask the signer for those that wait for it. -/
def resume (s : StreamState) : StreamState × FollowUps :=
  let waiting := s.signings.map fun signing =>
    (.after s.config.readiness.pollMs.toNat, .sign signing.number)
  ({ s with duties := [] }, s.duties.map (.atOnce, ·) ++ waiting)

/-- A bound on the steps that can follow from what a stream knows, apart from asking the signer. -/
def workload (s : StreamState) : Nat :=
  s.duties.length + 12 * (s.backlog.length + s.queue.length + s.signings.length + 1)

end StreamState

end RoundChain
