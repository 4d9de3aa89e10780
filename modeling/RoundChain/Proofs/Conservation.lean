import RoundChain.Proofs.ChainProduction
import RoundChain.Proofs.Sessions

/-!
# No item is lost

The items of the blocks, without the header in front and the two boundary batches at the
end, are the items that calls brought, each once and in order: `Course.conservation`. What
is not in a closed block is in the open one, or was when intake ended. A shutdown that is
done leaves every closed block in the store: `Course.shutdown_done`.

## The model

Nothing loses an item but a boundary batch that is too long for a frame. These theorems
are about sessions without such batches.

A shutdown is a run of its own. Intake ends, and then duties are performed in the order of
an agenda, so everything that holds of courses holds at its end.
-/

namespace RoundChain

variable {σ ω : Type}

/-- The items of an open block behind its header. -/
def PendingBlock.body (block : PendingBlock) : List Bytes := block.items.drop 1

/-- The items of a closed block between its header and the two boundary batches. -/
def ClosedBlock.body (block : ClosedBlock) : List Bytes := (block.items.drop 1).dropLast.dropLast

/-- The block begins with its header. -/
def PendingBlock.Headed (version : SoftwareVersion) (block : PendingBlock) : Prop :=
  block.items = (block.header version).encode :: block.body

/-- The block is its header, its body and two batches of state changes. -/
def ClosedBlock.Shaped (version : SoftwareVersion) (block : ClosedBlock) : Prop :=
  ∃ round time captured position, block.items =
    (Item.blockHeader ⟨block.number, version, round, time⟩).encode ::
      (block.body ++ [(Item.stateChanges captured).encode, (Item.stateChanges position).encode])

/-- A boundary batch that fits into a frame. -/
def ChangeBatch.Fits (batch : ChangeBatch) : Prop := (Item.stateChanges batch).encode.length < UInt32.size

instance (batch : ChangeBatch) : Decidable batch.Fits :=
  inferInstanceAs (Decidable ((Item.stateChanges batch).encode.length < UInt32.size))

/-- What a call adds to the items that were taken. -/
def IntakeCall.brings : IntakeCall → Checked StreamError Unit → List Bytes
  | .writeItem item, .ok () => [item.encode]
  | _, _ => []

/-! ### Open and closed blocks -/

namespace PendingBlock

variable {version : SoftwareVersion} {block extended : PendingBlock}

theorem Headed.append (h : block.Headed version) {item : Item} (happend : block.append item = .ok extended) :
    extended.Headed version ∧ extended.body = block.body ++ [item.encode] := by
  obtain ⟨framed, -, rfl⟩ := push_eq_ok_iff.mp (append_eq_ok_iff.mp happend).2
  unfold Headed body at h ⊢
  simp only [extend]
  rw [h]
  exact ⟨rfl, rfl⟩

theorem headed_of_start {number : UInt64} {previous : BlockHash} {round : UInt64} {time : Timestamp}
    {startState : StartState} (h : start number previous round time version startState = .ok block) :
    block.Headed version ∧ block.body = [] := by
  obtain ⟨-, -, -, hitems⟩ := start_eq_ok h
  unfold Headed body
  rw [hitems]
  exact ⟨rfl, rfl⟩

/-- A closed block has the body of the block that was open. -/
theorem Headed.sealed (h : block.Headed version) {time : Timestamp} {captured position : ChangeBatch}
    {closed : ClosedBlock} (hsealed : block.sealed time captured position = .ok closed) :
    closed.Shaped version ∧ closed.body = block.body := by
  have hends := sealed_eq_ok hsealed
  have hbody : closed.body = block.body := by
    unfold ClosedBlock.body
    rw [hends.items, h]
    simp [body]
  refine ⟨⟨block.firstRound, block.firstTime, captured, position, ?_⟩, hbody⟩
  rw [hbody, hends.items, hends.number, h]
  rfl

/-- Batches that fit can always end a block. -/
theorem exists_sealed (block : PendingBlock) (time : Timestamp) {captured position : ChangeBatch}
    (hcaptured : captured.Fits) (hposition : position.Fits) :
    ∃ closed, block.sealed time captured position = .ok closed := by
  obtain ⟨first, h₁⟩ := block.exists_append (.stateChanges captured) rfl hcaptured
  obtain ⟨second, h₂⟩ := first.exists_append (.stateChanges position) rfl hposition
  exact ⟨_, bind_eq_ok_iff.mpr ⟨first, h₁, bind_eq_ok_iff.mpr ⟨second, h₂, rfl⟩⟩⟩

end PendingBlock

namespace StreamState

/-! ### Calls -/

/-- The items of the open block behind its header. -/
def openBody (s : StreamState) : List Bytes := (s.pending.map PendingBlock.body).getD []

/-- The open block begins with its header. -/
def OpenHeaded (s : StreamState) : Prop :=
  ∀ block, s.pending = some block → block.Headed s.config.version

variable {s t : StreamState}

/-- A round that starts adds no item but the header of a new block. -/
theorem StartsRound.items {round : UInt64} {time : Timestamp} (ht : StartsRound s round time t)
    (hs : s.OpenHeaded) : t.OpenHeaded ∧ t.openBody = s.openBody := by
  have hversion : ∀ b, Bootstraps s b → b.config = s.config := by
    intro b hb
    cases hb <;> rfl
  cases ht with
  | joined hb hblock =>
    constructor
    · rintro _ ⟨⟩
      have hheaded := hs _ hblock
      rw [← hversion _ hb] at hheaded
      exact hheaded
    · simp only [openBody, hblock]
      rfl
  | opened hb hnone hstart =>
    obtain ⟨hheaded, hbody⟩ := PendingBlock.headed_of_start hstart
    constructor
    · rintro _ ⟨⟩
      exact hheaded
    · simp only [openBody, hnone]
      exact hbody

/-- The end of a round moves the body of the open block to a closed one, or leaves it. -/
theorem EndsRound.items {round : UInt64} {answer : Checked StreamError Unit} {more : Made}
    (ht : EndsRound s round answer t more) (hs : s.OpenHeaded) (hfits : ∀ batch ∈ more.batches, batch.Fits) :
    t.OpenHeaded ∧ (∀ block ∈ more.closed, block.Shaped s.config.version) ∧
      more.closed.flatMap ClosedBlock.body ++ t.openBody = s.openBody := by
  cases ht with
  | refused _ => exact ⟨hs, nofun, rfl⟩
  | kept _ _ _ => exact ⟨hs, nofun, rfl⟩
  | empty _ _ _ => exact ⟨hs, nofun, rfl⟩
  | blocked _ _ _ => exact ⟨hs, nofun, rfl⟩
  | @lost block time _ _ _ hsealed _ =>
    have hcaptured := hfits (s.capturedAt time) List.mem_cons_self
    have hposition := hfits (s.positionAt time) (List.mem_cons_of_mem _ List.mem_cons_self)
    obtain ⟨closed, hclosed⟩ := block.exists_sealed time hcaptured hposition
    rw [hsealed] at hclosed
    cases hclosed
  | closed hclosing _ hsealed _ =>
    have hpending := (closing?_eq_some_iff.mp hclosing).2.1
    obtain ⟨hshaped, hbody⟩ := (hs _ hpending).sealed hsealed
    refine ⟨fun _ hb => (by cases hb), ?_, ?_⟩
    · intro block hblock
      obtain rfl := List.mem_singleton.mp hblock
      exact hshaped
    · simp only [openBody, hpending, List.flatMap_singleton, hbody]
      exact List.append_nil _

/-- **No call loses an item.** -/
theorem Takes.items {call : IntakeCall} {answer : Checked StreamError Unit} {more : Made}
    (ht : Takes s call answer t more) (hs : s.OpenHeaded) (hfits : ∀ batch ∈ more.batches, batch.Fits) :
    t.OpenHeaded ∧ (∀ block ∈ more.closed, block.Shaped s.config.version) ∧
      more.closed.flatMap ClosedBlock.body ++ t.openBody = s.openBody ++ call.brings answer := by
  have hkept : t.pending = s.pending → t.config = s.config → more = {} → call.brings answer = [] →
      t.OpenHeaded ∧ (∀ block ∈ more.closed, block.Shaped s.config.version) ∧
        more.closed.flatMap ClosedBlock.body ++ t.openBody = s.openBody ++ call.brings answer := by
    rintro hpending hconfig rfl hbrings
    rw [hbrings, List.append_nil]
    refine ⟨?_, nofun, ?_⟩
    · rw [OpenHeaded, hpending, hconfig]
      exact hs
    · rw [openBody, hpending]
      rfl
  cases ht with
  | refused _ => exact hkept rfl rfl rfl (by cases call <;> rfl)
  | starts _ _ hround =>
    obtain ⟨hheaded, hbody⟩ := hround.items hs
    exact ⟨hheaded, nofun, hbody.trans (List.append_nil _).symm⟩
  | appends _ hblock happend =>
    obtain ⟨hheaded, hbody⟩ := (hs _ hblock).append happend
    refine ⟨?_, nofun, ?_⟩
    · rintro _ ⟨⟩
      exact hheaded
    · simp only [openBody, hblock]
      exact hbody
  | ends hround =>
    obtain ⟨hheaded, hshaped, hitems⟩ := hround.items hs hfits
    exact ⟨hheaded, hshaped, hitems.trans (List.append_nil _).symm⟩
  | _ => exact hkept rfl rfl rfl rfl

/-! ### Blocks that have come to their end -/

/-- A live stream without blocks on their way has every closed block in the store, and reports the position behind
them. -/
theorem Flow.of_idle {s : StreamState} {closed : List ClosedBlock} {signed : SignLog} {writes : WriteLog}
    {base : StreamInfo} (h : s.Flow closed signed writes base) (hlive : s.halted = none) (hidle : s.idle = true) :
    (∃ written : List Written, written.map Written.block = closed ∧
        List.Forall₂ Delivery.Brings (deliveries writes) written) ∧
      s.finalized = base.recordAll closed s.config.trailingLimit := by
  simp only [StreamState.idle, Bool.and_eq_true, List.isEmpty_iff] at hidle
  obtain ⟨hbacklog, hqueue⟩ := hidle
  rcases h.store with ⟨stored, log, more, hlog, hwrites, -, ⟨-, hs⟩ | ⟨hhalted, -⟩⟩
  · have hblocks : stored.map Written.block = closed := by
      rw [← hs.blocks, hqueue, hbacklog]
      simp
    have hnone : more = [] := by
      cases hwriting : s.writing with
      | none => exact hs.underway.idle hwriting
      | some write =>
        obtain ⟨queued, rest, hq, -⟩ := hs.underway.begun write hwriting
        rw [hqueue] at hq
        cases hq
    refine ⟨⟨stored, hblocks, ?_⟩, hblocks ▸ hs.finalized⟩
    rw [hwrites, hnone, List.append_nil]
    exact hlog.brings
  · exact absurd hlive hhalted

end StreamState

/-- A session is done when its stream is live and has no block on its way. -/
theorem Session.outcome_eq_done {session : Session σ ω} {info : StreamInfo}
    (h : session.outcome = .done info) :
    session.stream.halted = none ∧ session.stream.idle = true ∧ session.stream.finalized = info := by
  unfold outcome at h
  split at h
  · cases h
  · rename_i hlive
    by_cases hidle : session.stream.idle = true
    · rw [if_pos hidle] at h
      cases h
      exact ⟨hlive, hidle, rfl⟩
    · rw [if_neg hidle] at h
      cases h

namespace Course

variable {signer : Signer σ} {writer : Writer ω} {config : StreamConfig} {policy : BoundaryPolicy}
  {ledger : Option StreamInfo} {c : Course σ ω}

/-! ### Sessions -/

/-- The items that calls brought and that were taken, in their order. -/
def taken (c : Course σ ω) : List Bytes := c.calls.flatMap fun entry => entry.1.brings entry.2

/-- Every boundary batch fits into a frame. -/
def BatchesFit (c : Course σ ω) : Prop := ∀ batch ∈ c.made.batches, batch.Fits

instance (c : Course σ ω) : Decidable c.BatchesFit :=
  inferInstanceAs (Decidable (∀ batch ∈ c.made.batches, batch.Fits))

/-- The items that were taken are in the blocks. -/
structure Conserved (version : SoftwareVersion) (c : Course σ ω) : Prop where
  opened : ∀ block, c.open? = some block → block.Headed version
  closed : ∀ block ∈ c.made.closed, block.Shaped version
  items : c.made.closed.flatMap ClosedBlock.body ++ (c.open?.map PendingBlock.body).getD [] = c.taken
  going : c.stopped = false → c.left = none
  stopped : c.stopped = true → c.stream.pending = none

theorem Conserved.elsewhere {version : SoftwareVersion} (h : c.Conserved version) {stream : StreamState}
    {signer' : σ × SignLog} {store : ω × WriteLog} (hintake : stream.intake = c.stream.intake) :
    Conserved version { c with stream, signer := signer', store } := by
  have hpending : stream.pending = c.stream.pending := congrArg (·.pending) hintake
  have hopen : open? { c with stream, signer := signer', store } = c.open? := by
    simp only [open?, hpending]
  refine ⟨hopen ▸ h.opened, h.closed, ?_, h.going, fun hstopped => hpending.trans (h.stopped hstopped)⟩
  rw [hopen]
  exact h.items

/-- A call adds the item that it brings to the blocks. -/
theorem Conserved.takes {version : SoftwareVersion} (h : c.Conserved version)
    (hversion : c.stream.config.version = version) (hgoing : c.stopped = false) {call : IntakeCall}
    (ht : StreamState.Takes c.stream call (c.stream.take call).1 (c.stream.take call).2.core (c.stream.made call))
    (hfits : ∀ batch ∈ (c.stream.made call).batches, batch.Fits) :
    Conserved version
      { c with
        stream := (c.stream.take call).2, calls := c.calls ++ [(call, (c.stream.take call).1)]
        made := c.made.add (c.stream.made call) } := by
  have hleft := h.going hgoing
  have hopen : c.open? = c.stream.pending := by
    rw [open?, hleft]
    cases c.stream.pending <;> rfl
  have hheaded : c.stream.OpenHeaded := fun block hblock => hversion ▸ h.opened block (hopen.trans hblock)
  obtain ⟨hopened, hshaped, hitems⟩ := ht.items hheaded hfits
  have hopen' : ∀ d : StreamState, (d.pending <|> c.left) = d.pending := by
    intro d
    rw [hleft]
    cases d.pending <;> rfl
  refine ⟨?_, ?_, ?_, h.going, fun hnow => by rw [hgoing] at hnow; cases hnow⟩
  · intro block hblock
    rw [open?, hopen'] at hblock
    have hheaded' := hopened block hblock
    have hsettings : (c.stream.take call).2.core.config = c.stream.config := ht.settings_eq.1
    rw [hsettings, hversion] at hheaded'
    exact hheaded'
  · intro block hblock
    rcases List.mem_append.mp hblock with hblock | hblock
    · exact h.closed block hblock
    · exact hversion ▸ hshaped block hblock
  · rw [open?, hopen']
    have hbefore := h.items
    rw [hopen] at hbefore
    show (c.made.closed ++ (c.stream.made call).closed).flatMap ClosedBlock.body ++
        (c.stream.take call).2.core.openBody =
      (c.calls ++ [(call, (c.stream.take call).1)]).flatMap fun entry => entry.1.brings entry.2
    rw [List.flatMap_append, List.append_assoc, hitems, ← List.append_assoc, List.flatMap_append,
      List.flatMap_singleton]
    exact congrArg (· ++ call.brings (c.stream.take call).1) hbefore

theorem Conserved.moves {version : SoftwareVersion} (h : c.Conserved version)
    (hversion : c.stream.config.version = version) {d : Course σ ω} (hd : c.Moves d) (hfits : d.BatchesFit) :
    d.Conserved version := by
  cases hd with
  | stays => exact h
  | takes hgoing ht =>
    exact h.takes hversion hgoing ht fun batch hbatch => hfits batch (List.mem_append_right _ hbatch)
  | stops hgoing =>
    have hleft := h.going hgoing
    have hpending : c.stream.stopIntake.core.pending = none := by rw [StreamState.core_stopIntake]
    -- the open block is kept beside the stream that drops it
    have hopen : open? { c with stream := c.stream.stopIntake, stopped := true, left := c.stream.pending } =
        c.open? := by
      show (c.stream.stopIntake.core.pending <|> c.stream.pending) = (c.stream.pending <|> c.left)
      rw [hpending, hleft]
      cases c.stream.pending <;> rfl
    refine ⟨hopen ▸ h.opened, h.closed, ?_, nofun, fun _ => hpending⟩
    rw [hopen]
    exact h.items
  | aside hintake => exact h.elsewhere hintake

theorem BatchesFit.of_moves {d : Course σ ω} (h : d.BatchesFit) (hd : c.Moves d) : c.BatchesFit := by
  cases hd with
  | takes _ _ => exact fun batch hbatch => h batch (List.mem_append_left _ hbatch)
  | _ => exact h

/-- A session within limits whose boundary batches fit has every item in its blocks. -/
theorem conserved_ofSession {start : InitialState} {σ₀ : σ} {ω₀ : ω} {hs : List (Happening σ ω)}
    (hlimits : (ofSession signer writer config policy start ledger σ₀ ω₀ hs).WithinLimits)
    (hfits : (ofSession signer writer config policy start ledger σ₀ ω₀ hs).BatchesFit) :
    (ofSession signer writer config policy start ledger σ₀ ω₀ hs).Conserved config.version := by
  have hkept := run_induction signer writer
    (P := fun d => d.Regular config policy ledger ∧ (d.BatchesFit → d.Conserved config.version))
    (fun d happening ⟨hr, hd⟩ hl => ⟨hr.step happening hl, fun hf =>
      have hmoves := d.moves_step happening hl
      (hd (hf.of_moves hmoves)).moves (congrArg StreamConfig.version hr.settings) hmoves hf⟩)
    ⟨regular_start config policy start ledger σ₀ ω₀,
      fun _ => ⟨nofun, nofun, rfl, fun _ => rfl, nofun⟩⟩ hlimits
  exact hkept.2 hfits

/-! ### Shutdown -/

/-- What a live stream without blocks on their way leaves: all closed blocks are in the store, and the newest
position in ledger state is that of the store. -/
theorem Regular.of_idle (h : c.Regular config policy ledger) (hlive : c.stream.halted = none)
    (hidle : c.stream.idle = true) :
    (∃ written : List Written, written.map Written.block = c.made.closed ∧
        List.Forall₂ Delivery.Brings (deliveries c.store.2) written) ∧
      (c.made.closed ≠ [] → c.stream.ledger = some c.stream.finalized) := by
  rcases h.progress with ⟨-, hmade, base, hflow⟩ | ⟨info, -, hgrown, hflow⟩
  · rw [hmade]
    exact ⟨(hflow.of_idle hlive hidle).1, fun hsome => absurd rfl hsome⟩
  · obtain ⟨hwritten, hfinalized⟩ := hflow.of_idle hlive hidle
    refine ⟨hwritten, fun hsome => ?_⟩
    have hposition := hgrown.positions.resolve_right fun hnone => hsome hnone.2
    rw [h.position, hposition, hfinalized, ← hgrown.chain]
    rfl

/-- A shutdown is a run: intake ends, and then signing and writing go on. -/
theorem session_shutdown (signer : Signer σ) (writer : Writer ω) (c : Course σ ω) (hlimits : c.WithinLimits) :
    ∃ last : Course σ ω, last.made = c.made ∧
      c.session.shutdown signer.recorded (fun _ => writer.recorded) = (last.session.outcome, last.session) ∧
      ∀ config policy ledger, c.Regular config policy ledger → last.Regular config policy ledger := by
  -- the same session, if intake has ended already
  obtain ⟨duties, hdrain⟩ := session_drain signer writer { c with stopped := false } rfl
  obtain ⟨hmade, hcalls⟩ := run_draining signer writer { c with stopped := false } duties
  refine ⟨_, hmade, Prod.ext (congrArg Session.outcome hdrain) hdrain, fun config policy ledger h => ?_⟩
  have hgoing : Regular config policy ledger { c with stopped := false } :=
    ⟨h.settings, h.rule, h.anchor, h.position, h.progress⟩
  exact run_induction signer writer (fun _ happening hr hl => hr.step happening hl) hgoing
    fun entry hentry => hlimits entry (hcalls ▸ hentry)

/-- **A shutdown that is done leaves every closed block in the store.** -/
theorem Regular.shutdown_done (h : c.Regular config policy ledger) (hlimits : c.WithinLimits)
    {info : StreamInfo} {after : Session (σ × SignLog) (ω × WriteLog)}
    (hdone : c.session.shutdown signer.recorded (fun _ => writer.recorded) = (.done info, after)) :
    (∃ written : List Written, written.map Written.block = c.made.closed ∧
        List.Forall₂ Delivery.Brings (deliveries after.store.2) written) ∧
      (c.made.closed ≠ [] → after.stream.ledger = some info) := by
  obtain ⟨last, hmade, hshutdown, hregular⟩ := session_shutdown signer writer c hlimits
  rw [hshutdown] at hdone
  obtain ⟨houtcome, rfl⟩ := Prod.mk.inj hdone
  obtain ⟨hlive, hidle, rfl⟩ := Session.outcome_eq_done houtcome
  rw [← hmade]
  exact (hregular config policy ledger h).of_idle hlive hidle

/-- **No item is lost, doubled or moved.** In every session within limits whose boundary batches fit into
frames, the bodies of the closed blocks and then that of the open block, or of the one that was open when
intake ended, are the items that calls brought, in their order. A closed block is its header, its body and
two boundary batches. If the session ends with a shutdown that is done, the store took all of the closed
blocks with their items and one proof each, and, unless there are none, the position that the shutdown
answers with is the one put into ledger state last. -/
theorem conservation (signer : Signer σ) (writer : Writer ω) (config : StreamConfig)
    (policy : BoundaryPolicy) (start : InitialState) (ledger : Option StreamInfo) (σ₀ : σ) (ω₀ : ω)
    (hs : List (Happening σ ω)) :
    let c := ofSession signer writer config policy start ledger σ₀ ω₀ hs
    c.WithinLimits → c.BatchesFit →
      c.made.closed.flatMap ClosedBlock.body ++ (c.open?.map PendingBlock.body).getD [] = c.taken ∧
      (∀ block ∈ c.made.closed, block.Shaped config.version) ∧
      (∀ block, c.open? = some block → block.Headed config.version) ∧
      ∀ info after,
        c.session.shutdown signer.recorded (fun _ => writer.recorded) = (.done info, after) →
          (∃ written : List Written, written.map Written.block = c.made.closed ∧
            List.Forall₂ Delivery.Brings (deliveries after.store.2) written) ∧
          (c.made.closed ≠ [] → after.stream.ledger = some info) := by
  intro c hlimits hfits
  have hconserved := conserved_ofSession hlimits hfits
  refine ⟨hconserved.items, hconserved.closed, hconserved.opened, fun info after hdone => ?_⟩
  exact (regular_ofSession hlimits).shutdown_done hlimits hdone

/-- A session of one round, and then one item of a second one. -/
def roundAndMore : Course SchemeSigner MemoryStore :=
  ofSession SchemeSigner.signer MemoryStore.writer {} .configured ⟨0, Promise.resolved .zero⟩ none
    SchemeSigner.trivial MemoryStore.new
    [.call (.initLastHash .zero), .call (.startRound 1 ⟨⟨0⟩, 0⟩),
      .call (.writeItem (.eventTransaction [7])), .call (.endRound 1), .call (.notify 1 .zero),
      .call (.startRound 2 ⟨⟨1⟩, 0⟩), .call (.writeItem (.eventTransaction [8]))]

set_option maxRecDepth 10000 in
theorem conservation_one_round :
    roundAndMore.made.closed.length = 1 ∧ roundAndMore.open?.isSome ∧
      roundAndMore.made.closed.flatMap ClosedBlock.body ++
          (roundAndMore.open?.map PendingBlock.body).getD [] =
        [(Item.eventTransaction [7]).encode, (Item.eventTransaction [8]).encode] ∧
      ∃ written : List Written, written.map Written.block = roundAndMore.made.closed := by
  have htaken : roundAndMore.taken = [(Item.eventTransaction [7]).encode, (Item.eventTransaction [8]).encode] := by
    decide +kernel
  have hdone : (roundAndMore.session.shutdown SchemeSigner.signer.recorded
      (fun _ => MemoryStore.writer.recorded)).1 = .done roundAndMore.stream.chain := by decide +kernel
  obtain ⟨hitems, -, -, hshutdown⟩ := conservation SchemeSigner.signer MemoryStore.writer {} .configured
    ⟨0, Promise.resolved .zero⟩ none SchemeSigner.trivial MemoryStore.new _
    (by decide +kernel : roundAndMore.WithinLimits) (by decide +kernel : roundAndMore.BatchesFit)
  obtain ⟨⟨written, hwritten, -⟩, -⟩ := hshutdown _ _ (Prod.ext hdone rfl)
  exact ⟨by decide +kernel, by decide +kernel, hitems.trans htaken, written, hwritten⟩

end Course

end RoundChain
