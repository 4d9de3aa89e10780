import RoundChain.Proofs.Course

/-!
# How a chain grows

The blocks that intake closes continue the chain that the session found: `Grown` relates
the stream to the blocks closed so far, in every state that calls within limits lead to.
The open block is always the next of this chain, and the position in ledger state that
of the newest closed block.

## The model

`Fresh` is a stream before its first round. The first round finds the chain to continue,
so `Regular` says of a course that its stream is fresh or has grown from that chain.
-/

namespace RoundChain

variable {σ ω : Type}

theorem Made.add_empty (made : Made) : made.add {} = made := by
  simp [Made.add]

theorem Made.add_assoc (first second third : Made) : (first.add second).add third = first.add (second.add third) := by
  simp [Made.add]

namespace StreamState

/-! ### Streams and the chain they continue -/

/-- A stream before its first round. -/
structure Fresh (ledger : Option StreamInfo) (s : StreamState) : Prop where
  started : s.started = false
  phase : s.phase = .awaitingRound
  pending : s.pending = none
  ledger : s.ledger = ledger

/-- The open block is the next of the chain. -/
structure OpenNext (s : StreamState) (block : PendingBlock) : Prop where
  sound : block.Sound
  number : block.number = s.nextNumber
  previous : block.previous = s.lastClosedHash
  header : block.items.head? = some (block.header s.config.version).encode

/-- A stream after its first round: the blocks that it has closed continue a chain with the position
`info`. -/
structure Grown (info : StreamInfo) (made : Made) (s : StreamState) : Prop where
  started : s.started = true
  linked : Linked info.height info.lastHash made.closed
  nextNumber : s.nextNumber.toNat = info.height + made.closed.length
  lastHash : s.lastClosedHash = newestHash info.lastHash made.closed
  chain : s.chain = info.recordAll made.closed s.config.trailingLimit
  openNext : ∀ block, s.pending = some block → s.OpenNext block
  positions : made.positions.getLast? = some s.chain ∨ made.positions = [] ∧ made.closed = []

variable {info : StreamInfo} {made : Made} {ledger : Option StreamInfo}
  {s t : StreamState}

theorem Fresh.of_intake_eq (h : s.Fresh ledger) (ht : t.intake = s.intake) : t.Fresh ledger := by
  have hs : s.intake.Fresh ledger := ⟨h.started, h.phase, h.pending, h.ledger⟩
  rw [← ht] at hs
  exact ⟨hs.started, hs.phase, hs.pending, hs.ledger⟩

theorem Grown.of_intake_eq (h : s.Grown info made) (ht : t.intake = s.intake) :
    t.Grown info made := by
  have hs : s.intake.Grown info made :=
    ⟨h.started, h.linked, h.nextNumber, h.lastHash, h.chain,
      fun b hb => ⟨(h.openNext b hb).sound, (h.openNext b hb).number, (h.openNext b hb).previous,
        (h.openNext b hb).header⟩, h.positions⟩
  rw [← ht] at hs
  exact ⟨hs.started, hs.linked, hs.nextNumber, hs.lastHash, hs.chain,
    fun b hb => ⟨(hs.openNext b hb).sound, (hs.openNext b hb).number, (hs.openNext b hb).previous,
      (hs.openNext b hb).header⟩, hs.positions⟩

/-! ### Calls on a stream that has started -/

/-- The open block changes. -/
theorem Grown.withPending (h : s.Grown info made) {pending : Option PendingBlock}
    (hopen : ∀ block, pending = some block → s.OpenNext block) :
    Grown info made { s with pending } :=
  ⟨h.started, h.linked, h.nextNumber, h.lastHash, h.chain,
    fun b hb => ⟨(hopen b hb).sound, (hopen b hb).number, (hopen b hb).previous, (hopen b hb).header⟩,
    h.positions⟩

theorem Grown.withoutBlock (h : s.Grown info made) : Grown info made { s with pending := none } :=
  h.withPending fun _ hb => by cases hb

/-- What calls do not read of a stream's chain may change. -/
theorem Grown.elsewhere (h : s.Grown info made) (phase : Phase) (lastRound : Option UInt64)
    (ledger : Option StreamInfo) (boundary : BoundaryAccumulator) :
    Grown info made { s with phase, lastRound, ledger, boundary } :=
  ⟨h.started, h.linked, h.nextNumber, h.lastHash, h.chain,
    fun b hb => ⟨(h.openNext b hb).sound, (h.openNext b hb).number, (h.openNext b hb).previous,
      (h.openNext b hb).header⟩, h.positions⟩

theorem openNext_of_start {number : UInt64} {previous : BlockHash} {round : UInt64} {time : Timestamp}
    {version : SoftwareVersion} {startState : StartState} {block : PendingBlock}
    (h : PendingBlock.start number previous round time version startState = .ok block)
    (hnumber : number = s.nextNumber) (hprevious : previous = s.lastClosedHash)
    (hversion : version = s.config.version) : s.OpenNext block := by
  obtain ⟨hsound, hn, hp, hitems⟩ := PendingBlock.start_eq_ok h
  refine ⟨hsound, hn.trans hnumber, hp.trans hprevious, ?_⟩
  rw [hitems, hversion]
  rfl

/-- A round starts. -/
theorem Grown.startsRound (h : s.Grown info made) {round : UInt64} {time : Timestamp}
    (ht : StartsRound s round time t) : t.Grown info made := by
  have hcore : s.core.Grown info made := h.of_intake_eq rfl
  cases ht with
  | joined hb hpending =>
    cases hb with
    | before _ =>
      have hblock := hcore.openNext _ hpending
      refine (hcore.withPending ?_).elsewhere _ _ _ _
      rintro _ ⟨⟩
      exact ⟨hblock.sound, hblock.number, hblock.previous, hblock.header⟩
    | now hstarted => rw [h.started] at hstarted; cases hstarted
  | opened hb _ hstart =>
    cases hb with
    | before _ =>
      refine (hcore.withPending ?_).elsewhere _ _ _ _
      rintro _ ⟨⟩
      exact openNext_of_start hstart rfl rfl rfl
    | now hstarted => rw [h.started] at hstarted; cases hstarted

theorem OpenNext.append {block extended : PendingBlock} (h : s.OpenNext block) {item : Item}
    (happend : block.append item = .ok extended) : s.OpenNext extended := by
  have hsound := h.sound.append happend
  obtain ⟨framed, -, rfl⟩ := PendingBlock.push_eq_ok_iff.mp (PendingBlock.append_eq_ok_iff.mp happend).2
  refine ⟨hsound, h.number, h.previous, ?_⟩
  show (block.items ++ [item.encode]).head? = some (block.header s.config.version).encode
  rw [List.head?_append, h.header]
  rfl

/-- A block closes. -/
theorem Grown.extended (h : s.Grown info made) {block : PendingBlock} {time : Timestamp}
    {captured position : ChangeBatch} {closed : ClosedBlock} {next : UInt64} (hblock : s.OpenNext block)
    (hsealed : block.sealed time captured position = .ok closed)
    (hnext : nextWord (ε := StreamError) closed.number = .ok next) (batches : List ChangeBatch) :
    (s.extended closed next).Grown info
      (made.add ⟨[closed], batches, [s.chain, s.chainWith closed]⟩) := by
  have hends := PendingBlock.sealed_eq_ok hsealed
  have hnumber : closed.number.toNat = info.height + made.closed.length := by
    rw [hends.number, hblock.number, h.nextNumber]
  refine ⟨h.started, ?_, ?_, ?_, ?_, nofun, ?_⟩
  · refine h.linked.concat hnumber ?_ (hblock.sound.blockHash_sealed hsealed)
    rw [hends.previous, hblock.previous, h.lastHash]
  · have := nextWord_eq_ok_iff.mp hnext
    simp only [StreamState.extended, grown, StreamState.handedOver, Made.add, List.length_append,
      List.length_singleton]
    omega
  · exact (newestHash_concat ..).symm
  · have hrecord := StreamInfo.recordAll_concat info made.closed closed s.config.trailingLimit
    rw [← h.chain] at hrecord
    exact hrecord.symm
  · left
    simp [Made.add, StreamState.extended, grown, StreamState.handedOver, chainWith, ended, published,
      afterRound]

/-- A round ends. -/
theorem Grown.endsRound (h : s.Grown info made) {round : UInt64} {answer : Checked StreamError Unit}
    {more : Made} (ht : EndsRound s round answer t more) : t.Grown info (made.add more) := by
  have hcore : s.core.Grown info made := h.of_intake_eq rfl
  have hposition : ∀ batches, s.core.Grown info (made.add ⟨[], batches, [s.chain]⟩) := by
    intro batches
    refine ⟨hcore.started, ?_, ?_, ?_, ?_, hcore.openNext, ?_⟩
    all_goals simp only [Made.add, List.append_nil]
    · exact hcore.linked
    · exact hcore.nextNumber
    · exact hcore.lastHash
    · exact hcore.chain
    · left
      rw [List.getLast?_concat]
      rfl
  cases ht with
  | refused _ => rw [Made.add_empty]; exact hcore
  | kept _ _ _ => rw [Made.add_empty]; exact hcore.elsewhere _ _ _ _
  | empty _ _ _ => rw [Made.add_empty]; exact hcore.elsewhere _ _ _ _
  | blocked _ _ _ => exact (hposition []).elsewhere _ _ _ _
  | lost _ _ _ _ => exact (hposition _).withoutBlock.elsewhere _ _ _ _
  | closed hclosing _ hsealed hnext =>
    have hblock := hcore.openNext _ (closing?_eq_some_iff.mp hclosing).2.1
    exact hcore.extended hblock hsealed hnext _

/-- Every call keeps the chain that a stream has grown from. -/
theorem Grown.takes (h : s.Grown info made) {call : IntakeCall} {answer : Checked StreamError Unit}
    {more : Made} (ht : Takes s call answer t more) : t.Grown info (made.add more) := by
  have hcore : s.core.Grown info made := h.of_intake_eq rfl
  cases ht with
  | ends hends => exact h.endsRound hends
  | starts _ _ hstarts => rw [Made.add_empty]; exact h.startsRound hstarts
  | appends _ hpending happend =>
    rw [Made.add_empty]
    refine hcore.withPending ?_
    rintro _ ⟨⟩
    exact (hcore.openNext _ hpending).append happend
  | anchored hstarted _ => rw [h.started] at hstarted; cases hstarted
  | refused _ => rw [Made.add_empty]; exact hcore
  | notified => rw [Made.add_empty]; exact hcore
  | captured => rw [Made.add_empty]; exact hcore.elsewhere _ _ _ _
  | begun _ => rw [Made.add_empty]; exact hcore.elsewhere _ _ _ _
  | flushed _ => rw [Made.add_empty]; exact hcore.elsewhere _ _ _ _

/-- The end of intake drops the open block, and nothing else of the chain. -/
theorem Grown.stopIntake (h : s.Grown info made) : s.stopIntake.Grown info made := by
  have hcore : s.core.Grown info made := h.of_intake_eq rfl
  have hleft := hcore.withoutBlock.elsewhere .awaitingRound s.lastRound s.ledger s.boundary
  exact hleft.of_intake_eq (intake_of_core_eq s.core_stopIntake)

/-! ### Calls on a fresh stream -/

/-- A call on a fresh stream leaves it fresh, or it starts the first round and the stream has found its
chain. -/
theorem Fresh.takes (h : s.Fresh ledger) {call : IntakeCall} {answer : Checked StreamError Unit}
    {more : Made} (ht : Takes s call answer t more) :
    more = {} ∧ (t.Fresh ledger ∨ ∃ info, s.origin? = some info ∧ t.Grown info {}) := by
  have hcore : s.core.Fresh ledger := h.of_intake_eq rfl
  have hphase : ∀ round time, s.phase ≠ .roundOpen round time := by
    intro round time
    rw [h.phase]
    nofun
  cases ht with
  | ends hends =>
    cases hends with
    | refused _ => exact ⟨rfl, .inl hcore⟩
    | kept hopen _ _ => exact absurd hopen (hphase _ _)
    | empty hopen _ _ => exact absurd hopen (hphase _ _)
    | blocked hclosing _ _ => exact absurd (closing?_eq_some_iff.mp hclosing).1 (hphase _ _)
    | lost hclosing _ _ _ => exact absurd (closing?_eq_some_iff.mp hclosing).1 (hphase _ _)
    | closed hclosing _ _ _ => exact absurd (closing?_eq_some_iff.mp hclosing).1 (hphase _ _)
  | starts _ _ hstarts =>
    refine ⟨rfl, .inr ?_⟩
    cases hstarts with
    | joined _ hpending => rw [h.pending] at hpending; cases hpending
    | opened hb _ hstart =>
      cases hb with
      | before hstarted => rw [h.started] at hstarted; cases hstarted
      | now _ horigin hnext =>
        refine ⟨_, horigin, rfl, trivial, StreamInfo.toNat_nextNumber hnext, rfl, rfl, ?_, .inr ⟨rfl, rfl⟩⟩
        rintro _ ⟨⟩
        exact openNext_of_start hstart rfl rfl rfl
  | appends hphase _ _ => exact absurd h.phase hphase
  | anchored _ _ => exact ⟨rfl, .inl ⟨h.started, h.phase, h.pending, h.ledger⟩⟩
  | refused _ => exact ⟨rfl, .inl hcore⟩
  | notified => exact ⟨rfl, .inl hcore⟩
  | captured => exact ⟨rfl, .inl ⟨h.started, h.phase, h.pending, h.ledger⟩⟩
  | begun _ => exact ⟨rfl, .inl ⟨h.started, h.phase, h.pending, h.ledger⟩⟩
  | flushed _ => exact ⟨rfl, .inl ⟨h.started, h.phase, h.pending, h.ledger⟩⟩

theorem Fresh.stopIntake (h : s.Fresh ledger) : s.stopIntake.Fresh ledger := by
  have hcore : Fresh ledger { s.core with pending := none, phase := .awaitingRound } :=
    ⟨h.started, rfl, rfl, h.ledger⟩
  exact hcore.of_intake_eq (intake_of_core_eq s.core_stopIntake)

/-! ### Calls and the blocks on their way -/

variable {signed : SignLog} {writes : WriteLog} {base : StreamInfo}

theorem StartsRound.behind_eq {round : UInt64} {time : Timestamp} (ht : StartsRound s round time t)
    (hstarted : s.started = true) : t.behind = s.behind := by
  have hbehind : ∀ b, Bootstraps s b → b.behind = s.behind := by
    intro b hb
    cases hb with
    | before _ => rfl
    | now hfresh => rw [hstarted] at hfresh; cases hfresh
  cases ht with
  | joined hb _ =>
    have hsame := hbehind _ hb
    exact hsame
  | opened hb _ _ =>
    have hsame := hbehind _ hb
    exact hsame

/-- A call brings the closed block on its way, if there is one. -/
theorem Flow.takes (h : s.Flow made.closed signed writes base) (hstarted : s.started = true)
    {call : IntakeCall} {answer : Checked StreamError Unit} {more : Made}
    (ht : Takes s call answer t more) : t.Flow (made.add more).closed signed writes base := by
  cases ht with
  | ends hends =>
    cases hends with
    | closed _ _ _ _ => exact (h.handedOver _).of_behind_eq rfl
    | _ =>
      simp only [Made.add, List.append_nil]
      exact h.of_behind_eq rfl
  | starts _ _ hstarts =>
    rw [Made.add_empty]
    exact h.of_behind_eq (hstarts.behind_eq hstarted)
  | _ =>
    rw [Made.add_empty]
    exact h.of_behind_eq rfl

/-- A call on a fresh stream brings no block on its way; the first round sets what the chain is counted
from. -/
theorem Flow.takes_of_fresh (h : s.Flow [] signed writes base) (hs : s.Fresh ledger) {call : IntakeCall}
    {answer : Checked StreamError Unit} {more : Made} (ht : Takes s call answer t more) :
    (t.started = false → t.Flow [] signed writes base) ∧
      ∀ info, t.started = true → s.origin? = some info → t.Flow [] signed writes info := by
  have hkept : t.started = s.started → t.behind = s.behind →
      (t.started = false → t.Flow [] signed writes base) ∧
        ∀ info, t.started = true → s.origin? = some info → t.Flow [] signed writes info := by
    intro hstarted hbehind
    refine ⟨fun _ => h.of_behind_eq hbehind, fun _ hnow => ?_⟩
    rw [hstarted, hs.started] at hnow
    cases hnow
  have hround : ∀ b, Bootstraps s b → t.behind = b.behind → t.started = b.started →
      (t.started = false → t.Flow [] signed writes base) ∧
        ∀ info, t.started = true → s.origin? = some info → t.Flow [] signed writes info := by
    intro b hb hbehind hstarted
    cases hb with
    | before hbefore => rw [hs.started] at hbefore; cases hbefore
    | now _ horigin _ =>
      constructor
      · intro hnow
        rw [hstarted] at hnow
        cases hnow
      · intro info _ hinfo
        rw [horigin] at hinfo
        cases hinfo
        exact (h.rebase _).of_behind_eq hbehind
  cases ht with
  | ends hends =>
    cases hends with
    | closed hclosing _ _ _ =>
      have hopen := (closing?_eq_some_iff.mp hclosing).1
      rw [hs.phase] at hopen
      cases hopen
    | _ => exact hkept rfl rfl
  | starts _ _ hstarts =>
    cases hstarts with
    | joined hb _ => exact hround _ hb rfl rfl
    | opened hb _ _ => exact hround _ hb rfl rfl
  | _ => exact hkept rfl rfl

/-! ### What no call changes -/

/-- A round that starts changes neither what is being written nor the boundary. -/
theorem StartsRound.kept {round : UInt64} {time : Timestamp} (ht : StartsRound s round time t) :
    t.writing = s.writing ∧ t.queue = s.queue ∧ t.boundary = s.boundary := by
  cases ht with
  | joined hb _ => cases hb <;> exact ⟨rfl, rfl, rfl⟩
  | opened hb _ _ => cases hb <;> exact ⟨rfl, rfl, rfl⟩

/-- No call changes what has begun to be written. -/
theorem Takes.writing_eq {call : IntakeCall} {answer : Checked StreamError Unit} {more : Made}
    (ht : Takes s call answer t more) : t.writing = s.writing ∧ t.queue = s.queue := by
  cases ht with
  | ends hends => cases hends <;> exact ⟨rfl, rfl⟩
  | starts _ _ hstarts => exact ⟨hstarts.kept.1, hstarts.kept.2.1⟩
  | _ => exact ⟨rfl, rfl⟩

theorem Takes.settings_eq {call : IntakeCall} {answer : Checked StreamError Unit} {more : Made}
    (ht : Takes s call answer t more) : t.config = s.config ∧ t.policy = s.policy := by
  cases ht with
  | ends hends => cases hends <;> exact ⟨rfl, rfl⟩
  | starts _ _ hstarts =>
    cases hstarts with
    | joined hb _ => cases hb <;> exact ⟨rfl, rfl⟩
    | opened hb _ _ => cases hb <;> exact ⟨rfl, rfl⟩
  | _ => exact ⟨rfl, rfl⟩

theorem Takes.halted_eq {call : IntakeCall} {answer : Checked StreamError Unit} {more : Made}
    (ht : Takes s call answer t more) : t.halted = s.halted := by
  cases ht with
  | ends hends => cases hends <;> rfl
  | starts _ _ hstarts =>
    cases hstarts with
    | joined hb _ => cases hb <;> rfl
    | opened hb _ _ => cases hb <;> rfl
  | _ => rfl

/-- The anchor is what the one call gave that was answered well. -/
theorem Takes.anchor_iff {call : IntakeCall} {answer : Checked StreamError Unit} {more : Made}
    (ht : Takes s call answer t more) (anchor : BlockHash) :
    t.anchor = some anchor ↔
      s.anchor = some anchor ∨ call = .initLastHash anchor ∧ answer = .ok () := by
  cases ht with
  | ends hends => cases hends <;> simp [afterRound, published, ended, extended, grown, handedOver, core]
  | starts _ _ hstarts =>
    cases hstarts with
    | joined hb _ => cases hb <;> simp [inRound, withBlock, core]
    | opened hb _ _ => cases hb <;> simp [inRound, withBlock, core]
  | anchored _ hnone => simp [hnone]
  | refused _ => simp [core, refuse]
  | _ => simp [core, withBlock]

/-- Ledger state holds the position that was put there last. -/
theorem Takes.ledger_eq {call : IntakeCall} {answer : Checked StreamError Unit} {more : Made}
    (ht : Takes s call answer t more) : t.ledger = (more.positions.getLast? <|> s.ledger) := by
  cases ht with
  | ends hends => cases hends <;> rfl
  | starts _ _ hstarts =>
    cases hstarts with
    | joined hb _ => cases hb <;> rfl
    | opened hb _ _ => cases hb <;> rfl
  | _ => rfl

theorem origin?_eq_some_iff {info : StreamInfo} : s.origin? = some info ↔
    s.ledger = some info ∨ s.ledger = none ∧ ∃ anchor, s.anchor = some anchor ∧
      info = StreamInfo.anchored anchor s.config.version := by
  unfold origin?
  cases s.ledger with
  | some _ => simp
  | none => cases s.anchor <;> simp [eq_comm]

end StreamState

/-! ### Courses -/

namespace Course

variable {signer : Signer σ} {writer : Writer ω} {config : StreamConfig} {policy : BoundaryPolicy}
  {ledger : Option StreamInfo} {c : Course σ ω}

/-- A course of a session with settings over a ledger state: nothing has begun, or the stream has grown from
the chain that it continues, and the closed blocks are on their way. -/
structure Regular (config : StreamConfig) (policy : BoundaryPolicy) (ledger : Option StreamInfo)
    (c : Course σ ω) : Prop where
  settings : c.stream.config = config
  rule : c.stream.policy = policy
  anchor : ∀ anchor, c.stream.anchor = some anchor ↔ (.initLastHash anchor, .ok ()) ∈ c.calls
  position : c.stream.ledger = (c.made.positions.getLast? <|> ledger)
  progress :
    (c.stream.Fresh ledger ∧ c.made = {} ∧
      ∃ base, c.stream.Flow [] c.signer.2 c.store.2 base) ∨
    ∃ info, c.Continues ledger config.version info ∧ c.stream.Grown info c.made ∧
      c.stream.Flow c.made.closed c.signer.2 c.store.2 info

theorem regular_start (config : StreamConfig) (policy : BoundaryPolicy) (start : InitialState)
    (ledger : Option StreamInfo) (signer : σ) (store : ω) :
    (Course.start (.initial config policy start ledger) signer store).Regular config policy ledger where
  settings := rfl
  rule := rfl
  anchor _ := ⟨nofun, nofun⟩
  position := rfl
  progress := .inl ⟨⟨rfl, rfl, rfl, rfl⟩, rfl, StreamInfo.anchored .zero config.version, nofun, nofun,
    List.nil_subset _, [], [], [], .nil, rfl, nofun, .inl ⟨rfl, rfl, rfl, rfl, fun _ => rfl, nofun⟩⟩

/-- What a stream finds is the chain that the session continues. -/
theorem Regular.continues_of_origin (h : c.Regular config policy ledger) (hnew : c.stream.started = false)
    {info : StreamInfo} (horigin : c.stream.origin? = some info) :
    c.Continues ledger config.version info := by
  rcases h.progress with ⟨hfresh, -⟩ | ⟨other, -, hgrown, -⟩
  · rcases StreamState.origin?_eq_some_iff.mp horigin with hledger | ⟨hledger, anchor, hset, hinfo⟩
    · exact .inl (hfresh.ledger.symm.trans hledger)
    · refine .inr ⟨hfresh.ledger.symm.trans hledger, anchor, (h.anchor anchor).mp hset, ?_⟩
      rw [hinfo, h.settings]
  · rw [hgrown.started] at hnew
    cases hnew

theorem Regular.call (h : c.Regular config policy ledger) (call : IntakeCall)
    (hlimits : (c.step signer writer (.call call)).WithinLimits) :
    (c.step signer writer (.call call)).Regular config policy ledger := by
  rcases c.call_cases call hlimits with hstays | ⟨-, ht, hstep⟩
  · rw [hstays]
    exact h
  rw [hstep]
  have hsub : c.calls ⊆ c.calls ++ [(call, (c.stream.take call).1)] := List.subset_append_left ..
  have hanchor : ∀ anchor, (c.stream.take call).2.anchor = some anchor ↔
      (.initLastHash anchor, .ok ()) ∈ c.calls ++ [(call, (c.stream.take call).1)] := by
    intro anchor
    rw [List.mem_append, ← h.anchor anchor, List.mem_singleton, Prod.mk.injEq,
      eq_comm (b := call), eq_comm (b := (c.stream.take call).1)]
    exact ht.anchor_iff anchor
  have hposition : (c.stream.take call).2.ledger =
      ((c.made.add (c.stream.made call)).positions.getLast? <|> ledger) := by
    have hput : (c.stream.take call).2.ledger =
        ((c.stream.made call).positions.getLast? <|> c.stream.ledger) := ht.ledger_eq
    rw [hput, h.position, Made.add, List.getLast?_append]
    cases (c.stream.made call).positions.getLast? <;> rfl
  refine ⟨ht.settings_eq.1.trans h.settings, ht.settings_eq.2.trans h.rule, hanchor, hposition, ?_⟩
  rcases h.progress with ⟨hfresh, hmade, base, hflow⟩ | ⟨info, hcontinues, hgrown, hflow⟩
  · obtain ⟨hnothing, hprogress⟩ := hfresh.takes ht
    have hstill : c.made.add (c.stream.made call) = {} := by rw [hmade, hnothing, Made.add_empty]
    obtain ⟨hbefore, hafter⟩ := hflow.takes_of_fresh hfresh ht
    rcases hprogress with hfresh' | ⟨info, horigin, hgrown⟩
    · exact .inl ⟨hfresh'.of_intake_eq rfl, hstill, base, (hbefore hfresh'.started).of_behind_eq rfl⟩
    · refine .inr ⟨info, ?_, ?_, ?_⟩
      · exact (h.continues_of_origin hfresh.started horigin).mono hsub
      · exact hstill.symm ▸ hgrown.of_intake_eq rfl
      · have hflow' := (hafter info hgrown.started horigin).of_behind_eq
          (t := (c.stream.take call).2) rfl
        simp only [hstill]
        exact hflow'
  · refine .inr ⟨info, hcontinues.mono hsub, ?_, ?_⟩
    · exact (hgrown.takes ht).of_intake_eq rfl
    · exact (hflow.takes hgrown.started ht).of_behind_eq rfl

/-- What happens to the stream but calls leaves a course regular if it keeps what calls are about, and the
flow of blocks. -/
theorem Regular.elsewhere (h : c.Regular config policy ledger) {stream : StreamState}
    {signer' : σ × SignLog} {store : ω × WriteLog} (hintake : stream.intake = c.stream.intake)
    (hflow : ∀ closed base, (∀ a ∈ closed, ∀ b ∈ closed, a.number = b.number → a = b) →
      c.stream.Flow closed c.signer.2 c.store.2 base → stream.Flow closed signer'.2 store.2 base) :
    Regular config policy ledger { c with stream, signer := signer', store } := by
  have hconfig : stream.intake.config = c.stream.config := congrArg (·.config) hintake
  have hpolicy : stream.intake.policy = c.stream.policy := congrArg (·.policy) hintake
  have hanchor : stream.intake.anchor = c.stream.anchor := congrArg (·.anchor) hintake
  have hledger : stream.intake.ledger = c.stream.ledger := congrArg (·.ledger) hintake
  refine ⟨hconfig.trans h.settings, hpolicy.trans h.rule, ?_, hledger.trans h.position, ?_⟩
  · intro anchor
    rw [← h.anchor anchor, ← hanchor]
    rfl
  · rcases h.progress with ⟨hfresh, hmade, base, hf⟩ | ⟨info, hcontinues, hgrown, hf⟩
    · exact .inl ⟨hfresh.of_intake_eq hintake, hmade, base, hflow _ _ (by simp) hf⟩
    · refine .inr ⟨info, hcontinues, hgrown.of_intake_eq hintake, hflow _ _ ?_ hf⟩
      intro a ha b hb hab
      exact hgrown.linked.inj ha hb hab

/-- Intake ends. -/
theorem Regular.stopIntake (h : c.Regular config policy ledger) (stopped : Bool)
    (left : Option PendingBlock) :
    Regular config policy ledger { c with stream := c.stream.stopIntake, stopped, left } := by
  have hcore := c.stream.core_stopIntake
  have hconfig : c.stream.stopIntake.core.config = c.stream.config := by rw [hcore]; rfl
  have hpolicy : c.stream.stopIntake.core.policy = c.stream.policy := by rw [hcore]; rfl
  have hanchor : c.stream.stopIntake.core.anchor = c.stream.anchor := by rw [hcore]; rfl
  have hledger : c.stream.stopIntake.core.ledger = c.stream.ledger := by rw [hcore]; rfl
  have hbehind : c.stream.stopIntake.core.behind = c.stream.behind := by rw [hcore]; rfl
  refine ⟨hconfig.trans h.settings, hpolicy.trans h.rule, ?_, hledger.trans h.position, ?_⟩
  · intro anchor
    rw [← h.anchor anchor, ← hanchor]
    rfl
  · rcases h.progress with ⟨hfresh, hmade, base, hf⟩ | ⟨info, hcontinues, hgrown, hf⟩
    · exact .inl ⟨hfresh.stopIntake, hmade, base, hf.of_behind_eq hbehind⟩
    · exact .inr ⟨info, hcontinues, hgrown.stopIntake, hf.of_behind_eq hbehind⟩

theorem Regular.stop (h : c.Regular config policy ledger) :
    (c.step signer writer .stop).Regular config policy ledger := by
  rw [step]
  split
  · exact h
  · exact h.stopIntake _ _

/-- **Whatever happens within limits, a course stays regular.** -/
theorem Regular.step (h : c.Regular config policy ledger) (happening : Happening σ ω)
    (hlimits : (c.step signer writer happening).WithinLimits) :
    (c.step signer writer happening).Regular config policy ledger := by
  cases happening with
  | call call => exact h.call call hlimits
  | stop => exact h.stop
  | supply hash =>
    have hcore := c.stream.core_supplyInitial hash
    exact h.elsewhere (StreamState.intake_of_core_eq hcore) fun _ _ _ hf => hf.of_core_eq hcore
  | abandon =>
    have hcore := c.stream.core_abandonInitial
    exact h.elsewhere (StreamState.intake_of_core_eq hcore) fun _ _ _ hf => hf.of_core_eq hcore
  | work duty =>
    refine h.elsewhere (c.stream.intake_perform _ _ _ _ duty) ?_
    intro closed base hinj hf
    exact hf.perform hinj duty
  | resume => exact h.elsewhere rfl fun _ _ _ hf => hf.of_core_eq rfl
  | signer state => exact h.elsewhere rfl fun _ _ _ hf => hf
  | store state => exact h.elsewhere rfl fun _ _ _ hf => hf

/-- A session within limits is regular, whatever happened. -/
theorem regular_ofSession {signer : Signer σ} {writer : Writer ω} {config : StreamConfig}
    {policy : BoundaryPolicy} {start : InitialState} {ledger : Option StreamInfo} {σ₀ : σ} {ω₀ : ω}
    {hs : List (Happening σ ω)}
    (hlimits : (ofSession signer writer config policy start ledger σ₀ ω₀ hs).WithinLimits) :
    (ofSession signer writer config policy start ledger σ₀ ω₀ hs).Regular config policy ledger :=
  run_induction signer writer (fun _ happening h hl => h.step happening hl)
    (regular_start config policy start ledger σ₀ ω₀) hlimits

/-- A session continues one chain. -/
theorem Regular.continues_unique (h : c.Regular config policy ledger) {info other : StreamInfo}
    (hinfo : c.Continues ledger config.version info) (hother : c.Continues ledger config.version other) :
    info = other := by
  rcases hinfo with hl | ⟨hl, anchor, ha, rfl⟩
  · rcases hother with hl' | ⟨hl', -⟩
    · rw [hl] at hl'
      exact Option.some.inj hl'
    · rw [hl] at hl'
      cases hl'
  · rcases hother with hl' | ⟨-, anchor', ha', rfl⟩
    · rw [hl] at hl'
      cases hl'
    · have hsame := ((h.anchor anchor).mpr ha).symm.trans ((h.anchor anchor').mpr ha')
      rw [Option.some.inj hsame]

/-- The blocks that a session closed are on their way to the store. -/
theorem Regular.flow (h : c.Regular config policy ledger) :
    ∃ base, c.stream.Flow c.made.closed c.signer.2 c.store.2 base := by
  rcases h.progress with ⟨-, hmade, base, hflow⟩ | ⟨info, -, -, hflow⟩
  · rw [hmade]
    exact ⟨base, hflow⟩
  · exact ⟨info, hflow⟩

/-- The blocks that a session closed continue its chain, and are on their way to the store. -/
theorem Regular.chain (h : c.Regular config policy ledger) {info : StreamInfo}
    (hinfo : c.Continues ledger config.version info) :
    Linked info.height info.lastHash c.made.closed ∧
      ∃ base, c.stream.Flow c.made.closed c.signer.2 c.store.2 base := by
  refine ⟨?_, h.flow⟩
  rcases h.progress with ⟨-, hmade, -⟩ | ⟨other, hother, hgrown, -⟩
  · rw [hmade]
    exact trivial
  · obtain rfl := h.continues_unique hinfo hother
    exact hgrown.linked

end Course

end RoundChain
