import RoundChain.Proofs.Accounts

/-!
# Hashes do not depend on signing and writing

Two sessions that differ in their signers, stores, settings of signing and writing, state
hashes and the order of work close the same blocks, as long as the calls that count are
the same: `Course.noninterference`. Blocks carry the position of the chain, so this rests
on the position being that of closed blocks, and never that of stored ones.

## The model

`StreamState.bare` is a stream without all that hashes must not depend on. Calls that
count lead from streams with one bare stream to streams with one bare stream again,
`StreamState.Takes.congr`; nothing else changes the bare stream.

A call that is answered well counts, unless it brings a state hash or the anchor. Of the
others only the end of an open round does: its block closes even if nobody is left to
write it.
-/

namespace RoundChain

variable {σ ω : Type}

/-- The block without the state that it starts from. -/
def PendingBlock.blind (block : PendingBlock) : PendingBlock := { block with startState := .supplied }

/-- The block without the state that it starts from: number, hashes, rounds, time and items are left. -/
def ClosedBlock.blind (block : ClosedBlock) : ClosedBlock := { block with startState := .supplied }

/-- What was made, without the states that the blocks start from. -/
def Made.blind (made : Made) : Made := { made with closed := made.closed.map ClosedBlock.blind }

theorem Made.blind_add (made more : Made) : (made.add more).blind = made.blind.add more.blind := by
  simp [Made.blind, Made.add]

/-- Whether a call that was answered so has an effect on blocks. -/
def IntakeCall.counts : IntakeCall → Checked StreamError Unit → Bool
  | .initLastHash _, _ => false
  | .notify .., _ => false
  | .endRound _, .error (.refused e) => !e.outOfTurn
  | _, .ok () => true
  | _, .error _ => false

/-! ### Blocks without their start states -/

namespace PendingBlock

theorem push_blind (block : PendingBlock) (item : Bytes) :
    block.blind.push item = (block.push item).map blind := by
  unfold push
  show (do let hasher ← block.hasher.absorb item; _) = _
  cases block.hasher.absorb item <;> rfl

theorem append_blind (block : PendingBlock) (item : Item) :
    block.blind.append item = (block.append item).map blind := by
  cases item with
  | blockProof _ => rfl
  | _ => exact push_blind block _

theorem sealed_blind (block : PendingBlock) (time : Timestamp) (captured position : ChangeBatch) :
    block.blind.sealed time captured position =
      (block.sealed time captured position).map ClosedBlock.blind := by
  unfold PendingBlock.sealed
  rw [append_blind]
  cases block.append (.stateChanges captured) with
  | error _ => rfl
  | ok first =>
    show (do let second ← first.blind.append (.stateChanges position); _) = _
    rw [append_blind]
    show _ = Except.map ClosedBlock.blind (do let second ← first.append (.stateChanges position); _)
    cases first.append (.stateChanges position) <;> rfl

theorem start_blind (number : UInt64) (previous : BlockHash) (round : UInt64) (time : Timestamp)
    (version : SoftwareVersion) (startState : StartState) :
    (start number previous round time version startState).map blind =
      start number previous round time version .supplied :=
  (append_blind ..).symm

end PendingBlock

namespace StreamState

/-! ### Bare streams -/

/-- The stream without all that hashes must not depend on. -/
def bare (s : StreamState) : StreamState :=
  { s.intake with
    config :=
      { boundary := s.config.boundary, version := s.config.version
        trailingLimit := s.config.trailingLimit }
    anchor := none, pending := s.pending.map PendingBlock.blind }

/-- Where the stream stands in its chain, and what it has put into ledger state. -/
def standing (s : StreamState) : Bool × UInt64 × BlockHash × StreamInfo × Option StreamInfo :=
  (s.started, s.nextNumber, s.lastClosedHash, s.chain, s.ledger)

variable {s t u v : StreamState}

theorem bare_of_intake_eq (h : t.intake = s.intake) : t.bare = s.bare := by
  have hbare : ∀ u : StreamState, u.bare = u.intake.bare := fun _ => rfl
  rw [hbare, h, ← hbare]

/-- What is told from the bare stream alone is the same for streams with one bare stream. -/
theorem of_bare {α : Type} (f : StreamState → α) (hf : ∀ s, f s.bare = f s) (h : s.bare = t.bare) :
    f s = f t := by
  rw [← hf s, h, hf]

/-- The configured rule does not look at the state that a block starts from. -/
theorem closing?_bare (hrule : s.policy = .configured) (round : UInt64) :
    s.bare.closing? round = (s.closing? round).map fun closing => (closing.1.blind, closing.2) := by
  have hphase : s.bare.phase = s.phase := rfl
  have hpending : s.bare.pending = s.pending.map PendingBlock.blind := rfl
  have hpolicy : ∀ block : PendingBlock,
      s.bare.policy block.blind s.bare.config = s.policy block s.config := by
    intro block
    show s.policy block.blind s.bare.config = _
    rw [hrule]
    rfl
  unfold closing?
  rw [hphase, hpending]
  cases s.phase with
  | awaitingRound => cases s.pending <;> rfl
  | roundOpen opened time =>
    cases s.pending with
    | none => rfl
    | some block =>
      simp only [Option.map_some, hpolicy]
      split <;> rfl

/-- What a call makes is told from the bare stream, apart from the state that a block starts from. -/
theorem made_bare (hrule : s.policy = .configured) (call : IntakeCall) :
    s.bare.made call = (s.made call).blind := by
  cases call with
  | endRound round =>
    simp only [made]
    rw [closing?_bare hrule]
    cases s.closing? round with
    | none => rfl
    | some closing =>
      obtain ⟨block, time⟩ := closing
      have hphase : s.bare.boundary.phase = s.boundary.phase := rfl
      have hcaptured : s.bare.capturedAt time = s.capturedAt time := rfl
      have hposition : s.bare.positionAt time = s.positionAt time := rfl
      simp only [Option.map_some, hphase, hcaptured, hposition]
      rw [block.sealed_blind time (s.capturedAt time) (s.positionAt time)]
      split
      · cases block.sealed time (s.capturedAt time) (s.positionAt time) <;> rfl
      · rfl
  | _ => rfl

/-! ### Calls that do not count -/

/-- A call that does not count changes nothing that hashes depend on. -/
theorem Takes.of_not_counts {call : IntakeCall} {answer : Checked StreamError Unit} {more : Made}
    (ht : Takes s call answer t more) (hcounts : call.counts answer = false) :
    t.bare = s.bare ∧ more = {} := by
  cases ht with
  | refused _ => exact ⟨rfl, rfl⟩
  | anchored _ _ => exact ⟨rfl, rfl⟩
  | notified => exact ⟨rfl, rfl⟩
  | ends hends =>
    cases hends with
    | refused _ => exact ⟨rfl, rfl⟩
    | kept _ _ _ => cases hcounts
    | empty _ _ hturn => simp [IntakeCall.counts, refuse, hturn] at hcounts
    | blocked _ _ hturn => simp [IntakeCall.counts, refuse, hturn] at hcounts
    | lost _ _ _ hturn => simp [IntakeCall.counts, refuse, hturn] at hcounts
    | closed _ _ _ _ =>
      split at hcounts
      · cases hcounts
      · cases hcounts
  | _ => cases hcounts

/-! ### Calls that count -/

theorem Bootstraps.congr (hbare : s.bare = t.bare) (hs : Bootstraps s u) (ht : Bootstraps t v)
    (horigin : s.started = false → s.origin? = t.origin?) : u.bare = v.bare := by
  have hstarted : s.started = t.started := of_bare started (fun _ => rfl) hbare
  cases hs with
  | before hold =>
    cases ht with
    | before _ => exact hbare
    | now hnew _ _ => rw [hstarted, hnew] at hold; cases hold
  | @now info n hnew hinfo hn =>
    cases ht with
    | before hold => rw [hstarted, hold] at hnew; cases hnew
    | now _ hinfo' hn' =>
      rw [← horigin hnew, hinfo] at hinfo'
      cases hinfo'
      rw [hn] at hn'
      cases hn'
      exact congrArg (fun b : StreamState =>
        { b with lastClosedHash := info.lastHash, nextNumber := n, chain := info, started := true }) hbare

theorem StartsRound.congr (hbare : s.bare = t.bare) {round : UInt64} {time : Timestamp}
    (hs : StartsRound s round time u) (ht : StartsRound t round time v)
    (horigin : s.started = false → s.origin? = t.origin?) : u.bare = v.bare := by
  have hpending : s.pending.map PendingBlock.blind = t.pending.map PendingBlock.blind :=
    congrArg StreamState.pending hbare
  have hround : ∀ {b b' : StreamState} {block block' : PendingBlock}, Bootstraps s b → Bootstraps t b' →
      block.blind = block'.blind →
      ((b.withBlock block).inRound round time).bare = ((b'.withBlock block').inRound round time).bare := by
    intro b b' block block' hb hb' hblock
    have hsame := hb.congr hbare hb' horigin
    show (b.bare.withBlock block.blind).inRound round time =
      (b'.bare.withBlock block'.blind).inRound round time
    rw [hsame, hblock]
  cases hs with
  | joined hb hblock =>
    cases ht with
    | joined hb' hblock' =>
      refine hround hb hb' ?_
      rw [hblock, hblock'] at hpending
      exact congrArg (PendingBlock.beginRound · round time) (Option.some.inj hpending)
    | opened _ hnone _ => rw [hblock, hnone] at hpending; cases hpending
  | opened hb hnone hstart =>
    cases ht with
    | joined _ hblock' => rw [hnone, hblock'] at hpending; cases hpending
    | opened hb' _ hstart' =>
      refine hround hb hb' ?_
      have hsame := hb.congr hbare hb' horigin
      have hnumber := of_bare nextNumber (fun _ => rfl) hsame
      have hlast := of_bare lastClosedHash (fun _ => rfl) hsame
      have hversion := of_bare (fun b => b.config.version) (fun _ => rfl) hsame
      have hblock := congrArg (Except.map PendingBlock.blind) hstart
      have hblock' := congrArg (Except.map PendingBlock.blind) hstart'
      rw [PendingBlock.start_blind] at hblock hblock'
      rw [← hnumber, ← hlast, ← hversion, hblock] at hblock'
      exact Except.ok.inj hblock'

theorem StartsRound.started {round : UInt64} {time : Timestamp} (h : StartsRound s round time t) :
    t.started = true := by
  cases h with
  | joined hb _ =>
    cases hb with
    | before hold => exact hold
    | now _ _ _ => rfl
  | opened hb _ _ =>
    cases hb with
    | before hold => exact hold
    | now _ _ _ => rfl

/-- A stream that has started stays so; one that has not may find its chain. -/
theorem Takes.started_cases {call : IntakeCall} {answer : Checked StreamError Unit} {more : Made}
    (ht : Takes s call answer t more) :
    t.started = s.started ∨ t.started = true ∧ ∃ info, s.origin? = some info := by
  cases ht with
  | starts _ _ hround =>
    have hfound : ∀ b, Bootstraps s b → b.started = s.started ∨ ∃ info, s.origin? = some info := by
      intro b hb
      cases hb with
      | before _ => exact .inl rfl
      | now _ horigin _ => exact .inr ⟨_, horigin⟩
    have hstarted := hround.started
    cases hround with
    | joined hb _ => exact (hfound _ hb).imp id fun h => ⟨hstarted, h⟩
    | opened hb _ _ => exact (hfound _ hb).imp id fun h => ⟨hstarted, h⟩
  | ends hends => cases hends <;> exact .inl rfl
  | _ => exact .inl rfl

theorem append_congr (hbare : s.bare = t.bare) {block block' extended extended' : PendingBlock}
    (hs : s.pending = some block) (ht : t.pending = some block') {item : Item}
    (happend : block.append item = .ok extended) (happend' : block'.append item = .ok extended') :
    extended.blind = extended'.blind := by
  have hpending : s.pending.map PendingBlock.blind = t.pending.map PendingBlock.blind :=
    congrArg StreamState.pending hbare
  rw [hs, ht] at hpending
  have hblock := block.append_blind item
  rw [Option.some.inj hpending, block'.append_blind item, happend, happend'] at hblock
  exact (Except.ok.inj hblock).symm

/-- The stream after the end of a round that counts, up to what hashes do not depend on. -/
def roundEnd (s : StreamState) (round : UInt64) : StreamState :=
  match s.closing? round with
  | none => s.afterRound
  | some (block, time) =>
    if s.boundary.phase = .idle then
      match block.sealed time (s.capturedAt time) (s.positionAt time) with
      | .ok closed => (s.ended time).grown closed (closed.number + 1)
      | .error _ => s.ended time
    else s.published

theorem roundEnd_bare (hrule : s.policy = .configured) (round : UInt64) :
    s.bare.roundEnd round = (s.roundEnd round).bare := by
  unfold roundEnd
  rw [closing?_bare hrule]
  cases s.closing? round with
  | none => rfl
  | some closing =>
    obtain ⟨block, time⟩ := closing
    have hsealed := block.sealed_blind time (s.capturedAt time) (s.positionAt time)
    show (if s.boundary.phase = .idle then
        match block.blind.sealed time (s.capturedAt time) (s.positionAt time) with
        | .ok closed => _
        | .error _ => _
      else _) = bare (if s.boundary.phase = .idle then _ else _)
    rw [hsealed]
    split
    · cases block.sealed time (s.capturedAt time) (s.positionAt time) <;> rfl
    · rfl

theorem EndsRound.bare_eq {round : UInt64} {answer : Checked StreamError Unit} {more : Made}
    (h : EndsRound s round answer t more) (hcounts : (IntakeCall.endRound round).counts answer = true) :
    t.bare = (s.roundEnd round).bare ∧ more = s.made (.endRound round) := by
  cases h with
  | refused hturn => simp [IntakeCall.counts, refuse, hturn] at hcounts
  | kept _ _ hclosing =>
    rw [made_of_closing?_eq_none hclosing, roundEnd, hclosing]
    exact ⟨rfl, rfl⟩
  | empty hphase hpending _ =>
    have hclosing : s.closing? round = none := by
      simp only [closing?, hphase, hpending]
    rw [made_of_closing?_eq_none hclosing, roundEnd, hclosing]
    exact ⟨rfl, rfl⟩
  | blocked hclosing hphase _ =>
    simp only [roundEnd, made, hclosing, if_neg hphase]
    exact ⟨rfl, trivial⟩
  | lost hclosing hphase hsealed _ =>
    simp only [roundEnd, made, hclosing, if_pos hphase, hsealed]
    exact ⟨rfl, trivial⟩
  | closed hclosing hphase hsealed hnext =>
    simp only [roundEnd, made, hclosing, if_pos hphase, hsealed]
    have htime := (PendingBlock.sealed_eq_ok hsealed).endTime
    rw [extended, htime, nextWord_eq_succ hnext]
    exact ⟨rfl, trivial⟩

theorem withBoundary_congr (hbare : s.bare = t.bare) (boundary : BoundaryAccumulator) :
    bare { s.core with boundary } = bare { t.core with boundary } :=
  congrArg (fun b : StreamState => { b with boundary }) hbare

/-- If the stream finds its chain on the way to another, this is the one. -/
def FindsOnly (info : StreamInfo) (s t : StreamState) : Prop :=
  s.started = false → t.started = true → s.origin? = some info

/-- **Calls that count do the same to streams with one bare stream**, and make the same. -/
theorem Takes.congr {call : IntakeCall} {answer answer' : Checked StreamError Unit} {more more' : Made}
    (hbare : s.bare = t.bare) (hrule : s.policy = .configured) (hs : Takes s call answer u more)
    (ht : Takes t call answer' v more') (hcounts : call.counts answer = true)
    (hcounts' : call.counts answer' = true) {info : StreamInfo} (hfrom : FindsOnly info s u)
    (hfrom' : FindsOnly info t v) :
    u.bare = v.bare ∧ more.blind = more'.blind := by
  have hboundary : s.boundary = t.boundary := of_bare boundary (fun _ => rfl) hbare
  have hledger : s.ledger = t.ledger := of_bare ledger (fun _ => rfl) hbare
  cases hs with
  | refused hround =>
    cases call with
    | endRound round => exact absurd rfl (hround round)
    | _ => cases hcounts
  | anchored _ _ => cases hcounts
  | notified => cases hcounts
  | starts _ _ hround =>
    cases ht with
    | refused _ => cases hcounts'
    | starts _ _ hround' =>
      refine ⟨hround.congr hbare hround' fun hnew => ?_, rfl⟩
      have hnew' : t.started = false := of_bare started (fun _ => rfl) hbare ▸ hnew
      rw [hfrom hnew hround.started, hfrom' hnew' hround'.started]
  | appends _ hblock happend =>
    cases ht with
    | refused _ => cases hcounts'
    | appends _ hblock' happend' =>
      refine ⟨?_, rfl⟩
      have hextended := append_congr hbare hblock hblock' happend happend'
      show s.bare.withBlock _ = t.bare.withBlock _
      rw [hbare, hextended]
  | ends hround =>
    cases ht with
    | refused hround' => exact absurd rfl (hround' _)
    | ends hround' =>
      obtain ⟨hu, hmore⟩ := hround.bare_eq hcounts
      obtain ⟨hv, hmore'⟩ := hround'.bare_eq hcounts'
      have hrule' : t.policy = .configured := of_bare policy (fun _ => rfl) hbare ▸ hrule
      rw [hu, hv, hmore, hmore', ← roundEnd_bare hrule, ← roundEnd_bare hrule', ← made_bare hrule,
        ← made_bare hrule', hbare]
      exact ⟨rfl, rfl⟩
  | captured =>
    cases ht with
    | refused _ => cases hcounts'
    | captured =>
      refine ⟨?_, rfl⟩
      rw [hboundary]
      exact withBoundary_congr hbare _
  | begun hbegin =>
    cases ht with
    | refused _ => cases hcounts'
    | begun hbegin' =>
      refine ⟨?_, rfl⟩
      rw [hboundary, hbegin'] at hbegin
      cases hbegin
      exact withBoundary_congr hbare _
  | flushed hflush =>
    cases ht with
    | refused _ => cases hcounts'
    | flushed hflush' =>
      refine ⟨?_, rfl⟩
      rw [hboundary, hledger, hflush'] at hflush
      cases hflush
      exact withBoundary_congr hbare _

/-! ### Calls one after the other -/

/-- The calls that counted, newest first, led from a bare stream to this stream, which continues the chain
`info`, and made this. -/
inductive Follows (origin : StreamState) (info : StreamInfo) :
    List IntakeCall → StreamState → Made → Prop where
  | start : Follows origin info [] origin {}
  | call {calls : List IntakeCall} {s t u : StreamState} {made more : Made} {call : IntakeCall}
      {answer : Checked StreamError Unit} : Follows origin info calls s made → t.bare = s.bare →
      t.policy = .configured → Takes t call answer u more → call.counts answer = true →
      FindsOnly info t u → Follows origin info (call :: calls) u (made.add more)

/-- The calls that counted tell all that hashes depend on, and all that was made. -/
theorem Follows.unique {origin origin' : StreamState} {info : StreamInfo} {calls : List IntakeCall}
    {made made' : Made} (horigin : origin.bare = origin'.bare) (hs : Follows origin info calls s made)
    (ht : Follows origin' info calls t made') : s.bare = t.bare ∧ made.blind = made'.blind := by
  induction hs generalizing t made' with
  | start =>
    cases ht with
    | start => exact ⟨horigin, rfl⟩
  | call _ hbare hrule htakes hcounts hfrom ih =>
    cases ht with
    | call hbefore hbare' _ htakes' hcounts' hfrom' =>
      obtain ⟨hsame, hmade⟩ := ih hbefore
      have hstep : _ = _ := (hbare.trans hsame).trans hbare'.symm
      obtain ⟨hafter, hmore⟩ := htakes.congr hstep hrule htakes' hcounts hcounts' hfrom hfrom'
      exact ⟨hafter, by rw [Made.blind_add, Made.blind_add, hmade, hmore]⟩

end StreamState

namespace Course

/-! ### Sessions -/

variable {signer : Signer σ} {writer : Writer ω} {config : StreamConfig} {policy : BoundaryPolicy}
  {ledger : Option StreamInfo} {c : Course σ ω}

/-- The calls that counted, in their order. -/
def effective (c : Course σ ω) : List IntakeCall :=
  (c.calls.filter fun entry => entry.1.counts entry.2).map Prod.fst

/-- The stream of a session of which no settings of signing or writing, and no state hash, are known. -/
def origin (config : StreamConfig) (ledger : Option StreamInfo) : StreamState :=
  .initial config .configured ⟨0, .pending⟩ ledger

/-- The calls that counted led to where the session stands, and, until intake ended, to all that it is. -/
def Led (config : StreamConfig) (ledger : Option StreamInfo) (c : Course σ ω) : Prop :=
  ∃ s : StreamState, (c.stopped = false → c.stream.bare = s.bare) ∧ c.stream.standing = s.standing ∧
    (c.stream.started = false ∧
        (∀ info, (origin config ledger).Follows info c.effective.reverse s c.made) ∨
      c.stream.started = true ∧ ∃ info, c.Continues ledger config.version info ∧
        (origin config ledger).Follows info c.effective.reverse s c.made)

theorem led_start (config : StreamConfig) (start : InitialState) (ledger : Option StreamInfo) (signer : σ)
    (store : ω) :
    (Course.start (.initial config .configured start ledger) signer store).Led config ledger :=
  ⟨origin config ledger, fun _ => rfl, rfl, .inl ⟨rfl, fun _ => .start⟩⟩

/-- What keeps all that hashes depend on leaves a session where its calls led it. -/
theorem Led.elsewhere (h : c.Led config ledger) {stream : StreamState} {signer' : σ × SignLog}
    {store : ω × WriteLog} (hintake : stream.intake = c.stream.intake) :
    Led config ledger { c with stream, signer := signer', store } := by
  obtain ⟨s, hbare, hstands, hled⟩ := h
  have hsame := StreamState.bare_of_intake_eq hintake
  have hstanding : stream.standing = c.stream.standing := StreamState.of_bare StreamState.standing (fun _ => rfl) hsame
  have hstarted : stream.started = c.stream.started := congrArg Prod.fst hstanding
  refine ⟨s, fun hgoing => hsame.trans (hbare hgoing), hstanding.trans hstands, ?_⟩
  show stream.started = false ∧ _ ∨ stream.started = true ∧ _
  rw [hstarted]
  exact hled

theorem effective_call (c : Course σ ω) (call : IntakeCall) (answer : Checked StreamError Unit) :
    (((c.calls ++ [(call, answer)]).filter fun entry => entry.1.counts entry.2).map Prod.fst).reverse =
      if call.counts answer then call :: c.effective.reverse else c.effective.reverse := by
  rw [List.filter_append, List.map_append, List.reverse_append]
  cases h : call.counts answer <;> simp [h, effective]

/-- A call leads on if it counts, and else changes nothing that hashes depend on. -/
theorem Led.takes (h : c.Led config ledger) (hregular : c.Regular config .configured ledger)
    (hgoing : c.stopped = false) {call : IntakeCall}
    (ht : StreamState.Takes c.stream call (c.stream.take call).1 (c.stream.take call).2.core (c.stream.made call)) :
    Led config ledger
      { c with
        stream := (c.stream.take call).2, calls := c.calls ++ [(call, (c.stream.take call).1)]
        made := c.made.add (c.stream.made call) } := by
  have hsub : c.calls ⊆ c.calls ++ [(call, (c.stream.take call).1)] := List.subset_append_left ..
  obtain ⟨s, hbare, hstands, hled⟩ := h
  have hsame := hbare hgoing
  rw [Led, effective, effective_call]
  cases hcounts : call.counts (c.stream.take call).1 with
  | false =>
    obtain ⟨hstill, hnothing⟩ := ht.of_not_counts hcounts
    have hstanding : (c.stream.take call).2.standing = c.stream.standing :=
      StreamState.of_bare StreamState.standing (fun _ => rfl) hstill
    have hstarted : (c.stream.take call).2.started = c.stream.started := congrArg Prod.fst hstanding
    refine ⟨s, fun _ => hstill.trans hsame, hstanding.trans hstands, ?_⟩
    simp only [hstarted, hnothing, Made.add_empty]
    refine hled.imp id fun ⟨hold, info, hcontinues, hfollows⟩ => ⟨hold, info, hcontinues.mono hsub, hfollows⟩
  | true =>
    have hnext : ∀ info, (origin config ledger).Follows info c.effective.reverse s c.made →
        StreamState.FindsOnly info c.stream (c.stream.take call).2.core →
        (origin config ledger).Follows info (call :: c.effective.reverse) (c.stream.take call).2.core
          (c.made.add (c.stream.made call)) :=
      fun info hfollows hfrom => .call hfollows hsame hregular.rule ht hcounts hfrom
    refine ⟨(c.stream.take call).2.core, fun _ => rfl, rfl, ?_⟩
    simp only [if_true]
    rcases hled with ⟨hnew, hfollows⟩ | ⟨hold, info, hcontinues, hfollows⟩
    · rcases ht.started_cases with hstarted | ⟨hstarted, info, horigin⟩
      · have hstill : (c.stream.take call).2.started = false := hstarted.trans hnew
        refine .inl ⟨hstill, fun info => hnext info (hfollows info) fun _ hfound => ?_⟩
        rw [hstarted, hnew] at hfound
        cases hfound
      · exact .inr ⟨hstarted, info, (hregular.continues_of_origin hnew horigin).mono hsub,
          hnext info (hfollows info) fun _ _ => horigin⟩
    · refine .inr ⟨?_, info, hcontinues.mono hsub, hnext info hfollows fun hnew => ?_⟩
      · rcases ht.started_cases with hstarted | ⟨hstarted, -⟩
        · exact hstarted.trans hold
        · exact hstarted
      · rw [hold] at hnew
        cases hnew

theorem Led.moves (h : c.Led config ledger) (hregular : c.Regular config .configured ledger)
    {d : Course σ ω} (hd : c.Moves d) : d.Led config ledger := by
  cases hd with
  | stays => exact h
  | takes hgoing ht => exact h.takes hregular hgoing ht
  | stops _ =>
    obtain ⟨s, -, hstands, hled⟩ := h
    have hstanding : c.stream.stopIntake.core.standing = c.stream.standing := by
      rw [StreamState.core_stopIntake]
      rfl
    have hstarted : c.stream.stopIntake.core.started = c.stream.started := congrArg Prod.fst hstanding
    refine ⟨s, nofun, hstanding.trans hstands, ?_⟩
    show c.stream.stopIntake.core.started = false ∧ _ ∨ c.stream.stopIntake.core.started = true ∧ _
    rw [hstarted]
    exact hled
  | aside hintake => exact h.elsewhere hintake

/-- The calls that counted led a session within limits to where it stands, and to what it made. -/
theorem led_ofSession {start : InitialState} {σ₀ : σ} {ω₀ : ω} {hs : List (Happening σ ω)} {info : StreamInfo}
    (hlimits : (ofSession signer writer config .configured start ledger σ₀ ω₀ hs).WithinLimits)
    (hinfo : (ofSession signer writer config .configured start ledger σ₀ ω₀ hs).Continues ledger
      config.version info) :
    let c := ofSession signer writer config .configured start ledger σ₀ ω₀ hs
    ∃ s, c.stream.standing = s.standing ∧ (origin config ledger).Follows info c.effective.reverse s c.made := by
  intro c
  obtain ⟨hregular, s, -, hstands, hled⟩ := run_induction signer writer
    (P := fun d => d.Regular config .configured ledger ∧ d.Led config ledger)
    (fun d happening ⟨hr, hd⟩ hl => ⟨hr.step happening hl, hd.moves hr (d.moves_step happening hl)⟩)
    ⟨regular_start config .configured start ledger σ₀ ω₀, led_start config start ledger σ₀ ω₀⟩
    hlimits
  rcases hled with ⟨-, hfollows⟩ | ⟨-, other, hother, hfollows⟩
  · exact ⟨s, hstands, hfollows info⟩
  · obtain rfl := hregular.continues_unique hinfo hother
    exact ⟨s, hstands, hfollows⟩

/-- **Hashes do not depend on signing and writing.** Two sessions within limits, over one ledger state and
from one position, have the same rule for boundaries, version and limit of trailing hashes. If the same
calls counted, they closed the same blocks, apart from the states that these start from, and put the same
positions into ledger state: whatever the signers, the stores, the other settings, the order of work, and
the state hashes that were supplied or notified. Both streams account for these blocks: they stand at the
same number, hash and position of the chain and have counted as many blocks, ledger state is the same, and
each store took the first of the blocks of its session. -/
theorem noninterference {σ' ω' : Type} (signer : Signer σ) (writer : Writer ω) (signer' : Signer σ')
    (writer' : Writer ω') (config config' : StreamConfig) (start start' : InitialState)
    (ledger : Option StreamInfo) (σ₀ : σ) (ω₀ : ω) (σ₀' : σ') (ω₀' : ω') (hs : List (Happening σ ω))
    (hs' : List (Happening σ' ω')) (info : StreamInfo) (hboundary : config.boundary = config'.boundary)
    (hversion : config.version = config'.version) (hlimit : config.trailingLimit = config'.trailingLimit) :
    let c := ofSession signer writer config .configured start ledger σ₀ ω₀ hs
    let c' := ofSession signer' writer' config' .configured start' ledger σ₀' ω₀' hs'
    c.WithinLimits → c'.WithinLimits → c.Continues ledger config.version info →
      c'.Continues ledger config'.version info → c.effective = c'.effective →
      c.made.closed.map ClosedBlock.blind = c'.made.closed.map ClosedBlock.blind ∧
        c.made.positions = c'.made.positions ∧
        c.stream.standing = c'.stream.standing ∧ c.stream.metrics.closed = c'.stream.metrics.closed ∧
        c.Accounts config ledger ∧ c'.Accounts config' ledger := by
  intro c c' hlimits hlimits' hinfo hinfo' hcalls
  obtain ⟨s, hstands, hfollows⟩ := led_ofSession hlimits hinfo
  obtain ⟨s', hstands', hfollows'⟩ := led_ofSession hlimits' hinfo'
  have horigin : (origin config ledger).bare = (origin config' ledger).bare := by
    simp [origin, StreamState.initial, StreamState.bare, StreamState.intake, StreamState.core, hboundary,
      hversion, hlimit]
  have heffective : c.effective.reverse = c'.effective.reverse := by rw [hcalls]
  obtain ⟨hbare, hmade⟩ := hfollows.unique horigin (heffective ▸ hfollows')
  have hclosed : c.made.closed.map ClosedBlock.blind = c'.made.closed.map ClosedBlock.blind :=
    congrArg Made.closed hmade
  have hpositions : c.made.blind.positions = c'.made.blind.positions := congrArg Made.positions hmade
  have hstanding : c.stream.standing = c'.stream.standing :=
    hstands.trans ((StreamState.of_bare StreamState.standing (fun _ => rfl) hbare).trans hstands'.symm)
  have haccounts : c.Accounts config ledger := accounts_ofSession hlimits
  have haccounts' : c'.Accounts config' ledger := accounts_ofSession hlimits'
  have hlength : c.made.closed.length = c'.made.closed.length := by
    simpa using congrArg List.length hclosed
  have hcounted : c.stream.metrics.closed = c'.stream.metrics.closed :=
    UInt64.toNat_inj.mp (haccounts.counted.trans (hlength.trans haccounts'.counted.symm))
  exact ⟨hclosed, hpositions, hstanding, hcounted, haccounts, haccounts'⟩

/-- A session of one round, whose block is signed and written. -/
def writtenRound : Course SchemeSigner MemoryStore :=
  ofSession SchemeSigner.signer MemoryStore.writer {} .configured ⟨0, Promise.resolved .zero⟩ none
    SchemeSigner.trivial MemoryStore.new
    [.call (.initLastHash .zero), .call (.startRound 1 ⟨⟨0⟩, 0⟩),
      .call (.writeItem (.eventTransaction [7])), .call (.endRound 1), .work .takeUp, .work (.sign 0),
      .work .consider, .work .write]

/-- A session of the same round under other settings, with another state hash and a call out of turn, whose
block nobody signs. -/
def waitingRound : Course SchemeSigner MemoryStore :=
  ofSession SchemeSigner.signer MemoryStore.writer { maxInFlight := 1, batchSize := 7 } .configured
    ⟨5, .pending⟩ none SchemeSigner.trivial MemoryStore.new
    [.call (.initLastHash .zero), .call (.endRound 1), .call (.notify 0 .zero), .call (.startRound 1 ⟨⟨0⟩, 0⟩),
      .call (.writeItem (.eventTransaction [7])), .call (.endRound 1)]

set_option maxRecDepth 10000 in
theorem noninterference_one_round :
    writtenRound.effective = waitingRound.effective ∧ writtenRound.made.closed.length = 1 ∧
      writtenRound.made.closed.map ClosedBlock.blind = waitingRound.made.closed.map ClosedBlock.blind ∧
      writtenRound.made.positions = waitingRound.made.positions ∧
      writtenRound.stream.standing = waitingRound.stream.standing ∧
      waitingRound.stream.metrics.closed = 1 ∧ waitingRound.Accounts { maxInFlight := 1, batchSize := 7 } none := by
  have hcalls : writtenRound.effective = waitingRound.effective := by decide +kernel
  have hwritten : writtenRound.stream.metrics.closed = 1 := by decide +kernel
  obtain ⟨hclosed, hpositions, hstanding, hcounted, -, haccounts⟩ := noninterference SchemeSigner.signer
    MemoryStore.writer SchemeSigner.signer MemoryStore.writer {} { maxInFlight := 1, batchSize := 7 }
    ⟨0, Promise.resolved .zero⟩ ⟨5, .pending⟩ none SchemeSigner.trivial MemoryStore.new SchemeSigner.trivial
    MemoryStore.new _ _ (.anchored .zero ⟨0, 1, 0⟩) rfl rfl rfl (by decide +kernel : writtenRound.WithinLimits)
    (by decide +kernel : waitingRound.WithinLimits) (.inr ⟨rfl, .zero, by decide +kernel, rfl⟩)
    (.inr ⟨rfl, .zero, by decide +kernel, rfl⟩) hcalls
  exact ⟨hcalls, by decide +kernel, hclosed, hpositions, hstanding, hcounted.symm.trans hwritten, haccounts⟩

end Course

end RoundChain
