import RoundChain.Proofs.CallLogs
import RoundChain.Proofs.WrittenHashes
import Mathlib.Data.List.Induction

/-!
# The state that a block starts from

Every proof that is written names the hash of the state its block starts from, and that is the
hash which the calls supplied for it: `Course.start_state_written`. What was pruned, used
up or notified again in the meantime makes no difference, and a block whose hash never comes is
never written.

## The model

`startStateOf` says from the history before the first round of a block where its hash comes
from; `Course.Sourced` holds of every open and closed block. `HashOf` says which hash that
has come to be. Once it is one, later calls do not change it, so what a write began with is
still right when the store hears of it.

A promise is followed from outside: `Promise.told` is the promise that the session was given,
after what its writer did.
-/

namespace RoundChain

variable {σ ω : Type}

/-! ### The hash that is supplied with a session -/

namespace Promise

/-- The value that a reader would take. -/
def value? {α : Type} (p : Promise α) : Option α :=
  match p.take.1 with
  | some (.value a) => some a
  | _ => none

/-- What a happening does to the promise of the hash that is supplied with a session. -/
def hear (p : Promise BlockHash) : Happening σ ω → Promise BlockHash
  | .supply hash => (p.write hash).2
  | .abandon => p.dropWriter.2
  | _ => p

/-- The promise after its writer has done what happened. -/
def told (p : Promise BlockHash) (hs : List (Happening σ ω)) : Promise BlockHash := hs.foldl hear p

/-- At some time the promise has had this value. -/
def ComesTo (p : Promise BlockHash) (hs : List (Happening σ ω)) (hash : BlockHash) : Prop :=
  ∃ earlier, earlier <+: hs ∧ (p.told earlier).value? = some hash

/-- While there is a writer, the reader holds no value. -/
def Sound {α : Type} (p : Promise α) : Prop := p.hasWriter = true → p.reader = none ∨ p.reader = some (.written none)

variable {p : Promise BlockHash}

theorem ComesTo.mono {hs hs' : List (Happening σ ω)} {hash : BlockHash} (h : p.ComesTo hs hash)
    (hmore : hs <+: hs') : p.ComesTo hs' hash := by
  obtain ⟨earlier, hearlier, hvalue⟩ := h
  exact ⟨earlier, hearlier.trans hmore, hvalue⟩

/-- A promise that its writer has left does not change any more. -/
theorem told_of_no_writer (hp : p.hasWriter = false) (hs : List (Happening σ ω)) : p.told hs = p := by
  induction hs with
  | nil => rfl
  | cons h hs ih =>
    have hsame : p.hear h = p := by
      cases h with
      | supply hash => simp [hear, write, hp]
      | abandon =>
        obtain ⟨reader, hasWriter⟩ := p
        cases hp
        rfl
      | _ => rfl
    rw [told, List.foldl_cons, hsame]
    exact ih

theorem Sound.hear (hp : p.Sound) (h : Happening σ ω) : (p.hear h).Sound := by
  cases h with
  | supply hash =>
    by_cases hwriter : p.hasWriter = true
    · simp [Promise.hear, write, hwriter, Sound]
    · simpa [Promise.hear, write, hwriter] using hp
  | abandon => simp [Promise.hear, dropWriter, Sound]
  | _ => exact hp

theorem Sound.told (hp : p.Sound) (hs : List (Happening σ ω)) : (p.told hs).Sound := by
  induction hs generalizing p with
  | nil => exact hp
  | cons h hs ih => exact ih (hp.hear h)

/-- A value that a sound promise has is there to stay. -/
theorem Sound.hasWriter_eq (hp : p.Sound) {hash : BlockHash} (hvalue : p.value? = some hash) :
    p.hasWriter = false := by
  by_contra hwriter
  rw [Bool.not_eq_false] at hwriter
  rcases hp hwriter with hreader | hreader
  · simp [value?, take, hreader] at hvalue
  · simp [value?, take, hreader, outcome, hwriter] at hvalue

/-- **A promise comes to one value.** -/
theorem ComesTo.unique (hp : p.Sound) {hs : List (Happening σ ω)} {a b : BlockHash} (ha : p.ComesTo hs a)
    (hb : p.ComesTo hs b) : a = b := by
  have hlater : ∀ {earlier later : List (Happening σ ω)} {a b : BlockHash}, earlier <+: later →
      (p.told earlier).value? = some a → (p.told later).value? = some b → a = b := by
    rintro earlier _ a b ⟨more, rfl⟩ ha hb
    have hsame := told_of_no_writer ((hp.told earlier).hasWriter_eq ha) more
    rw [Promise.told, List.foldl_append] at hb
    rw [Promise.told] at hsame
    exact Option.some.inj (ha.symm.trans ((congrArg value? hsame).symm.trans hb))
  obtain ⟨early, hearly, hvalue⟩ := ha
  obtain ⟨early', hearly', hvalue'⟩ := hb
  rcases List.prefix_or_prefix_of_prefix hearly hearly' with hle | hle
  · exact hlater hle hvalue hvalue'
  · exact (hlater hle hvalue' hvalue).symm

/-- A reader that gave up hears nothing of the writer. -/
theorem MayDrop.hear {q : Promise BlockHash} (hq : p.MayDrop q) (h : Happening σ ω) :
    (p.hear h).MayDrop (q.hear h) := by
  rcases hq with rfl | rfl
  · exact .inl rfl
  · cases h with
    | supply hash =>
      by_cases hwriter : p.hasWriter = true <;> simp [Promise.hear, write, dropReader, hwriter, MayDrop]
    | _ => exact .inr rfl

/-- What a reader finds is a value of the promise. -/
theorem MayDrop.value? {q : Promise BlockHash} (hq : p.MayDrop q) {hash : BlockHash}
    (h : q.take.1 = some (.value hash)) : p.value? = some hash := by
  rcases hq with rfl | rfl
  · simp only [Promise.value?, h]
  · cases h

end Promise

/-! ### Where the hash of a block comes from -/

/-- Where the hash for a block comes from whose first round is `round`, by the history before that round. -/
def startStateOf (start : InitialState) (ledger : Option StreamInfo) (before : CallLog) (round : UInt64) :
    StartState :=
  if roundsStarted before = [] ∧ (ledger = none ∨ start.round.toNat + 1 = round.toNat) then .supplied
  else if round = 0 then .known .zero
  else
    match (hashesNotified (round - 1) before).getLast? with
    | some hash => .known hash
    | none => .notified (round - 1)

/-- A block begins with a round of the history, and its hash comes from where the history before it says. -/
def Originates (start : InitialState) (ledger : Option StreamInfo) (calls : CallLog) (round : UInt64)
    (startState : StartState) : Prop :=
  ∃ before time after, calls = before ++ (.startRound round time, .ok ()) :: after ∧
    startState = startStateOf start ledger before round

theorem Originates.mono {start : InitialState} {ledger : Option StreamInfo} {calls calls' : CallLog} {round : UInt64}
    {startState : StartState} (h : Originates start ledger calls round startState) (hmore : calls <+: calls') :
    Originates start ledger calls' round startState := by
  obtain ⟨before, time, after, rfl, hstate⟩ := h
  obtain ⟨more, rfl⟩ := hmore
  exact ⟨before, time, after ++ more, by simp, hstate⟩

/-- The hash that a start state has come to, by what happened and by the calls that were made. -/
def HashOf (start : InitialState) (hs : List (Happening σ ω)) (calls : CallLog) : StartState → BlockHash → Prop
  | .known known, hash => hash = known
  | .supplied, hash => start.hash.ComesTo hs hash
  | .notified round, hash => (hashesNotified round calls).head? = some hash

theorem HashOf.mono {start : InitialState} {hs hs' : List (Happening σ ω)} {calls calls' : CallLog}
    {startState : StartState} {hash : BlockHash} (h : HashOf start hs calls startState hash) (hhs : hs <+: hs')
    (hcalls : calls <+: calls') : HashOf start hs' calls' startState hash := by
  cases startState with
  | known known => exact h
  | supplied => exact Promise.ComesTo.mono h hhs
  | notified round =>
    obtain ⟨more, rfl⟩ := hcalls
    show (hashesNotified round (calls ++ more)).head? = some hash
    rw [hashesNotified, List.filterMap_append, List.head?_append]
    rw [HashOf, hashesNotified] at h
    rw [h]
    rfl

/-- The hash for a block whose first round is `round`: the one that was supplied with the session, for the first
block of a new chain or if it was taken right before the round; zero for the first round of all; and otherwise the
one notified for the round before, last before the block or first after it began. -/
def StartsFrom (start : InitialState) (ledger : Option StreamInfo) (hs : List (Happening σ ω)) (before after : CallLog)
    (round : UInt64) (hash : BlockHash) : Prop :=
  if roundsStarted before = [] ∧ (ledger = none ∨ start.round.toNat + 1 = round.toNat) then start.hash.ComesTo hs hash
  else if round = 0 then hash = .zero
  else ((hashesNotified (round - 1) before).getLast? <|> (hashesNotified (round - 1) after).head?) = some hash

/-- The hash of a start state is that of the history. -/
theorem HashOf.startsFrom {start : InitialState} {ledger : Option StreamInfo} {hs : List (Happening σ ω)}
    {before after : CallLog} {round : UInt64} {time : Timestamp} {hash : BlockHash}
    (h : HashOf start hs (before ++ (.startRound round time, .ok ()) :: after)
      (startStateOf start ledger before round) hash) : StartsFrom start ledger hs before after round hash := by
  unfold startStateOf at h
  unfold StartsFrom
  split at h
  · rename_i hfirst
    rw [if_pos hfirst]
    exact h
  rename_i hfirst
  rw [if_neg hfirst]
  split at h
  · rename_i hzero
    rw [if_pos hzero]
    exact h
  rename_i hzero
  rw [if_neg hzero]
  split at h
  · rename_i known hlatest
    rw [hlatest, show hash = known from h]
    rfl
  · rename_i hlatest
    have hnone := List.getLast?_eq_none_iff.mp hlatest
    have hfirst : (hashesNotified (round - 1) (before ++ (.startRound round time, .ok ()) :: after)).head? =
        some hash := h
    rw [hashesNotified, List.filterMap_append] at hfirst
    rw [hlatest]
    rw [hashesNotified] at hnone
    rw [hnone] at hfirst
    exact hfirst

/-- The history names one hash for a block. -/
theorem StartsFrom.unique {start : InitialState} {ledger : Option StreamInfo} {hs : List (Happening σ ω)}
    {before after : CallLog} {round : UInt64} {a b : BlockHash} (hsound : start.hash.Sound)
    (ha : StartsFrom start ledger hs before after round a) (hb : StartsFrom start ledger hs before after round b) :
    a = b := by
  unfold StartsFrom at ha hb
  split at ha
  · rename_i hfirst
    rw [if_pos hfirst] at hb
    exact ha.unique hsound hb
  rename_i hfirst
  rw [if_neg hfirst] at hb
  split at ha
  · rename_i hzero
    rw [if_pos hzero] at hb
    exact ha.trans hb.symm
  · rename_i hzero
    rw [if_neg hzero] at hb
    exact Option.some.inj (ha.symm.trans hb)

namespace StreamState

variable {s : StreamState}

/-- A block that opens gets its hash from where the history says. -/
theorem opensFrom_eq {start : InitialState} {ledger : Option StreamInfo} {calls : CallLog} {round : UInt64}
    (hfound : s.bootstrap.1 = .ok ())
    (hunstarted : roundsStarted calls = [] → s.started = false ∧ s.ledger = ledger ∧ s.initialRound = some start.round)
    (hbegun : roundsStarted calls ≠ [] → s.initialRound = none)
    (hslot : round ≠ 0 → s.slots.find? (round - 1) = (hashesNotified (round - 1) calls).getLast?.map .known) :
    s.founded.opensFrom round = startStateOf start ledger calls round := by
  obtain ⟨hkeeps, -, -, -, hwarm⟩ := founded_spec hfound
  have htakes : s.founded.takesSupplied round = true ↔
      roundsStarted calls = [] ∧ (ledger = none ∨ start.round.toNat + 1 = round.toNat) := by
    unfold takesSupplied
    rw [hkeeps.initialRound]
    by_cases hnone : roundsStarted calls = []
    · obtain ⟨hnew, hledger, hinitial⟩ := hunstarted hnone
      rw [hinitial, hwarm hnew, hledger]
      simp [hnone]
    · simp [hbegun hnone, hnone]
  unfold opensFrom startStateOf
  by_cases hfirst : roundsStarted calls = [] ∧ (ledger = none ∨ start.round.toNat + 1 = round.toNat)
  · rw [if_pos (htakes.mpr hfirst), if_pos hfirst]
  rw [if_neg (fun h => hfirst (htakes.mp h)), if_neg hfirst, hkeeps.slots]
  by_cases hzero : round = 0
  · rw [if_pos hzero, slotState, if_pos hzero]
  rw [if_neg hzero]
  have hlatest := hslot hzero
  cases hnotified : (hashesNotified (round - 1) calls).getLast? with
  | some hash =>
    rw [hnotified] at hlatest
    exact slotState_of_known hzero hlatest
  | none =>
    rw [hnotified] at hlatest
    refine slotState_of_unknown hzero fun hash => ?_
    rw [hlatest]
    simp

/-- A block that closes is the one that was open. -/
theorem Takes.closed_of_pending {call : IntakeCall} {answer : Checked StreamError Unit} {t : StreamState}
    {more : Made} (ht : Takes s call answer t more) {closed : ClosedBlock} (hclosed : closed ∈ more.closed) :
    ∃ block, s.pending = some block ∧ closed.firstRound = block.firstRound ∧
      closed.startState = block.startState := by
  cases ht with
  | ends hends =>
    cases hends with
    | closed hclosing _ hsealed _ =>
      obtain rfl := List.mem_singleton.mp hclosed
      exact ⟨_, (closing?_eq_some_iff.mp hclosing).2.1, PendingBlock.sealed_eq_ok_startState hsealed⟩
    | _ => cases hclosed
  | _ => cases hclosed

/-- The end of intake changes nothing of what has begun to be written. -/
theorem stopIntake_writing_eq (s : StreamState) :
    s.stopIntake.writing = s.writing ∧ s.stopIntake.queue = s.queue := by
  have hbehind : s.stopIntake.core.behind = s.behind := by
    rw [core_stopIntake]
    rfl
  exact ⟨congrArg (·.writing) hbehind, congrArg (·.queue) hbehind⟩

end StreamState

/-! ### The blocks of a session -/

namespace Course

variable {signer : Signer σ} {writer : Writer ω} {config : StreamConfig} {policy : BoundaryPolicy}
  {start : InitialState} {ledger : Option StreamInfo} {c : Course σ ω}

/-- The hash of every block comes from where the history says. -/
structure Sourced (start : InitialState) (ledger : Option StreamInfo) (c : Course σ ω) : Prop where
  opened : ∀ block, c.stream.pending = some block →
    Originates start ledger c.calls block.firstRound block.startState
  closed : ∀ block ∈ c.made.closed, Originates start ledger c.calls block.firstRound block.startState

/-- A block that opens is one of the history. -/
theorem Remembers.originates (h : c.Remembers start) (hr : c.Regular config policy ledger)
    (hgoing : c.stopped = false) {round : UInt64} {time : Timestamp}
    (hok : (c.stream.startRound round time).1 = .ok ()) :
    Originates start ledger (c.calls ++ [(.startRound round time, .ok ())]) round
      (c.stream.founded.opensFrom round) := by
  refine ⟨c.calls, time, [], rfl, StreamState.opensFrom_eq (StreamState.startRound_eq_ok hok).2.1 ?_ h.begun ?_⟩
  · intro hnone
    obtain ⟨hnew, hinitial⟩ := h.unstarted hnone
    exact ⟨hnew, (hr.fresh_of_unstarted hnew).ledger, hinitial⟩
  · intro hround
    refine h.ahead hgoing (round - 1) fun previous hprevious => ?_
    have hfollows := (StreamState.startRound_spec hok).follows previous hprevious
    have hpred := toNat_pred hround
    rw [UInt64.le_iff_toNat_le]
    omega

theorem Sourced.takes (h : c.Sourced start ledger) (hm : c.Remembers start) (hr : c.Regular config policy ledger)
    (hgoing : c.stopped = false) {call : IntakeCall}
    (ht : StreamState.Takes c.stream call (c.stream.take call).1 (c.stream.take call).2.core (c.stream.made call)) :
    (c.called call).Sourced start ledger := by
  have hmore : c.calls <+: (c.called call).calls := List.prefix_append ..
  refine ⟨fun block hblock => ?_, fun block hblock => ?_⟩
  · cases hstart : startedBy (call, (c.stream.take call).1) with
    | none =>
      obtain ⟨before, hbefore, hfirst, hstate, -⟩ := ht.pending_of_unstarted hstart hblock
      rw [hfirst, hstate]
      exact (h.opened before hbefore).mono hmore
    | some round =>
      obtain ⟨time, rfl, hok⟩ := startedBy_eq_some hstart
      have hok' : (c.stream.startRound round time).1 = .ok () := hok
      rcases (StreamState.startRound_spec hok').block with ⟨before, hbefore, -, joined, hjoined, hfirst, hstate, -⟩ |
        ⟨-, -, opened, hopened, hfirst, hstate, -⟩
      · cases hjoined.symm.trans hblock
        rw [hfirst, hstate]
        exact (h.opened before hbefore).mono hmore
      · cases hopened.symm.trans hblock
        have horigin := hm.originates hr hgoing hok'
        rw [hfirst, hstate]
        show Originates start ledger (c.calls ++ [(.startRound round time, (c.stream.startRound round time).1)]) _ _
        rw [hok']
        exact horigin
  · rcases List.mem_append.mp hblock with hblock | hblock
    · exact (h.closed block hblock).mono hmore
    · obtain ⟨before, hbefore, hfirst, hstate⟩ := ht.closed_of_pending hblock
      rw [hfirst, hstate]
      exact (h.opened before hbefore).mono hmore

theorem Moves.sourced {d : Course σ ω} (hd : c.Moves d) (h : c.Sourced start ledger) (hm : c.Remembers start)
    (hr : c.Regular config policy ledger) : d.Sourced start ledger := by
  cases hd with
  | stays => exact h
  | takes hgoing ht => exact h.takes hm hr hgoing ht
  | stops _ =>
    have hpending : c.stream.stopIntake.core.pending = none := by rw [StreamState.core_stopIntake]
    exact ⟨fun block hblock => (by cases hpending.symm.trans hblock), h.closed⟩
  | aside hintake =>
    have hpending := congrArg (·.pending) hintake
    exact ⟨fun block hblock => h.opened block (hpending.symm.trans hblock), h.closed⟩

/-- In a session within limits, the hash of every block comes from where the history says. -/
theorem sourced_ofSession {σ₀ : σ} {ω₀ : ω} {hs : List (Happening σ ω)}
    (hlimits : (ofSession signer writer config policy start ledger σ₀ ω₀ hs).WithinLimits) :
    (ofSession signer writer config policy start ledger σ₀ ω₀ hs).Sourced start ledger :=
  (run_induction signer writer
    (P := fun d => d.Regular config policy ledger ∧ d.Remembers start ∧ d.Sourced start ledger)
    (fun d happening ⟨hr, hm, hd⟩ hl =>
      ⟨hr.step happening hl, hm.step hr happening hl, (d.moves_step happening hl).sourced hd hm hr⟩)
    ⟨regular_start config policy start ledger σ₀ ω₀, remembers_start config policy start ledger σ₀ ω₀,
      ⟨fun _ hblock => (by cases hblock), fun _ hblock => (by cases hblock)⟩⟩ hlimits).2.2

/-! ### Hashes on their way to the store -/

/-- What a stream finds for a start state is the hash that this has come to. -/
theorem Remembers.resolvesIn (h : c.Remembers start) {hs : List (Happening σ ω)}
    (hsupplied : (start.hash.told hs).MayDrop c.stream.supplied) :
    c.stream.ResolvesIn (HashOf start hs c.calls) := by
  intro startState hash hresolved
  unfold StreamState.resolve at hresolved
  cases startState with
  | known known =>
    cases hresolved
    rfl
  | supplied =>
    simp only at hresolved
    split at hresolved
    · rename_i value htaken
      cases hresolved
      exact ⟨hs, List.prefix_rfl, hsupplied.value? htaken⟩
    · cases hresolved
    · cases hresolved
    · cases hresolved
  | notified round =>
    simp only at hresolved
    split at hresolved
    · rename_i delivered hdelivered
      cases hresolved
      exact h.delivered round hash hdelivered
    · cases hresolved
    · cases hresolved

/-- What was begun to be written, and what the store was told, has the hash that the start state of its block has
come to. -/
structure Truthful (start : InitialState) (hs : List (Happening σ ω)) (c : Course σ ω) : Prop where
  supplied : (start.hash.told hs).MayDrop c.stream.supplied
  holding : c.stream.Holding (HashOf start hs c.calls)
  log : ∀ bytes answer, (.item bytes, answer) ∈ c.store.2 → ∃ block ∈ c.made.closed, ∃ hash signature,
    bytes = (block.proofItem hash signature).encode ∧ HashOf start hs c.calls block.startState hash

/-- A step that begins no write and tells the store nothing. -/
theorem Truthful.elsewhere {hs hs' : List (Happening σ ω)} (h : c.Truthful start hs) {d : Course σ ω}
    (hhs : hs <+: hs') (hcalls : c.calls <+: d.calls) (hclosed : c.made.closed <+: d.made.closed)
    (hsupplied : (start.hash.told hs').MayDrop d.stream.supplied)
    (hbehind : d.stream.writing = c.stream.writing ∧ d.stream.queue = c.stream.queue)
    (hlog : d.store.2 = c.store.2) : d.Truthful start hs' := by
  refine ⟨hsupplied, ?_, ?_⟩
  · intro write hw
    obtain ⟨queued, rest, hq, hhash⟩ := h.holding write (hbehind.1 ▸ hw)
    exact ⟨queued, rest, hbehind.2.trans hq, hhash.mono hhs hcalls⟩
  · intro bytes answer hmem
    obtain ⟨block, hblock, hash, signature, hbytes, hhash⟩ := h.log bytes answer (hlog ▸ hmem)
    exact ⟨block, hclosed.subset hblock, hash, signature, hbytes, hhash.mono hhs hcalls⟩

theorem supplied_of_takes {s t : StreamState} {call : IntakeCall} {more : Made}
    (ht : StreamState.Takes s call (s.take call).1 t more) : s.supplied.MayDrop (s.take call).2.supplied := by
  by_cases hnotify : ∃ round hash, call = .notify round hash
  · obtain ⟨round, hash, rfl⟩ := hnotify
    exact (s.notify_spec round hash).2.1
  push Not at hnotify
  cases hstart : startedBy (call, (s.take call).1) with
  | none => exact (ht.keepsHashes hstart hnotify).supplied
  | some round =>
    obtain ⟨time, rfl, hok⟩ := startedBy_eq_some hstart
    exact (StreamState.startRound_spec hok).supplied

/-- A call. -/
theorem Truthful.called {hs : List (Happening σ ω)} (h : c.Truthful start hs) {call : IntakeCall}
    (ht : StreamState.Takes c.stream call (c.stream.take call).1 (c.stream.take call).2.core (c.stream.made call)) :
    (c.called call).Truthful start (hs ++ [.call call]) := by
  have hbehind : (c.stream.take call).2.writing = c.stream.writing ∧ (c.stream.take call).2.queue = c.stream.queue :=
    ht.writing_eq
  refine h.elsewhere (List.prefix_append ..) (List.prefix_append ..) (List.prefix_append ..) ?_ hbehind rfl
  have hheard := h.supplied.hear (.call call : Happening σ ω)
  rw [Promise.told, List.foldl_append]
  exact hheard.trans (supplied_of_takes ht)

/-- A duty. -/
theorem Truthful.work {hs : List (Happening σ ω)} (h : c.Truthful start hs) (hm : c.Remembers start)
    (hr : c.Regular config policy ledger) (duty : Duty) :
    (c.step signer writer (.work duty)).Truthful start (hs ++ [.work duty]) := by
  have hkeeps := c.stream.keepsHashes_perform signer.recorded writer.recorded c.signer c.store duty
  have hmore : ∀ startState hash, HashOf start hs c.calls startState hash →
      HashOf start (hs ++ [.work duty]) c.calls startState hash :=
    fun _ _ hhash => hhash.mono (List.prefix_append ..) List.prefix_rfl
  refine ⟨?_, ?_, ?_⟩
  · rw [Promise.told, List.foldl_append]
    exact Promise.MayDrop.trans h.supplied hkeeps.supplied
  · have hholding : (c.stream.perform signer.recorded writer.recorded duty c.signer c.store).1.Holding
        (HashOf start hs c.calls) := h.holding.perform (hm.resolvesIn h.supplied) duty
    intro write hw
    obtain ⟨queued, rest, hq, hhash⟩ := hholding write hw
    exact ⟨queued, rest, hq, hmore _ _ hhash⟩
  · intro bytes answer hmem
    rcases StreamState.item_of_perform hmem with hold | ⟨write, queued, rest, hw, hq, hbytes⟩
    · obtain ⟨block, hblock, hash, signature, hbytes, hhash⟩ := h.log bytes answer hold
      exact ⟨block, hblock, hash, signature, hbytes, hmore _ _ hhash⟩
    · obtain ⟨base, hflow⟩ := hr.flow
      obtain ⟨first, others, hfirst, hhash⟩ := h.holding write hw
      rw [hq] at hfirst
      cases hfirst
      exact ⟨queued.block, hflow.mem_closed (hq ▸ List.mem_cons_self), _, _, hbytes, hmore _ _ hhash⟩

/-- **Whatever happens within limits, what is written is what the history says.** -/
theorem Truthful.step {hs : List (Happening σ ω)} (h : c.Truthful start hs) (hm : c.Remembers start)
    (hr : c.Regular config policy ledger) (happening : Happening σ ω)
    (hlimits : (c.step signer writer happening).WithinLimits) :
    (c.step signer writer happening).Truthful start (hs ++ [happening]) := by
  have hmore : hs <+: hs ++ [happening] := List.prefix_append ..
  have htold : start.hash.told (hs ++ [happening]) = (start.hash.told hs).hear happening := by
    rw [Promise.told, List.foldl_append]
    rfl
  have hheard : (start.hash.told (hs ++ [happening])).MayDrop (c.stream.supplied.hear happening) := by
    rw [htold]
    exact h.supplied.hear happening
  cases happening with
  | call call =>
    rcases c.call_cases call hlimits with hstays | ⟨-, ht, hstep⟩
    · rw [hstays]
      exact h.elsewhere hmore List.prefix_rfl List.prefix_rfl hheard ⟨rfl, rfl⟩ rfl
    · rw [hstep]
      exact h.called ht
  | supply hash =>
    have hcore := c.stream.core_supplyInitial hash
    have hkeeps := c.stream.keepsHashes_supplyInitial hash
    exact h.elsewhere hmore List.prefix_rfl List.prefix_rfl (hheard.trans hkeeps.supplied)
      ⟨StreamState.of_core StreamState.writing (fun _ => rfl) hcore,
        StreamState.of_core StreamState.queue (fun _ => rfl) hcore⟩ rfl
  | abandon =>
    have hcore := c.stream.core_abandonInitial
    have hkeeps := c.stream.keepsHashes_abandonInitial
    exact h.elsewhere hmore List.prefix_rfl List.prefix_rfl (hheard.trans hkeeps.supplied)
      ⟨StreamState.of_core StreamState.writing (fun _ => rfl) hcore,
        StreamState.of_core StreamState.queue (fun _ => rfl) hcore⟩ rfl
  | stop =>
    rw [Course.step]
    split
    · exact h.elsewhere hmore List.prefix_rfl List.prefix_rfl hheard ⟨rfl, rfl⟩ rfl
    · exact h.elsewhere hmore List.prefix_rfl List.prefix_rfl
        (hheard.trans c.stream.stopIntake_spec.2.2.2) c.stream.stopIntake_writing_eq rfl
  | work duty => exact h.work hm hr duty
  | resume => exact h.elsewhere hmore List.prefix_rfl List.prefix_rfl hheard ⟨rfl, rfl⟩ rfl
  | signer state => exact h.elsewhere hmore List.prefix_rfl List.prefix_rfl hheard ⟨rfl, rfl⟩ rfl
  | store state => exact h.elsewhere hmore List.prefix_rfl List.prefix_rfl hheard ⟨rfl, rfl⟩ rfl

/-- In a session within limits, what is written is what the history says. -/
theorem truthful_ofSession {σ₀ : σ} {ω₀ : ω} {hs : List (Happening σ ω)}
    (hlimits : (ofSession signer writer config policy start ledger σ₀ ω₀ hs).WithinLimits) :
    (ofSession signer writer config policy start ledger σ₀ ω₀ hs).Truthful start hs := by
  induction hs using List.reverseRecOn with
  | nil => exact ⟨.inl rfl, StreamState.holding_of_idle rfl, fun _ _ hmem => (by cases hmem)⟩
  | append_singleton hs happening ih =>
    rw [ofSession_append] at hlimits ⊢
    have hbefore := WithinLimits.of_run hlimits
    exact (ih hbefore).step (remembers_ofSession hbefore) (regular_ofSession hbefore) happening hlimits

/-! ### Blocks in the store -/

/-- There is one closed block of each number. -/
theorem Regular.closed_inj (h : c.Regular config policy ledger) {a b : ClosedBlock} (ha : a ∈ c.made.closed)
    (hb : b ∈ c.made.closed) (hnumber : a.number = b.number) : a = b := by
  rcases h.progress with ⟨-, hmade, -⟩ | ⟨info, -, hgrown, -⟩
  · rw [hmade] at ha
    cases ha
  · exact hgrown.linked.inj ha hb hnumber

/-- Every round is started once. -/
theorem Remembers.started_once (h : c.Remembers start) {before after : CallLog} {round : UInt64} {time : Timestamp}
    (hcalls : c.calls = before ++ (.startRound round time, .ok ()) :: after) :
    round ∉ roundsStarted before ∧ round ∉ roundsStarted after := by
  have hrounds : roundsStarted c.calls = roundsStarted before ++ round :: roundsStarted after := by
    rw [hcalls, roundsStarted, List.filterMap_append]
    rfl
  have hincreasing := h.increasing
  rw [hrounds, List.pairwise_append, List.pairwise_cons] at hincreasing
  obtain ⟨-, ⟨hafter, -⟩, hbefore⟩ := hincreasing
  exact ⟨fun hmem => UInt64.lt_irrefl _ (hbefore round hmem round List.mem_cons_self),
    fun hmem => UInt64.lt_irrefl _ (hafter round hmem)⟩

/-- A proof in the log names the hash of its block. -/
theorem Truthful.startsFrom {hs : List (Happening σ ω)} (h : c.Truthful start hs) (hsourced : c.Sourced start ledger)
    (hr : c.Regular config policy ledger) {w : Written} (hw : w.block ∈ c.made.closed)
    (hmem : (.item w.proof, .ok ()) ∈ c.store.2) :
    ∃ before time after, c.calls = before ++ (.startRound w.block.firstRound time, .ok ()) :: after ∧
      StartsFrom start ledger hs before after w.block.firstRound w.startState := by
  obtain ⟨block, hblock, hash, signature, hbytes, hhash⟩ := h.log _ _ hmem
  obtain ⟨hnumber, rfl⟩ := ClosedBlock.proofItem_inj hbytes
  obtain rfl := hr.closed_inj hw hblock hnumber
  obtain ⟨before, time, after, hcalls, horigin⟩ := hsourced.closed _ hblock
  rw [horigin, hcalls] at hhash
  exact ⟨before, time, after, hcalls, hhash.startsFrom⟩

/-- **Every written block starts from the hash that was supplied for it.** In every session within limits, whatever
happens and also once intake has ended, the blocks in the store are the first of the closed ones, and the proof that
the store took for each names the hash of `StartsFrom`, by the calls before and after the one that started the
block's first round. This is one hash, unless a value was there at first that a writer could replace. -/
theorem start_state_written (signer : Signer σ) (writer : Writer ω) (config : StreamConfig) (policy : BoundaryPolicy)
    (start : InitialState) (ledger : Option StreamInfo) (σ₀ : σ) (ω₀ : ω) (hs : List (Happening σ ω))
    (hlimits : (ofSession signer writer config policy start ledger σ₀ ω₀ hs).WithinLimits) :
    let c := ofSession signer writer config policy start ledger σ₀ ω₀ hs
    ∃ written : List Written, written.map Written.block <+: c.made.closed ∧
      List.Forall₂ Delivery.Brings (deliveries c.store.2) written ∧
      ∀ w ∈ written, ∃ before time after,
        c.calls = before ++ (.startRound w.block.firstRound time, .ok ()) :: after ∧
        w.block.firstRound ∉ roundsStarted before ∧ w.block.firstRound ∉ roundsStarted after ∧
        StartsFrom start ledger hs before after w.block.firstRound w.startState ∧
        (start.hash.Sound → ∀ hash, StartsFrom start ledger hs before after w.block.firstRound hash →
          hash = w.startState) := by
  intro c
  have hregular : c.Regular config policy ledger := regular_ofSession hlimits
  obtain ⟨base, hflow⟩ := hregular.flow
  obtain ⟨written, hblocks, hbrings, hproofs⟩ := hflow.delivered
  refine ⟨written, hblocks, hbrings, fun w hw => ?_⟩
  have hclosed : w.block ∈ c.made.closed := hblocks.subset (List.mem_map_of_mem hw)
  obtain ⟨before, time, after, hcalls, hstart⟩ :=
    (truthful_ofSession hlimits).startsFrom (sourced_ofSession hlimits) hregular hclosed (hproofs w hw)
  obtain ⟨hbefore, hafter⟩ := (remembers_ofSession hlimits).started_once hcalls
  exact ⟨before, time, after, hcalls, hbefore, hafter, hstart, fun hsound _ hother => hother.unique hsound hstart⟩

/-- Two rounds: the hash after the first is notified twice before the second, and the one that is supplied comes
when intake has ended. -/
def twoRounds : List (Happening SchemeSigner MemoryStore) :=
  [.call (.initLastHash .zero), .call (.startRound 1 ⟨⟨0⟩, 0⟩), .call (.endRound 1),
    .call (.notify 1 (.filled 1)), .call (.notify 1 (.filled 2)),
    .call (.startRound 2 ⟨⟨1⟩, 0⟩), .call (.endRound 2), .stop, .supply (.filled 3),
    .work .takeUp, .work (.sign 0), .work (.sign 1), .work .consider, .work .write, .work .write]

/-- The session of two rounds, with blocks in memory. -/
def twoRoundSession : Course SchemeSigner MemoryStore :=
  ofSession SchemeSigner.signer MemoryStore.writer {} .configured ⟨0, Promise.pending⟩ none
    SchemeSigner.trivial MemoryStore.new twoRounds

set_option maxRecDepth 10000 in
theorem start_state_written_two_rounds :
    twoRoundSession.WithinLimits ∧
      ∃ written : List Written, written.length = 2 ∧
        List.Forall₂ Delivery.Brings (deliveries twoRoundSession.store.2) written ∧
        ∀ w ∈ written, ∃ before after,
          StartsFrom ⟨0, Promise.pending⟩ none twoRounds before after w.block.firstRound w.startState := by
  have hlimits : twoRoundSession.WithinLimits := by decide +kernel
  have hlength : (deliveries twoRoundSession.store.2).length = 2 := by decide +kernel
  obtain ⟨written, -, hbrings, hstarts⟩ := start_state_written SchemeSigner.signer MemoryStore.writer {} .configured
    ⟨0, Promise.pending⟩ none SchemeSigner.trivial MemoryStore.new twoRounds hlimits
  refine ⟨hlimits, written, hbrings.length_eq.symm.trans hlength, hbrings, fun w hw => ?_⟩
  obtain ⟨before, time, after, -, -, -, hstart, -⟩ := hstarts w hw
  exact ⟨before, after, hstart⟩

end Course

end RoundChain
