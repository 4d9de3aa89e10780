import RoundChain.Proofs.Growth

/-!
# What calls do to state hashes

A block starts from the hash that was supplied with the session, or from the hash that was
notified for the round before its first one. A stream keeps a notified hash in a slot until a
block uses it, and notes in the slot that a block waits. `StreamState.StartsWith` is what a
round that starts does to the slots; it forgets none that a block to come may need.

## The model

`StreamState.core` leaves the state hashes out, so calls are taken up here once more, for what
they do to slots, delivered hashes and the hash that was supplied. What no call and no duty
touches is `KeepsHashes`: only the reader of the supplied hash may give up on the way.
-/

namespace RoundChain

variable {σ ω : Type}

/-! ### Words -/

/-- The greatest word, which has no next one. -/
def lastWord : UInt64 := UInt64.ofNat (UInt64.size - 1)

theorem toNat_lastWord : lastWord.toNat = UInt64.size - 1 := rfl

theorem le_succ_or_eq_last {n q : UInt64} (h : n ≤ q) : n ≤ q + 1 ∨ q = lastWord := by
  have hsize := size_word
  have hq := q.toNat_lt
  have hlast := toNat_lastWord
  rw [UInt64.le_iff_toNat_le] at h ⊢
  rw [← UInt64.toNat_inj, UInt64.toNat_add, UInt64.toNat_one]
  omega

theorem le_lastWord (n : UInt64) : n ≤ lastWord := by
  have hn := n.toNat_lt
  rw [UInt64.le_iff_toNat_le, toNat_lastWord, size_word]
  omega

theorem toNat_pred {n : UInt64} (h : n ≠ 0) : (n - 1).toNat + 1 = n.toNat := by
  have hpos : n.toNat ≠ 0 := fun hzero => h (UInt64.toNat_inj.mp hzero)
  have hle : (1 : UInt64) ≤ n := by
    rw [UInt64.le_iff_toNat_le, UInt64.toNat_one]
    omega
  rw [UInt64.toNat_sub_of_le _ _ hle, UInt64.toNat_one]
  omega

/-! ### Blocks -/

namespace PendingBlock

theorem start_eq_ok_startState {number : UInt64} {previous : BlockHash} {round : UInt64} {time : Timestamp}
    {version : SoftwareVersion} {startState : StartState} {block : PendingBlock}
    (h : start number previous round time version startState = .ok block) :
    block.firstRound = round ∧ block.startState = startState ∧ block.roundCount = 1 := by
  obtain ⟨framed, -, rfl⟩ := push_eq_ok_iff.mp (append_eq_ok_iff.mp h).2
  exact ⟨rfl, rfl, rfl⟩

theorem append_eq_ok_startState {block extended : PendingBlock} {item : Item}
    (h : block.append item = .ok extended) :
    extended.firstRound = block.firstRound ∧ extended.startState = block.startState ∧
      extended.roundCount = block.roundCount := by
  obtain ⟨framed, -, rfl⟩ := push_eq_ok_iff.mp (append_eq_ok_iff.mp h).2
  exact ⟨rfl, rfl, rfl⟩

theorem sealed_eq_ok_startState {block : PendingBlock} {time : Timestamp} {captured position : ChangeBatch}
    {closed : ClosedBlock} (h : block.sealed time captured position = .ok closed) :
    closed.firstRound = block.firstRound ∧ closed.startState = block.startState := by
  obtain ⟨first, h₁, h⟩ := bind_eq_ok_iff.mp h
  obtain ⟨second, h₂, h⟩ := bind_eq_ok_iff.mp h
  cases h
  obtain ⟨hfirst, hstate, -⟩ := append_eq_ok_startState h₁
  obtain ⟨hfirst', hstate', -⟩ := append_eq_ok_startState h₂
  exact ⟨hfirst'.trans hfirst, hstate'.trans hstate⟩

end PendingBlock

/-- `q` is `p`, or `p` with its reader gone. -/
def Promise.MayDrop {α : Type} (p q : Promise α) : Prop := q = p ∨ q = p.dropReader.2

theorem Promise.MayDrop.trans {α : Type} {p q r : Promise α} (h : p.MayDrop q) (h' : q.MayDrop r) :
    p.MayDrop r := by
  rcases h with rfl | rfl
  · exact h'
  · rcases h' with rfl | rfl <;> exact .inr rfl

namespace StreamState

variable {s t u : StreamState}

/-! ### What is kept -/

/-- `t` knows of state hashes what `s` does, but the hash that was supplied may have lost its reader. -/
structure KeepsHashes (s t : StreamState) : Prop where
  slots : t.slots = s.slots
  delivered : t.delivered = s.delivered
  initialRound : t.initialRound = s.initialRound
  supplied : s.supplied.MayDrop t.supplied

theorem KeepsHashes.refl (s : StreamState) : s.KeepsHashes s := ⟨rfl, rfl, rfl, .inl rfl⟩

theorem KeepsHashes.trans (h : s.KeepsHashes t) (h' : t.KeepsHashes u) : s.KeepsHashes u :=
  ⟨h'.slots.trans h.slots, h'.delivered.trans h.delivered, h'.initialRound.trans h.initialRound,
    h.supplied.trans h'.supplied⟩

/-- What else a stream knows does not matter. -/
theorem KeepsHashes.elsewhere (h : t.KeepsHashes u) (hslots : t.slots = s.slots)
    (hdelivered : t.delivered = s.delivered) (hinitial : t.initialRound = s.initialRound)
    (hsupplied : t.supplied = s.supplied) : s.KeepsHashes u := by
  obtain ⟨hs, hd, hi, hp⟩ := h
  rw [hslots] at hs
  rw [hdelivered] at hd
  rw [hinitial] at hi
  rw [hsupplied] at hp
  exact ⟨hs, hd, hi, hp⟩

theorem keepsHashes_must (s : StreamState) (duty : Duty) : s.KeepsHashes (s.must duty) := by
  unfold must
  split <;> exact ⟨rfl, rfl, rfl, .inl rfl⟩

theorem keepsHashes_informed (s : StreamState) (startState : StartState) :
    s.KeepsHashes (s.informed startState) := by
  unfold informed
  split
  · exact s.keepsHashes_must _
  · exact .refl s

/-- The hash is supplied, and nothing else that is known of state hashes changes. -/
theorem keepsHashes_supplyInitial (s : StreamState) (hash : BlockHash) :
    KeepsHashes { s with supplied := (s.supplied.write hash).2 } (s.supplyInitial hash).2 :=
  keepsHashes_informed _ .supplied

theorem keepsHashes_abandonInitial (s : StreamState) :
    KeepsHashes { s with supplied := s.supplied.dropWriter.2 } s.abandonInitial.2 :=
  keepsHashes_informed _ .supplied

section

variable (signer : Signer σ) (writer : Writer ω) (s : StreamState) (σ₀ : σ) (ω₀ : ω)

theorem keepsHashes_stopWaiting (starts : List StartState) : s.KeepsHashes (s.stopWaiting starts) := by
  unfold stopWaiting
  split
  · exact ⟨rfl, rfl, rfl, .inr rfl⟩
  · exact .refl s

theorem keepsHashes_halt (e : StreamError) : s.KeepsHashes (s.halt e) :=
  (keepsHashes_stopWaiting _ _).elsewhere rfl rfl rfl rfl

theorem keepsHashes_takeUpFrom (blocks : List ClosedBlock) : s.KeepsHashes (s.takeUpFrom blocks).1 := by
  induction blocks generalizing s with
  | nil => exact ⟨rfl, rfl, rfl, .inl rfl⟩
  | cons block rest ih =>
    rw [StreamState.takeUpFrom]
    split
    · simp only
      split
      · exact (ih _).elsewhere rfl rfl rfl rfl
      · exact (keepsHashes_stopWaiting _ _).elsewhere rfl rfl rfl rfl
    · exact ⟨rfl, rfl, rfl, .inl rfl⟩

theorem keepsHashes_goOnSigning (signing : Signing) : s.KeepsHashes (goOnSigning signer s signing σ₀).1 := by
  unfold goOnSigning
  split
  · exact ⟨rfl, rfl, rfl, .inl rfl⟩
  · simp only
    split <;> exact ⟨rfl, rfl, rfl, .inl rfl⟩

theorem keepsHashes_beginWrite (block : ClosedBlock) (outcome : Except StreamError BlockSignature) :
    s.KeepsHashes (s.beginWrite block outcome).1 := by
  unfold beginWrite
  split
  · exact s.keepsHashes_halt _
  · split
    · exact .refl s
    · exact s.keepsHashes_halt _
    · exact ⟨rfl, rfl, rfl, .inl rfl⟩

theorem keepsHashes_consider : s.KeepsHashes s.consider.1 := by
  unfold consider
  split
  · exact s.keepsHashes_beginWrite _ _
  · exact .refl s

theorem keepsHashes_endWrite (block : ClosedBlock) (outcome : Except StreamError Unit) :
    s.KeepsHashes (s.endWrite block outcome).1 := by
  unfold endWrite
  split
  · exact s.keepsHashes_halt _
  · exact (keepsHashes_consider _).elsewhere rfl rfl rfl rfl

theorem keepsHashes_write : s.KeepsHashes (s.write writer ω₀).1 := by
  unfold write
  split
  · unfold writeFirst
    split
    · exact s.keepsHashes_halt _
    · simp only
      split
      · exact (keepsHashes_endWrite _ _ _).elsewhere rfl rfl rfl rfl
      · exact ⟨rfl, rfl, rfl, .inl rfl⟩
  · exact .refl s

/-- **No duty changes what is known of state hashes**, but the reader of the supplied one may give up. -/
theorem keepsHashes_perform (duty : Duty) : s.KeepsHashes (s.perform signer writer duty σ₀ ω₀).1 := by
  cases duty with
  | takeUp => exact s.keepsHashes_takeUpFrom _
  | sign number =>
    simp only [perform, signNumber]
    split
    · exact keepsHashes_goOnSigning signer s σ₀ _
    · exact .refl s
  | noteSigned number =>
    simp only [perform, noteSigned]
    split
    · split
      · exact ⟨rfl, rfl, rfl, .inl rfl⟩
      · exact .refl s
    · exact .refl s
  | consider => exact s.keepsHashes_consider
  | write => exact keepsHashes_write writer s ω₀
  | noteWritten =>
    simp only [perform, noteWritten]
    split
    · exact s.keepsHashes_endWrite _ _
    · exact .refl s

end

/-! ### The start state of a new block -/

/-- The start state that the notified hashes give a block whose first round is `round`. -/
def slotState (slots : WordMap HashSlot) (round : UInt64) : StartState :=
  if round = 0 then .known .zero
  else
    match slots.find? (round - 1) with
    | some (.known hash) => .known hash
    | _ => .notified (round - 1)

theorem slotState_of_known {slots : WordMap HashSlot} {round : UInt64} {hash : BlockHash} (hround : round ≠ 0)
    (h : slots.find? (round - 1) = some (.known hash)) : slotState slots round = .known hash := by
  simp only [slotState, if_neg hround, h]

theorem slotState_of_unknown {slots : WordMap HashSlot} {round : UInt64} (hround : round ≠ 0)
    (h : ∀ hash, slots.find? (round - 1) ≠ some (.known hash)) : slotState slots round = .notified (round - 1) := by
  unfold slotState
  rw [if_neg hround]
  split
  · rename_i hash hknown
    exact absurd hknown (h hash)
  · rfl

/-- Whether a block whose first round is `round` gets the hash that was supplied. -/
def takesSupplied (s : StreamState) (round : UInt64) : Bool :=
  s.initialRound.any fun initial => !s.warm || initial.toNat + 1 == round.toNat

/-- The start state of a block that opens with `round`. -/
def opensFrom (s : StreamState) (round : UInt64) : StartState :=
  if s.takesSupplied round then .supplied else slotState s.slots round

/-- What opening a block does to the state hashes: the slot before the first round may be used, or a block
waits for it from now on. -/
structure Asked (s : StreamState) (round : UInt64) (t : StreamState) : Prop where
  initialRound : t.initialRound = none
  delivered : t.delivered = s.delivered
  supplied : s.supplied.MayDrop t.supplied
  slots : ∀ q, t.slots.find? q = s.slots.find? q ∨ round ≠ 0 ∧ q = round - 1 ∧
    (t.slots.find? q = none ∨ ∀ hash, s.slots.find? q ≠ some (.known hash))

theorem startStateFromSlots_spec (s : StreamState) (round : UInt64) (hinitial : s.initialRound = none) :
    (s.startStateFromSlots round).1 = slotState s.slots round ∧
      s.Asked round (s.startStateFromSlots round).2 := by
  unfold startStateFromSlots
  by_cases hround : round = 0
  · rw [if_pos hround, slotState, if_pos hround]
    exact ⟨rfl, hinitial, rfl, .inl rfl, fun q => .inl rfl⟩
  rw [if_neg hround]
  split
  · rename_i hash hknown
    refine ⟨(slotState_of_known hround hknown).symm, hinitial, rfl, .inl rfl, fun q => ?_⟩
    by_cases hq : q = round - 1
    · exact .inr ⟨hround, hq, .inl (by simp [WordMap.find?_erase, hq])⟩
    · simp [WordMap.find?_erase, hq]
  · rename_i hunknown
    refine ⟨(slotState_of_unknown hround hunknown).symm, hinitial, rfl, .inl rfl, fun q => ?_⟩
    by_cases hq : q = round - 1
    · exact .inr ⟨hround, hq, .inr (hq ▸ hunknown)⟩
    · simp [WordMap.find?_insert, hq]

theorem startStateFor_spec {round : UInt64} {startState : StartState}
    (h : (s.startStateFor round).1 = .ok startState) :
    startState = s.opensFrom round ∧ s.Asked round (s.startStateFor round).2 := by
  unfold startStateFor at h ⊢
  unfold opensFrom takesSupplied
  cases hinitial : s.initialRound with
  | none =>
    simp only [hinitial] at h ⊢
    obtain ⟨hstate, hasked⟩ := s.startStateFromSlots_spec round hinitial
    cases h
    exact ⟨hstate, hasked⟩
  | some initial =>
    simp only [hinitial] at h ⊢
    cases hnext : nextWord (ε := StreamError) initial with
    | error e =>
      simp only [hnext] at h
      cases h
    | ok next =>
      have hnat := nextWord_eq_ok_iff.mp hnext
      have hsame : next = round ↔ initial.toNat + 1 = round.toNat := by
        rw [← hnat, UInt64.toNat_inj]
      simp only [hnext] at h ⊢
      by_cases htakes : next = round ∨ (!s.warm) = true
      · rw [if_pos htakes] at h ⊢
        cases h
        refine ⟨?_, rfl, rfl, .inl rfl, fun q => .inl rfl⟩
        rw [if_pos]
        rcases htakes with htakes | htakes
        · simp [hsame.mp htakes]
        · simp only [Option.any_some, htakes, Bool.true_or]
      · rw [if_neg htakes] at h ⊢
        rw [not_or] at htakes
        obtain ⟨hstate, hasked⟩ := startStateFromSlots_spec
          { s with initialRound := none, supplied := s.supplied.dropReader.2 } round rfl
        cases h
        refine ⟨?_, hasked.initialRound, hasked.delivered, .inr ?_, hasked.slots⟩
        · rw [hstate, if_neg]
          simpa [hsame] using And.intro htakes.2 htakes.1
        · rcases hasked.supplied with hsupplied | hsupplied <;> exact hsupplied

/-! ### The start of a round -/

/-- The stream once it has found the chain to continue. -/
def founded (s : StreamState) : StreamState := s.bootstrap.2

/-- Finding the chain leaves state hashes and the open block alone, and tells whether it was in ledger
state. -/
theorem founded_spec (h : s.bootstrap.1 = .ok ()) :
    s.KeepsHashes s.founded ∧ s.founded.pending = s.pending ∧ s.founded.lastRound = s.lastRound ∧
      s.founded.started = true ∧ (s.started = false → s.founded.warm = s.ledger.isSome) := by
  unfold founded
  unfold bootstrap at h ⊢
  split at h
  · rename_i hstarted
    rw [if_pos hstarted]
    exact ⟨.refl s, rfl, rfl, hstarted, fun hnot => by rw [hstarted] at hnot; cases hnot⟩
  · rename_i hstarted
    rw [if_neg hstarted]
    cases horigin : s.origin? with
    | none =>
      simp only [horigin] at h
      cases h
    | some info =>
      simp only [horigin] at h ⊢
      cases hnext : info.nextNumber (ε := StreamError) with
      | error e =>
        simp only [hnext] at h
        cases h
      | ok n => exact ⟨⟨rfl, rfl, rfl, .inl rfl⟩, rfl, rfl, rfl, fun _ => rfl⟩

theorem openBlock_spec {round : UInt64} {time : Timestamp} (h : (s.openBlock round time).1 = .ok ()) :
    s.Asked round (s.openBlock round time).2 ∧
      ∃ block, (s.openBlock round time).2.pending = some block ∧ block.firstRound = round ∧
        block.startState = s.opensFrom round ∧ block.roundCount = 1 := by
  unfold openBlock at h ⊢
  rcases s.startStateFor_cases round with ⟨limit, hl⟩ | ⟨startState, hok⟩
  · rw [StreamCall.andThen_of_error hl] at h
    cases h
  obtain ⟨hstate, hasked⟩ := startStateFor_spec hok
  rw [StreamCall.andThen_of_ok hok] at h ⊢
  split at h
  · cases h
  · rename_i block hstart
    simp only
    obtain ⟨hfirst, hfrom, hcount⟩ := PendingBlock.start_eq_ok_startState hstart
    exact ⟨⟨hasked.initialRound, hasked.delivered, hasked.supplied, hasked.slots⟩,
      block, rfl, hfirst, hfrom.trans hstate, hcount⟩

/-- What a round that starts does to the open block and to the state hashes. -/
structure StartsWith (s : StreamState) (round : UInt64) (t : StreamState) : Prop where
  follows : ∀ previous, s.lastRound = some previous → round.toNat = previous.toNat + 1
  lastRound : t.lastRound = some round
  delivered : t.delivered = s.delivered
  supplied : s.supplied.MayDrop t.supplied
  /-- What blocks to come may need is not touched. -/
  ahead : ∀ q, round ≤ q → t.slots.find? q = s.slots.find? q
  awaited : ∀ q, t.slots.find? q = some .awaited → s.slots.find? q = some .awaited ∨
    round ≠ 0 ∧ q = round - 1 ∧ ∀ hash, s.slots.find? q ≠ some (.known hash)
  /-- The slot of the last word could not be pruned. -/
  room : s.slots.find? lastWord = none
  block : (∃ block, s.pending = some block ∧ t.initialRound = s.initialRound ∧
      ∃ joined, t.pending = some joined ∧ joined.firstRound = block.firstRound ∧
        joined.startState = block.startState ∧ joined.roundCount = block.roundCount + 1) ∨
    s.pending = none ∧ t.initialRound = none ∧
      ∃ block, t.pending = some block ∧ block.firstRound = round ∧
        block.startState = s.founded.opensFrom round ∧ block.roundCount = 1

theorem checkSequence_eq_ok {round previous : UInt64} (h : s.checkSequence round = .ok ())
    (hprevious : s.lastRound = some previous) : round.toNat = previous.toNat + 1 := by
  unfold checkSequence at h
  rw [hprevious] at h
  obtain ⟨next, hnext, h⟩ := bind_eq_ok_iff.mp h
  split at h
  · rename_i hround
    rw [hround]
    exact nextWord_eq_ok_iff.mp hnext
  · cases h

/-- A slot that is pruned is of a round before the last one, and no block waits for it. -/
theorem find?_prune (slots : WordMap HashSlot) (round q : UInt64) :
    (slots.find? q = none ∨ round ≤ q + 1 →
        (slots.filter fun r slot => round ≤ r + 1 || slot == .awaited).find? q = slots.find? q) ∧
      ((slots.filter fun r slot => round ≤ r + 1 || slot == .awaited).find? q = some .awaited →
        slots.find? q = some .awaited) := by
  rw [WordMap.find?_filter]
  constructor
  · rintro (hnone | hq)
    · rw [hnone]
      rfl
    · cases slots.find? q <;> simp [Option.filter, hq]
  · intro h
    exact (Option.filter_eq_some_iff.mp h).1

/-- A slot of the greatest round would be counted past the range of a word. -/
theorem pruneSlots_eq_ok {round : UInt64} (h : (s.pruneSlots round).1 = .ok ()) :
    s.slots.contains lastWord = false ∧
      (s.pruneSlots round).2 =
        { s with slots := s.slots.filter fun r slot => round ≤ r + 1 || slot == .awaited } := by
  unfold pruneSlots at h ⊢
  split at h
  · cases h
  · rename_i hroom
    rw [if_neg hroom]
    exact ⟨(Bool.not_eq_true _).mp hroom, rfl⟩

/-- The stream in a round, before slots are pruned. -/
def roundBegun (s : StreamState) (round : UInt64) (time : Timestamp) : StreamState :=
  { (s.founded.joinRound round time).2 with
    lastRound := some round, phase := .roundOpen round time
    metrics := (s.founded.joinRound round time).2.metrics.countRound }

theorem startRound_eq_ok {round : UInt64} {time : Timestamp} (h : (s.startRound round time).1 = .ok ()) :
    s.checkSequence round = .ok () ∧ s.bootstrap.1 = .ok () ∧ (s.founded.joinRound round time).1 = .ok () ∧
      (s.roundBegun round time).slots.contains lastWord = false ∧
      (s.startRound round time).2 =
        { s.roundBegun round time with
          slots := (s.roundBegun round time).slots.filter fun r slot => round ≤ r + 1 || slot == .awaited } := by
  unfold startRound at h ⊢
  split at h
  · cases h
  · cases h
  split at h
  · cases h
  rename_i hsequence
  rcases s.bootstrap_cases with ⟨limit, hl⟩ | hrefused | ⟨hfound, -⟩
  · rw [StreamCall.andThen_of_error hl] at h
    cases h
  · rw [hrefused] at h
    cases h
  rw [StreamCall.andThen_of_ok hfound] at h
  rcases s.founded.joinRound_cases round time with ⟨limit, hl⟩ | ⟨hjoin, -⟩
  · rw [founded] at hl
    rw [StreamCall.andThen_of_error hl] at h
    cases h
  have hjoin' := hjoin
  rw [founded] at hjoin'
  rw [StreamCall.andThen_of_ok hjoin'] at h
  obtain ⟨hroom, hpruned⟩ := pruneSlots_eq_ok h
  refine ⟨hsequence, hfound, hjoin, hroom, ?_⟩
  rw [StreamCall.andThen_of_ok hfound, StreamCall.andThen_of_ok hjoin']
  exact hpruned

/-- Joining a round to the open block, or to a new one. -/
theorem joinRound_spec {round : UInt64} {time : Timestamp} (h : (s.joinRound round time).1 = .ok ()) :
    (∃ block, s.pending = some block ∧ s.KeepsHashes (s.joinRound round time).2 ∧
        (s.joinRound round time).2.pending = some (block.beginRound round time)) ∨
      s.pending = none ∧ s.Asked round (s.joinRound round time).2 ∧
        ∃ block, (s.joinRound round time).2.pending = some block ∧ block.firstRound = round ∧
          block.startState = s.opensFrom round ∧ block.roundCount = 1 := by
  unfold joinRound at h ⊢
  cases hpending : s.pending with
  | some block => exact .inl ⟨block, rfl, ⟨rfl, rfl, rfl, .inl rfl⟩, rfl⟩
  | none =>
    simp only [hpending] at h ⊢
    exact .inr ⟨trivial, openBlock_spec h⟩

/-- The slot that a new block uses is behind, so what blocks to come may need is not touched. -/
theorem Asked.slots_ahead {round : UInt64} (h : s.Asked round t) {q : UInt64} (hq : round ≤ q) :
    t.slots.find? q = s.slots.find? q := by
  rcases h.slots q with hsame | ⟨hround, rfl, -⟩
  · exact hsame
  · have hpred := toNat_pred hround
    rw [UInt64.le_iff_toNat_le] at hq
    omega

theorem roundBegun_slots_ahead {round : UInt64} {time : Timestamp} (hfound : s.bootstrap.1 = .ok ())
    (hjoin : (s.founded.joinRound round time).1 = .ok ()) {q : UInt64} (hq : round ≤ q) :
    (s.roundBegun round time).slots.find? q = s.slots.find? q := by
  obtain ⟨hkeeps, -⟩ := founded_spec hfound
  rcases joinRound_spec hjoin with ⟨block, -, hjoined, -⟩ | ⟨-, hasked, -⟩
  · exact congrArg (WordMap.find? · q) (hkeeps.trans hjoined).slots
  · exact (hasked.slots_ahead hq).trans (congrArg (WordMap.find? · q) hkeeps.slots)

/-- What a round does to state hashes before slots are pruned. -/
theorem roundBegun_spec {round : UInt64} {time : Timestamp} (hsequence : s.checkSequence round = .ok ())
    (hfound : s.bootstrap.1 = .ok ()) (hjoin : (s.founded.joinRound round time).1 = .ok ())
    (hroom : (s.roundBegun round time).slots.contains lastWord = false) :
    s.StartsWith round (s.roundBegun round time) := by
  obtain ⟨hkeeps, hpending, -, -, -⟩ := founded_spec hfound
  have hfollows : ∀ previous, s.lastRound = some previous → round.toNat = previous.toNat + 1 :=
    fun _ hprevious => checkSequence_eq_ok hsequence hprevious
  have hahead := fun q (hq : round ≤ q) => roundBegun_slots_ahead hfound hjoin hq
  have hfree : s.slots.find? lastWord = none := by
    rw [← hahead lastWord (le_lastWord round)]
    simpa [WordMap.contains] using hroom
  rcases joinRound_spec hjoin with ⟨block, hblock, hjoined, hnow⟩ | ⟨hnone, hasked, block, hnow, hblock⟩
  · have hall := hkeeps.trans hjoined
    refine ⟨hfollows, rfl, hall.delivered, hall.supplied, hahead, fun q hq => .inl ?_, hfree,
      .inl ⟨block, hpending ▸ hblock, hall.initialRound, _, hnow, rfl, rfl, rfl⟩⟩
    exact (congrArg (WordMap.find? · q) hall.slots).symm.trans hq
  · refine ⟨hfollows, rfl, hasked.delivered.trans hkeeps.delivered, hkeeps.supplied.trans hasked.supplied, hahead,
      ?_, hfree, .inr ⟨hpending ▸ hnone, hasked.initialRound, block, hnow, hblock⟩⟩
    intro q hq
    have hfounded : s.founded.slots.find? q = s.slots.find? q := congrArg (WordMap.find? · q) hkeeps.slots
    rw [← hfounded]
    rcases hasked.slots q with hsame | ⟨hround, hpred, hnone' | hunknown⟩
    · exact .inl (hsame.symm.trans hq)
    · have hq' : (s.founded.joinRound round time).2.slots.find? q = some .awaited := hq
      rw [hnone'] at hq'
      cases hq'
    · exact .inr ⟨hround, hpred, hunknown⟩

/-- No slot is pruned that a block to come may need. -/
theorem StartsWith.prune {round : UInt64} (h : s.StartsWith round t) :
    s.StartsWith round { t with slots := t.slots.filter fun r slot => round ≤ r + 1 || slot == .awaited } := by
  have hprune := fun q => find?_prune t.slots round q
  refine ⟨h.follows, h.lastRound, h.delivered, h.supplied, ?_, fun q hq => h.awaited q ((hprune q).2 hq), h.room,
    h.block⟩
  intro q hq
  rw [← h.ahead q hq]
  refine (hprune q).1 ?_
  rcases le_succ_or_eq_last hq with hsucc | rfl
  · exact .inr hsucc
  · exact .inl ((h.ahead lastWord hq).trans h.room)

/-- **What a round that starts does to the open block and to the state hashes.** -/
theorem startRound_spec {round : UInt64} {time : Timestamp} (h : (s.startRound round time).1 = .ok ()) :
    s.StartsWith round (s.startRound round time).2 := by
  obtain ⟨hsequence, hfound, hjoin, hroom, hpruned⟩ := startRound_eq_ok h
  rw [hpruned]
  exact (roundBegun_spec hsequence hfound hjoin hroom).prune

/-! ### Other calls -/

/-- A hash that is notified goes to the block that waits for it, or into its slot. -/
theorem notify_spec (s : StreamState) (round : UInt64) (hash : BlockHash) :
    (s.notify round hash).initialRound = s.initialRound ∧ s.supplied.MayDrop (s.notify round hash).supplied ∧
      (s.slots.find? round = some .awaited ∧ (s.notify round hash).slots = s.slots.erase round ∧
          (s.notify round hash).delivered = s.delivered.insert round hash ∨
        s.slots.find? round ≠ some .awaited ∧ (s.notify round hash).slots = s.slots.insert round (.known hash) ∧
          (s.notify round hash).delivered = s.delivered) := by
  unfold notify
  split
  · rename_i hawaited
    have hkeeps := keepsHashes_informed
      { s with slots := s.slots.erase round, delivered := s.delivered.insert round hash } (.notified round)
    exact ⟨hkeeps.initialRound, hkeeps.supplied, .inl ⟨hawaited, hkeeps.slots, hkeeps.delivered⟩⟩
  · rename_i hother
    exact ⟨rfl, .inl rfl, .inr ⟨hother, rfl, rfl⟩⟩

theorem keepsHashes_handOver (s : StreamState) (closed : ClosedBlock) :
    s.KeepsHashes (s.handOver closed).2 := by
  unfold handOver
  split
  · exact (keepsHashes_must _ _).elsewhere rfl rfl rfl rfl
  · exact .refl s

theorem keepsHashes_extendChain (s : StreamState) (closed : ClosedBlock) :
    s.KeepsHashes (s.extendChain closed).2 := by
  unfold extendChain
  simp only
  split
  · exact ⟨rfl, rfl, rfl, .inl rfl⟩
  · exact (keepsHashes_handOver _ _).elsewhere rfl rfl rfl rfl

theorem keepsHashes_closeBlock (s : StreamState) (block : PendingBlock) (time : Timestamp) :
    s.KeepsHashes (s.closeBlock block time).2 := by
  unfold closeBlock
  simp only
  split
  · exact ⟨rfl, rfl, rfl, .inl rfl⟩
  split
  · exact ⟨rfl, rfl, rfl, .inl rfl⟩
  split
  · exact ⟨rfl, rfl, rfl, .inl rfl⟩
  unfold sealBlock
  simp only
  split
  · exact ⟨rfl, rfl, rfl, .inl rfl⟩
  · exact (keepsHashes_extendChain _ _).elsewhere rfl rfl rfl rfl

theorem keepsHashes_endRound (s : StreamState) (round : UInt64) : s.KeepsHashes (s.endRound round).2 := by
  unfold endRound
  split
  · exact .refl s
  · split
    · exact .refl s
    · unfold closeAtBoundary
      split
      · exact ⟨rfl, rfl, rfl, .inl rfl⟩
      · split
        · exact (keepsHashes_closeBlock _ _ _).elsewhere rfl rfl rfl rfl
        · exact ⟨rfl, rfl, rfl, .inl rfl⟩

/-! ### The end of intake -/

theorem stopIntake_spec (s : StreamState) :
    s.stopIntake.slots = .empty ∧ s.stopIntake.delivered = s.delivered ∧
      s.stopIntake.initialRound = s.initialRound ∧ s.supplied.MayDrop s.stopIntake.supplied := by
  have hforget : ∀ t : StreamState, t.forgetNotified.slots = .empty ∧ t.forgetNotified.delivered = t.delivered ∧
      t.forgetNotified.initialRound = t.initialRound ∧ t.supplied.MayDrop t.forgetNotified.supplied := by
    intro t
    unfold forgetNotified
    simp only
    split
    · rename_i round _
      have hkeeps := keepsHashes_informed { t with slots := .empty } (.notified round)
      exact ⟨hkeeps.slots, hkeeps.delivered, hkeeps.initialRound, hkeeps.supplied⟩
    · exact ⟨rfl, rfl, rfl, .inl rfl⟩
  unfold stopIntake
  simp only
  refine ⟨(hforget _).1, (hforget _).2.1, (hforget _).2.2.1, Promise.MayDrop.trans ?_ (hforget _).2.2.2⟩
  simp only
  split
  · exact .inr rfl
  · exact .inl rfl

end StreamState

end RoundChain
