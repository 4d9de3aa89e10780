import RoundChain.Proofs.Flow

/-!
# Courses of a session

A session can take any course: calls of intake, duties of signing and writing in any
order, due or not, state hashes that arrive or do not, and changes that others make to
the signer and the store, as they come. The theorems on whole sessions speak of every list of such
happenings.

## The model

A `Course` is a session with the history that these theorems speak of: the calls with
their answers, the logs of the signer and of the store, and what the calls made. The
history decides nothing; it only grows beside the session.

Intake ends when the session is shut down. What is left then is the work on blocks that
have closed, and state hashes that may still arrive.
-/

namespace RoundChain

/-- Whether a call exceeded a limit of the program. -/
def Checked.exceeds {ε α : Type} : Checked ε α → Bool
  | .error (.exceeded _) => true
  | _ => false

/-- What can happen to a session. -/
inductive Happening (σ ω : Type) where
  /-- A call of intake. -/
  | call (call : IntakeCall)
  /-- The hash of the state before the session is supplied. -/
  | supply (hash : BlockHash)
  /-- The hash of the state before the session will not be supplied. -/
  | abandon
  /-- Intake ends. -/
  | stop
  /-- Signing and writing go on again. -/
  | resume
  /-- A duty, due or not. -/
  | work (duty : Duty)
  /-- Others change the signer. -/
  | signer (state : σ)
  /-- Others change the store. -/
  | store (state : ω)

/-- A session with its history. -/
structure Course (σ ω : Type) where
  stream : StreamState
  signer : σ × SignLog
  store : ω × WriteLog
  /-- Whether intake has ended. -/
  stopped : Bool
  /-- The block that was open when intake ended. -/
  left : Option PendingBlock
  calls : List (IntakeCall × Checked StreamError Unit)
  made : Made

namespace Course

variable {σ ω : Type}

/-- A session at its beginning. -/
def start (stream : StreamState) (signer : σ) (store : ω) : Course σ ω :=
  ⟨stream, (signer, []), (store, []), false, none, [], {}⟩

section

variable (signer : Signer σ) (writer : Writer ω)

/-- Something happens. -/
def step (c : Course σ ω) : Happening σ ω → Course σ ω
  | .call call =>
    if c.stopped then c
    else
      let r := c.stream.take call
      { c with
        stream := r.2, calls := c.calls ++ [(call, r.1)], made := c.made.add (c.stream.made call) }
  | .supply hash => { c with stream := (c.stream.supplyInitial hash).2 }
  | .abandon => { c with stream := c.stream.abandonInitial.2 }
  | .stop =>
    if c.stopped then c
    else { c with stream := c.stream.stopIntake, stopped := true, left := c.stream.pending }
  | .resume => { c with stream := c.stream.resume.1 }
  | .work duty =>
    let r := c.stream.perform signer.recorded writer.recorded duty c.signer c.store
    { c with stream := r.1, signer := r.2.1, store := r.2.2.1 }
  | .signer state => { c with signer := (state, c.signer.2) }
  | .store state => { c with store := (state, c.store.2) }

/-- One thing happens after the other. -/
def run (c : Course σ ω) (hs : List (Happening σ ω)) : Course σ ω := hs.foldl (step signer writer) c

end

/-- A session with settings over a ledger state, after what happened. -/
def ofSession (signer : Signer σ) (writer : Writer ω) (config : StreamConfig) (policy : BoundaryPolicy)
    (start : InitialState) (ledger : Option StreamInfo) (σ₀ : σ) (ω₀ : ω) (hs : List (Happening σ ω)) :
    Course σ ω :=
  (Course.start (.initial config policy start ledger) σ₀ ω₀).run signer writer hs

/-- No call exceeded a limit of the program. -/
def WithinLimits (c : Course σ ω) : Prop := ∀ entry ∈ c.calls, entry.2.exceeds = false

instance (c : Course σ ω) : Decidable c.WithinLimits :=
  inferInstanceAs (Decidable (∀ entry ∈ c.calls, entry.2.exceeds = false))

/-- The block that is open, or that was when intake ended. -/
def open? (c : Course σ ω) : Option PendingBlock := c.stream.pending <|> c.left

/-- The chain that a session over a ledger state continues: the one that was there, or a new one at the hash
that a call gave. -/
def Continues (ledger : Option StreamInfo) (version : SoftwareVersion) (c : Course σ ω)
    (info : StreamInfo) : Prop :=
  ledger = some info ∨
    ledger = none ∧ ∃ anchor, (.initLastHash anchor, .ok ()) ∈ c.calls ∧
      info = StreamInfo.anchored anchor version

/-! ### Runs -/

section

variable {signer : Signer σ} {writer : Writer ω}

theorem run_append (c : Course σ ω) (hs later : List (Happening σ ω)) :
    c.run signer writer (hs ++ later) = (c.run signer writer hs).run signer writer later :=
  List.foldl_append

theorem calls_step (c : Course σ ω) (h : Happening σ ω) : c.calls <+: (c.step signer writer h).calls := by
  cases h with
  | call call =>
    rw [step]
    split
    · exact List.prefix_rfl
    · exact List.prefix_append ..
  | stop =>
    rw [step]
    split <;> exact List.prefix_rfl
  | _ => exact List.prefix_rfl

theorem calls_run (c : Course σ ω) (hs : List (Happening σ ω)) : c.calls <+: (c.run signer writer hs).calls := by
  induction hs generalizing c with
  | nil => exact List.prefix_rfl
  | cons h hs ih => exact (c.calls_step h).trans (ih _)

theorem WithinLimits.of_run {c : Course σ ω} {hs : List (Happening σ ω)}
    (h : (c.run signer writer hs).WithinLimits) : c.WithinLimits :=
  fun entry he => h entry ((c.calls_run hs).subset he)

theorem ofSession_append (config : StreamConfig) (policy : BoundaryPolicy) (start : InitialState)
    (ledger : Option StreamInfo) (σ₀ : σ) (ω₀ : ω) (hs later : List (Happening σ ω)) :
    ofSession signer writer config policy start ledger σ₀ ω₀ (hs ++ later) =
      (ofSession signer writer config policy start ledger σ₀ ω₀ hs).run signer writer later :=
  run_append _ hs later

theorem ofSession_concat (config : StreamConfig) (policy : BoundaryPolicy) (start : InitialState)
    (ledger : Option StreamInfo) (σ₀ : σ) (ω₀ : ω) (hs : List (Happening σ ω)) (happening : Happening σ ω) :
    ofSession signer writer config policy start ledger σ₀ ω₀ (hs ++ [happening]) =
      (ofSession signer writer config policy start ledger σ₀ ω₀ hs).step signer writer happening :=
  ofSession_append ..

/-- A call is not taken any more, or it does what it can do to the stream and is noted. -/
theorem call_cases (c : Course σ ω) (call : IntakeCall)
    (hlimits : (c.step signer writer (.call call)).WithinLimits) :
    c.step signer writer (.call call) = c ∨
      c.stopped = false ∧
        StreamState.Takes c.stream call (c.stream.take call).1 (c.stream.take call).2.core (c.stream.made call) ∧
        c.step signer writer (.call call) =
          { c with
            stream := (c.stream.take call).2, calls := c.calls ++ [(call, (c.stream.take call).1)]
            made := c.made.add (c.stream.made call) } := by
  rw [step] at hlimits ⊢
  split
  · exact .inl rfl
  rename_i hgoing
  rw [if_neg hgoing] at hlimits
  rcases c.stream.take_cases call with ⟨limit, hl⟩ | ht
  · have hwithin := hlimits _ (List.mem_append_right _ (List.mem_singleton_self _))
    rw [hl] at hwithin
    cases hwithin
  · exact .inr ⟨(Bool.not_eq_true _).mp hgoing, ht, rfl⟩

/-- What a step can do to intake: nothing, a call, its end, or something aside from it. -/
inductive Moves (c : Course σ ω) : Course σ ω → Prop where
  | stays : Moves c c
  | takes {call : IntakeCall} : c.stopped = false →
      StreamState.Takes c.stream call (c.stream.take call).1 (c.stream.take call).2.core (c.stream.made call) →
      Moves c
        { c with
          stream := (c.stream.take call).2, calls := c.calls ++ [(call, (c.stream.take call).1)]
          made := c.made.add (c.stream.made call) }
  | stops : c.stopped = false →
      Moves c { c with stream := c.stream.stopIntake, stopped := true, left := c.stream.pending }
  | aside {stream : StreamState} {signer : σ × SignLog} {store : ω × WriteLog} :
      stream.intake = c.stream.intake → Moves c { c with stream, signer, store }

theorem moves_step (c : Course σ ω) (happening : Happening σ ω)
    (hlimits : (c.step signer writer happening).WithinLimits) : c.Moves (c.step signer writer happening) := by
  cases happening with
  | call call =>
    rcases c.call_cases call hlimits with hstays | ⟨hgoing, ht, hstep⟩
    · rw [hstays]
      exact .stays
    · rw [hstep]
      exact .takes hgoing ht
  | stop =>
    rw [step]
    split
    · exact .stays
    · rename_i hgoing
      exact .stops ((Bool.not_eq_true _).mp hgoing)
  | supply hash => exact .aside (StreamState.intake_of_core_eq (c.stream.core_supplyInitial hash))
  | abandon => exact .aside (StreamState.intake_of_core_eq c.stream.core_abandonInitial)
  | resume => exact .aside rfl
  | work duty => exact .aside (c.stream.intake_perform _ _ _ _ duty)
  | signer state => exact .aside rfl
  | store state => exact .aside rfl

/-- **What every step within limits preserves holds after every run within limits.** -/
theorem run_induction (signer : Signer σ) (writer : Writer ω) {P : Course σ ω → Prop}
    (hstep : ∀ c h, P c → (c.step signer writer h).WithinLimits → P (c.step signer writer h))
    {c : Course σ ω} (hc : P c) {hs : List (Happening σ ω)}
    (hlimits : (c.run signer writer hs).WithinLimits) : P (c.run signer writer hs) := by
  induction hs generalizing c with
  | nil => exact hc
  | cons h hs ih =>
    exact ih (hstep c h hc (WithinLimits.of_run hlimits)) hlimits

end

theorem Continues.mono {ledger : Option StreamInfo} {version : SoftwareVersion} {c d : Course σ ω}
    {info : StreamInfo} (h : c.Continues ledger version info) (hcalls : c.calls ⊆ d.calls) :
    d.Continues ledger version info := by
  rcases h with h | ⟨hnone, anchor, hanchor, hinfo⟩
  · exact .inl h
  · exact .inr ⟨hnone, anchor, hcalls hanchor, hinfo⟩

end Course

end RoundChain
