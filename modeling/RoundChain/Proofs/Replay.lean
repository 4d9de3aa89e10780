import RoundChain.Proofs.Course

/-!
# Logs are true

What a log says has happened. The log of a store is what the store answers if it is told
the same again, `Course.gains_run`; every signature in the log of a signer is one that
the signer gives in some state, `Course.trueSignatures_run`.
-/

namespace RoundChain

variable {σ ω : Type}

/-- A store answers in this way, from one state to another. -/
inductive Replays (writer : Writer ω) : ω → WriteLog → ω → Prop where
  | nil {w : ω} : Replays writer w [] w
  | cons {w w' : ω} {call : WriteCall} {rest : WriteLog} : Replays writer (writer.perform w call).2 rest w' →
      Replays writer w ((call, (writer.perform w call).1) :: rest) w'

theorem replays_append_iff {writer : Writer ω} {w w' : ω} {a b : WriteLog} :
    Replays writer w (a ++ b) w' ↔ ∃ between, Replays writer w a between ∧ Replays writer between b w' := by
  induction a generalizing w with
  | nil =>
    constructor
    · exact fun h => ⟨w, .nil, h⟩
    · rintro ⟨between, ha, hb⟩
      cases ha
      exact hb
  | cons entry rest ih =>
    constructor
    · intro h
      cases h with
      | cons hrest =>
        obtain ⟨between, ha, hb⟩ := ih.mp hrest
        exact ⟨between, .cons ha, hb⟩
    · rintro ⟨between, ha, hb⟩
      cases ha with
      | cons hrest => exact .cons (ih.mpr ⟨between, hrest, hb⟩)

/-- The entries that a log has gained are true. -/
def Gains (writer : Writer ω) (t u : ω × WriteLog) : Prop :=
  ∃ more, u.2 = t.2 ++ more ∧ Replays writer t.1 more u.1

theorem gains_refl (writer : Writer ω) (t : ω × WriteLog) : Gains writer t t :=
  ⟨[], (List.append_nil _).symm, .nil⟩

theorem Gains.trans {writer : Writer ω} {t u v : ω × WriteLog} (h : Gains writer t u)
    (h' : Gains writer u v) : Gains writer t v := by
  obtain ⟨more, hu, hreplays⟩ := h
  obtain ⟨more', hv, hreplays'⟩ := h'
  refine ⟨more ++ more', ?_, replays_append_iff.mpr ⟨u.1, hreplays, hreplays'⟩⟩
  rw [hv, hu, List.append_assoc]

/-- Every signature in the log is one that the signer gives in some state. -/
def TrueSignatures (signer : Signer σ) (log : SignLog) : Prop :=
  ∀ hash signature, (hash, .ok signature) ∈ log → ∃ state, (signer.sign state hash).1 = .ok signature

/-! ### Stores -/

section

variable (writer : Writer ω)

theorem gains_perform (t : ω × WriteLog) (call : WriteCall) : Gains writer t (writer.recorded.perform t call).2 :=
  ⟨[(call, (writer.perform t.1 call).1)], rfl, .cons .nil⟩

theorem gains_performAll (calls : List WriteCall) (t : ω × WriteLog) :
    Gains writer t (writer.recorded.performAll t calls).2 := by
  induction calls generalizing t with
  | nil => exact gains_refl writer t
  | cons call rest ih =>
    have hfirst := gains_perform writer t call
    cases h : (writer.recorded.perform t call).1 with
    | ok _ =>
      rw [performAll_cons_of_ok writer.recorded h]
      exact hfirst.trans (ih _)
    | error e =>
      rw [performAll_cons_of_error writer.recorded h]
      exact hfirst

theorem gains_writeAttempts (number : UInt64) (calls : List WriteCall) (left : Nat) (attempt : UInt32)
    (t : ω × WriteLog) (m : Metrics) :
    Gains writer t (writeAttempts writer.recorded number calls left attempt t m).2.1 := by
  induction left generalizing attempt t m with
  | zero =>
    have hall := gains_performAll writer calls t
    unfold writeAttempts
    rw [← Prod.eta (writer.recorded.performAll t calls)]
    cases (writer.recorded.performAll t calls).1 <;> exact hall
  | succ left ih =>
    have hall := gains_performAll writer calls t
    unfold writeAttempts
    rw [← Prod.eta (writer.recorded.performAll t calls)]
    cases (writer.recorded.performAll t calls).1 with
    | ok _ => exact hall
    | error e =>
      simp only
      split
      · exact hall.trans (ih _ _ _)
      · exact hall

theorem gains_writeFirst (s : StreamState) (block : ClosedBlock) (write : BlockWrite) (t : ω × WriteLog) :
    Gains writer t (s.writeFirst writer.recorded block write t).2.1 := by
  unfold StreamState.writeFirst
  split
  · exact gains_refl writer t
  · rename_i calls _
    have hwritten := gains_writeAttempts writer block.number calls (s.config.writeRetry.attempts.toNat - 1) 1 t
      s.metrics
    simp only
    split <;> exact hwritten

theorem gains_write (s : StreamState) (t : ω × WriteLog) :
    Gains writer t (s.write writer.recorded t).2.1 := by
  unfold StreamState.write
  split
  · exact gains_writeFirst writer s _ _ t
  · exact gains_refl writer t

end

/-! ### Signers -/

section

variable (signer : Signer σ)

theorem trueSignatures_sign {t : σ × SignLog} (h : TrueSignatures signer t.2) (hash : BlockHash) :
    TrueSignatures signer (signer.recorded.sign t hash).2.2 := by
  intro other signature hmem
  rcases List.mem_append.mp hmem with hmem | hmem
  · exact h other signature hmem
  · obtain ⟨rfl, hsigned⟩ := Prod.mk.inj (List.mem_singleton.mp hmem)
    exact ⟨t.1, hsigned.symm⟩

theorem trueSignatures_signAttempts (number : UInt64) (hash : BlockHash) (left : Nat) (attempt : UInt32)
    {t : σ × SignLog} (h : TrueSignatures signer t.2) (m : Metrics) :
    TrueSignatures signer (signAttempts signer.recorded number hash left attempt t m).2.1.2 := by
  induction left generalizing attempt t m with
  | zero =>
    have hsign := trueSignatures_sign signer h hash
    unfold signAttempts
    rw [← Prod.eta (signer.recorded.sign t hash)]
    cases (signer.recorded.sign t hash).1 <;> exact hsign
  | succ left ih =>
    have hsign := trueSignatures_sign signer h hash
    unfold signAttempts
    rw [← Prod.eta (signer.recorded.sign t hash)]
    cases (signer.recorded.sign t hash).1 with
    | ok _ => exact hsign
    | error e => exact ih _ hsign _

theorem trueSignatures_goOnSigning (s : StreamState) (signing : Signing) {t : σ × SignLog}
    (h : TrueSignatures signer t.2) :
    TrueSignatures signer (StreamState.goOnSigning signer.recorded s signing t).2.1.2 := by
  have hasked := askReady_recorded signer signing.asked t
  unfold StreamState.goOnSigning
  split
  · rename_i heq
    rw [heq] at hasked
    exact hasked ▸ h
  · rename_i t' heq
    rw [heq] at hasked
    have hsigned := trueSignatures_signAttempts signer signing.number signing.hash
      (s.config.signingRetry.attempts.toNat - 1) 1 (hasked ▸ h : TrueSignatures signer t'.2) s.metrics
    simp only
    split <;> exact hsigned

end

/-! ### Duties -/

theorem gains_duty (signer : Signer σ) (writer : Writer ω) (s : StreamState) (duty : Duty) (t : σ × SignLog)
    (u : ω × WriteLog) :
    Gains writer u (s.perform signer.recorded writer.recorded duty t u).2.2.1 := by
  cases duty with
  | write => exact gains_write writer s u
  | _ => exact gains_refl writer u

theorem trueSignatures_duty (signer : Signer σ) (writer : Writer ω) (s : StreamState) (duty : Duty)
    {t : σ × SignLog} (h : TrueSignatures signer t.2) (u : ω × WriteLog) :
    TrueSignatures signer (s.perform signer.recorded writer.recorded duty t u).2.1.2 := by
  cases duty with
  | sign number =>
    simp only [StreamState.perform, StreamState.signNumber]
    split
    · exact trueSignatures_goOnSigning signer s _ h
    · exact h
  | _ => exact h

/-! ### Courses -/

namespace Course

variable {signer : Signer σ} {writer : Writer ω}

/-- **The log of a store that nobody else changes is true.** -/
theorem gains_run (c : Course σ ω) {hs : List (Happening σ ω)} (halone : ∀ state, .store state ∉ hs) :
    Gains writer c.store (c.run signer writer hs).store := by
  induction hs generalizing c with
  | nil => exact gains_refl writer c.store
  | cons happening rest ih =>
    have hstep : Gains writer c.store (c.step signer writer happening).store := by
      cases happening with
      | work duty => exact gains_duty signer writer c.stream duty c.signer c.store
      | store state => exact absurd List.mem_cons_self (halone state)
      | call call =>
        rw [step]
        split <;> exact gains_refl writer c.store
      | stop =>
        rw [step]
        split <;> exact gains_refl writer c.store
      | _ => exact gains_refl writer c.store
    exact hstep.trans (ih _ fun state hmem => halone state (List.mem_cons_of_mem _ hmem))

/-- **The signatures in the log of a signer are true**, whatever others do to the signer. -/
theorem trueSignatures_run {c : Course σ ω} (h : TrueSignatures signer c.signer.2)
    (hs : List (Happening σ ω)) : TrueSignatures signer (c.run signer writer hs).signer.2 := by
  induction hs generalizing c with
  | nil => exact h
  | cons happening rest ih =>
    refine ih ?_
    cases happening with
    | work duty => exact trueSignatures_duty signer writer c.stream duty h c.store
    | call call =>
      rw [step]
      split <;> exact h
    | stop =>
      rw [step]
      split <;> exact h
    | _ => exact h

end Course

end RoundChain
