import RoundChain.Proofs.Logs
import RoundChain.Signing.Rehearsal
import RoundChain.Store.Memory
import Mathlib.Data.Nat.Find
import Mathlib.Logic.Function.Iterate

/-!
# Attempts within a budget

Signing and writing are tried again while they fail, as often as the settings allow.
`retry_budgets` says for both, whatever the signer and the store answer, how many
attempts are made, what each of them asks, what is counted and how the last one is
reported.

## The model

`signAttempts` and `writeAttempts` are one loop, `Trial.run`, around different attempts.
A `Trial` is an attempt on some state with the failures that may pass. Its outcomes are
those of attempts one after the other, however many; `Uses` says which of them the loop
comes to see.
-/

namespace RoundChain

variable {σ ω τ ε α β : Type}

/-! ### Budgets -/

/-- The state after a step was repeated `n` times. -/
def repeated (step : τ → β × τ) (t : τ) (n : Nat) : τ := (fun t => (step t).2)^[n] t

/-- What a step answers behind `n` repetitions. -/
def answers (step : τ → β × τ) (t : τ) (n : Nat) : β := (step (repeated step t n)).1

theorem repeated_succ (step : τ → β × τ) (t : τ) (n : Nat) :
    repeated step t (n + 1) = (step (repeated step t n)).2 :=
  Function.iterate_succ_apply' ..

/-- Of outcomes that come one after the other, the first `n` are used: none but the last of them settles the matter,
and the last does unless no more are allowed. -/
structure Uses (settles : α → Bool) (outcome : Nat → α) (allowed n : Nat) : Prop where
  positive : 0 < n
  within : n ≤ allowed
  before : ∀ i, i + 1 < n → settles (outcome i) = false
  last : n < allowed → settles (outcome (n - 1)) = true

section

variable {settles : α → Bool} {outcome : Nat → α} {allowed n : Nat}

/-- A budget is used somehow. -/
theorem exists_uses (settles : α → Bool) (outcome : Nat → α) (hallowed : 0 < allowed) :
    ∃ n, Uses settles outcome allowed n := by
  by_cases hsettled : ∃ i, i + 1 < allowed ∧ settles (outcome i) = true
  · refine ⟨Nat.find hsettled + 1, Nat.succ_pos _, ?_, fun i hi => ?_, fun _ => (Nat.find_spec hsettled).2⟩
    · exact Nat.le_of_lt (Nat.find_spec hsettled).1
    · have hnot := Nat.find_min hsettled (Nat.lt_of_succ_lt_succ hi)
      have hbound := (Nat.find_spec hsettled).1
      rw [not_and, Bool.not_eq_true] at hnot
      exact hnot (by omega)
  · refine ⟨allowed, hallowed, Nat.le_refl _, fun i hi => ?_, fun h => absurd h (Nat.lt_irrefl _)⟩
    exact (Bool.not_eq_true _).mp fun htrue => hsettled ⟨i, hi, htrue⟩

/-- If `k` outcomes come before the first that settles the matter, it is the last one used, where it is allowed. -/
theorem Uses.eq_of_settled (h : Uses settles outcome allowed n) {k : Nat}
    (hbefore : ∀ i < k, settles (outcome i) = false) (hk : settles (outcome k) = true) : n = min (k + 1) allowed := by
  have hpositive := h.positive
  have hwithin := h.within
  have hle : n ≤ k + 1 := by
    by_contra hmore
    have hopen := h.before k (by omega)
    rw [hk] at hopen
    cases hopen
  rcases Nat.lt_or_ge n allowed with hlt | hge
  · have hge : k ≤ n - 1 := by
      by_contra hless
      have hopen := hbefore (n - 1) (by omega)
      rw [h.last hlt] at hopen
      cases hopen
    omega
  · omega

/-- If none of the outcomes that are allowed settles the matter, all of them are used. -/
theorem Uses.eq_of_unsettled (h : Uses settles outcome allowed n)
    (hnone : ∀ i < allowed, settles (outcome i) = false) : n = allowed := by
  have hpositive := h.positive
  have hwithin := h.within
  by_contra hne
  have hopen := hnone (n - 1) (by omega)
  rw [h.last (by omega)] at hopen
  cases hopen

end

/-! ### The loop -/

/-- A step that is tried again while it fails in a way that may pass. -/
structure Trial (τ ε α : Type) where
  attempt : τ → Except ε α × τ
  mayPass : ε → Bool
  /-- How the failure of the last attempt is reported, with its number. -/
  report : UInt32 → ε → StreamError
  /-- Counts another attempt. -/
  count : Metrics → Metrics

namespace Trial

variable (p : Trial τ ε α)

/-- Makes the attempt with number `number` and, while they fail in a way that may pass, up to `left` further ones. -/
def run (p : Trial τ ε α) : Nat → UInt32 → τ → Metrics → (Except StreamError α × UInt32) × τ × Metrics
  | left, number, t, m =>
    match p.attempt t, left with
    | (.ok a, t), _ => ((.ok a, number), t, m)
    | (.error e, t), 0 => ((.error (p.report number e), number), t, m)
    | (.error e, t), left + 1 =>
      if p.mayPass e then run p left (number + 1) t (p.count m)
      else ((.error (p.report number e), number), t, m)

/-- Whether no attempt follows an outcome, even if more are allowed. -/
def settles : Except ε α → Bool
  | .ok _ => true
  | .error e => !p.mayPass e

variable {p} {t : τ} {left n i : Nat} {number : UInt32} {m : Metrics}

/-- An attempt that does not settle the matter is followed by another. -/
theorem run_of_unsettled (h : p.settles (p.attempt t).1 = false) :
    p.run (left + 1) number t m = p.run left (number + 1) (p.attempt t).2 (p.count m) := by
  conv_lhs => unfold run
  generalize p.attempt t = r at h ⊢
  obtain ⟨outcome, after⟩ := r
  cases outcome with
  | ok a => cases h
  | error e =>
    rw [settles, Bool.not_eq_false'] at h
    exact if_pos h

/-- An attempt that settles the matter, or behind which no other is allowed, is the last. -/
theorem run_of_settled (h : p.settles (p.attempt t).1 = true ∨ left = 0) :
    p.run left number t m = (((p.attempt t).1.mapError (p.report number), number), (p.attempt t).2, m) := by
  unfold run
  generalize p.attempt t = r at h ⊢
  obtain ⟨outcome, after⟩ := r
  cases outcome with
  | ok a => rfl
  | error e =>
    cases left with
    | zero => rfl
    | succ left =>
      rw [settles, Bool.not_eq_true'] at h
      have hfatal : p.mayPass e = false := h.resolve_right (Nat.succ_ne_zero left)
      exact if_neg (Bool.eq_false_iff.mp hfatal)

/-- **A loop that has made `i` attempts in vain is the loop that is left**, with the number of the next attempt. -/
theorem run_eq_run_after (hi : i ≤ left) (h : ∀ j < i, p.settles (answers p.attempt t j) = false) :
    p.run left 1 t m = p.run (left - i) (UInt32.ofNat (i + 1)) (repeated p.attempt t i) (p.count^[i] m) := by
  induction i with
  | zero => rfl
  | succ i ih =>
    rw [ih (Nat.le_of_succ_le hi) fun j hj => h j (Nat.lt_succ_of_lt hj)]
    obtain ⟨rest, hrest⟩ : ∃ rest, left - i = rest + 1 := ⟨left - i - 1, by omega⟩
    have hlater : left - (i + 1) = rest := by omega
    rw [hrest, run_of_unsettled (h i (Nat.lt_succ_self i)), hlater, repeated_succ, Function.iterate_succ_apply',
      UInt32.ofNat_add (i + 1) 1]
    rfl

/-- **What a loop comes to that uses `n` outcomes.** -/
theorem run_eq (h : Uses p.settles (answers p.attempt t) (left + 1) n) :
    p.run left 1 t m = (((answers p.attempt t (n - 1)).mapError (p.report (UInt32.ofNat n)), UInt32.ofNat n),
      repeated p.attempt t n, p.count^[n - 1] m) := by
  obtain ⟨i, rfl⟩ : ∃ i, n = i + 1 := ⟨n - 1, by have := h.positive; omega⟩
  have hwithin := h.within
  rw [run_eq_run_after (Nat.le_of_succ_le_succ hwithin) fun j hj => h.before j (Nat.succ_lt_succ hj),
    run_of_settled, repeated_succ]
  · rfl
  · rcases Nat.lt_or_ge (i + 1) (left + 1) with hlt | hge
    · exact .inl (h.last hlt)
    · exact .inr (by omega)

end Trial

/-- Attempts that are made, at the most. -/
theorem RetryPolicy.toNat_attempts (retry : RetryPolicy) : retry.attempts.toNat = max retry.maxAttempts.toNat 1 := by
  unfold attempts
  split
  · rename_i hzero
    rw [hzero]
    rfl
  · rename_i hpositive
    have hne : retry.maxAttempts.toNat ≠ 0 := fun h => hpositive (UInt32.toNat_inj.mp h)
    omega

/-- **A loop keeps its budget exactly**, and numbers its attempts from one on without overflow. -/
theorem Trial.run_within (p : Trial τ ε α) (retry : RetryPolicy) (t : τ) (m : Metrics) :
    let r := p.run (retry.attempts.toNat - 1) 1 t m
    ∃ n number, number.toNat = n ∧ Uses p.settles (answers p.attempt t) (max retry.maxAttempts.toNat 1) n ∧
      r = (((answers p.attempt t (n - 1)).mapError (p.report number), number), repeated p.attempt t n,
        p.count^[n - 1] m) ∧
      ∀ i < n, ∃ counter, counter.toNat = i + 1 ∧
        r = p.run (max retry.maxAttempts.toNat 1 - (i + 1)) counter (repeated p.attempt t i) (p.count^[i] m) := by
  intro r
  have hpositive : 0 < max retry.maxAttempts.toNat 1 := Nat.lt_of_lt_of_le Nat.one_pos (Nat.le_max_right _ _)
  rw [← retry.toNat_attempts] at hpositive ⊢
  obtain ⟨n, huses⟩ := exists_uses p.settles (answers p.attempt t) hpositive
  have hwithin := huses.within
  have hlast : retry.attempts.toNat - 1 + 1 = retry.attempts.toNat := Nat.succ_pred_eq_of_pos hpositive
  have hfits : ∀ i ≤ n, (UInt32.ofNat i).toNat = i := by
    intro i hi
    have hlt := retry.attempts.toNat_lt
    rw [UInt32.toNat_ofNat']
    exact Nat.mod_eq_of_lt (by omega)
  refine ⟨n, UInt32.ofNat n, hfits n (Nat.le_refl n), huses, run_eq (hlast.symm ▸ huses), fun i hi => ?_⟩
  refine ⟨UInt32.ofNat (i + 1), hfits (i + 1) hi, ?_⟩
  have hafter : r = p.run (retry.attempts.toNat - 1 - i) (UInt32.ofNat (i + 1)) (repeated p.attempt t i)
      (p.count^[i] m) :=
    run_eq_run_after (by omega) fun j hj => huses.before j (by omega)
  rwa [Nat.sub_sub, Nat.add_comm 1 i] at hafter

/-! ### Signing -/

section

/-- Signing a hash. -/
def Signer.trial (signer : Signer σ) (number : UInt64) (hash : BlockHash) : Trial σ StreamError BlockSignature where
  attempt s := signer.sign s hash
  mayPass _ := true
  report attempts e := .signatureFailed number attempts e.message
  count := Metrics.countSignatureRetry

variable (signer : Signer σ) (number : UInt64) (hash : BlockHash)

theorem signAttempts_eq_run (left : Nat) (attempt : UInt32) (s : σ) (m : Metrics) :
    signAttempts signer number hash left attempt s m = (signer.trial number hash).run left attempt s m := by
  induction left generalizing attempt s m with
  | zero =>
    unfold signAttempts Trial.run
    rw [show (signer.trial number hash).attempt s = signer.sign s hash from rfl]
    obtain ⟨_ | _, after⟩ := signer.sign s hash <;> rfl
  | succ left ih =>
    unfold signAttempts Trial.run
    rw [show (signer.trial number hash).attempt s = signer.sign s hash from rfl]
    obtain ⟨_ | _, after⟩ := signer.sign s hash
    · exact ih ..
    · rfl

theorem Signer.settles_trial : (signer.trial number hash).settles = Except.isOk := by
  funext outcome
  cases outcome <;> rfl

/-- Asking for one signature again and again is in the log, with the answers. -/
theorem repeated_sign_recorded (t : σ × SignLog) (n : Nat) :
    repeated (signer.recorded.sign · hash) t n = (repeated (signer.sign · hash) t.1 n,
      t.2 ++ (List.range n).map fun i => (hash, answers (signer.sign · hash) t.1 i)) := by
  induction n with
  | zero => exact Prod.ext rfl (List.append_nil _).symm
  | succ n ih =>
    rw [repeated_succ, ih, repeated_succ, List.range_succ, List.map_append, ← List.append_assoc]
    rfl

theorem answers_sign_recorded (t : σ × SignLog) :
    answers (signer.recorded.sign · hash) t = answers (signer.sign · hash) t.1 := by
  funext n
  rw [answers, repeated_sign_recorded]
  rfl

theorem Metrics.iterate_countSignatureRetry (n : Nat) (m : Metrics) :
    countSignatureRetry^[n] m = { m with signatureRetries := m.signatureRetries + UInt64.ofNat n } := by
  induction n with
  | zero => simp
  | succ n ih =>
    rw [Function.iterate_succ_apply', ih, countSignatureRetry, UInt64.ofNat_add, ← UInt64.add_assoc]
    rfl

/-- **What signing a hash comes to**: it uses the answers up to the first success, as far as its budget goes. -/
theorem signBlock_within (retry : RetryPolicy) (s : σ × SignLog) (m : Metrics) :
    let answer := answers (signer.sign · hash) s.1
    let asked := fun n => s.2 ++ (List.range n).map fun i => (hash, answer i)
    let r := signBlock signer.recorded retry number hash s m
    ∃ n last, last.toNat = n ∧ Uses Except.isOk answer (max retry.maxAttempts.toNat 1) n ∧
      r = (((answer (n - 1)).mapError fun e => .signatureFailed number last e.message, last),
        (repeated (signer.sign · hash) s.1 n, asked n),
        { m with signatureRetries := m.signatureRetries + UInt64.ofNat (n - 1) }) ∧
      ∀ i < n, ∃ counter t before, counter.toNat = i + 1 ∧ t.2 = asked i ∧
        r = signAttempts signer.recorded number hash (max retry.maxAttempts.toNat 1 - (i + 1)) counter t before := by
  intro answer asked r
  obtain ⟨n, last, hlast, huses, hends, hpasses⟩ := (signer.recorded.trial number hash).run_within retry s m
  rw [Signer.settles_trial] at huses
  simp only [← signAttempts_eq_run] at hends hpasses
  simp only [Signer.trial, answers_sign_recorded, repeated_sign_recorded,
    Metrics.iterate_countSignatureRetry] at huses hends hpasses
  refine ⟨n, last, hlast, huses, hends, fun i hi => ?_⟩
  obtain ⟨counter, hcounter, hpass⟩ := hpasses i hi
  exact ⟨counter, _, _, hcounter, rfl, hpass⟩

end

/-! ### Writing -/

section

/-- Writing a block. -/
def Writer.trial (writer : Writer ω) (number : UInt64) (calls : List WriteCall) : Trial ω WriteError Unit where
  attempt w := writer.performAll w calls
  mayPass := WriteError.retryable
  report attempts e := .writerFailed number attempts e.message
  count := Metrics.countWriteRetry

/-- Whether no attempt to write follows an outcome, even if more are allowed. -/
def WriteError.settles : Except WriteError Unit → Bool
  | .ok () => true
  | .error e => !e.retryable

variable (writer : Writer ω) (number : UInt64) (calls : List WriteCall)

theorem writeAttempts_eq_run (left : Nat) (attempt : UInt32) (w : ω) (m : Metrics) :
    writeAttempts writer number calls left attempt w m = (writer.trial number calls).run left attempt w m := by
  induction left generalizing attempt w m with
  | zero =>
    unfold writeAttempts Trial.run
    rw [show (writer.trial number calls).attempt w = writer.performAll w calls from rfl]
    obtain ⟨_ | _, after⟩ := writer.performAll w calls <;> rfl
  | succ left ih =>
    unfold writeAttempts Trial.run
    rw [show (writer.trial number calls).attempt w = writer.performAll w calls from rfl]
    obtain ⟨e | _, after⟩ := writer.performAll w calls
    · simp only [ih]
      rfl
    · rfl

theorem Writer.settles_trial : (writer.trial number calls).settles = WriteError.settles := by
  funext outcome
  cases outcome <;> rfl

/-- Attempts to write are in the log, one after the other. -/
theorem repeated_performAll_recorded (w : ω × WriteLog) (n : Nat) :
    ∃ tries : List WriteLog, tries.length = n ∧
      (∀ i log, tries[i]? = some log → Makes calls (answers (writer.performAll · calls) w.1 i) log) ∧
      repeated (writer.recorded.performAll · calls) w n =
        (repeated (writer.performAll · calls) w.1 n, w.2 ++ tries.flatten) := by
  induction n with
  | zero => exact ⟨[], rfl, nofun, Prod.ext rfl (List.append_nil _).symm⟩
  | succ n ih =>
    obtain ⟨tries, hlength, htries, hrepeated⟩ := ih
    obtain ⟨log, hlog, hlast⟩ := performAll_recorded_eq writer
      (repeated (writer.performAll · calls) w.1 n, w.2 ++ tries.flatten) calls
    refine ⟨tries ++ [log], by rw [List.length_append, hlength]; rfl, fun i other hi => ?_, ?_⟩
    · rcases Nat.lt_or_ge i tries.length with hold | hnew
      · exact htries i other (List.getElem?_append_left hold ▸ hi)
      · rw [List.getElem?_append_right hnew, List.getElem?_singleton] at hi
        split at hi
        · cases hi
          obtain rfl : i = n := by omega
          exact hlog
        · cases hi
    · rw [repeated_succ, hrepeated, hlast, repeated_succ, List.flatten_append, ← List.append_assoc]
      simp

theorem answers_performAll_recorded (w : ω × WriteLog) :
    answers (writer.recorded.performAll · calls) w = answers (writer.performAll · calls) w.1 := by
  funext n
  obtain ⟨tries, -, -, hrepeated⟩ := repeated_performAll_recorded writer calls w n
  obtain ⟨log, -, hlast⟩ := performAll_recorded_eq writer
    (repeated (writer.performAll · calls) w.1 n, w.2 ++ tries.flatten) calls
  rw [answers, hrepeated, hlast]
  rfl

theorem Metrics.iterate_countWriteRetry (n : Nat) (m : Metrics) :
    countWriteRetry^[n] m = { m with writeRetries := m.writeRetries + UInt64.ofNat n } := by
  induction n with
  | zero => simp
  | succ n ih =>
    rw [Function.iterate_succ_apply', ih, countWriteRetry, UInt64.ofNat_add, ← UInt64.add_assoc]
    rfl

/-- **What writing a block comes to**: it uses the attempts up to the first that succeeds or fails for good, as far as
its budget goes. -/
theorem writeBlock_within (retry : RetryPolicy) (w : ω × WriteLog) (m : Metrics) :
    let outcome := answers (writer.performAll · calls) w.1
    let r := writeBlock writer.recorded retry number calls w m
    ∃ n last, last.toNat = n ∧ Uses WriteError.settles outcome (max retry.maxAttempts.toNat 1) n ∧
      (∃ tries : List WriteLog, tries.length = n ∧
        (∀ i log, tries[i]? = some log → Makes calls (outcome i) log) ∧
        r = (((outcome (n - 1)).mapError fun e => .writerFailed number last e.message, last),
          (repeated (writer.performAll · calls) w.1 n, w.2 ++ tries.flatten),
          { m with writeRetries := m.writeRetries + UInt64.ofNat (n - 1) })) ∧
      ∀ i < n, ∃ counter t before, counter.toNat = i + 1 ∧ t.1 = repeated (writer.performAll · calls) w.1 i ∧
        r = writeAttempts writer.recorded number calls (max retry.maxAttempts.toNat 1 - (i + 1)) counter t before := by
  intro outcome r
  obtain ⟨n, last, hlast, huses, hends, hpasses⟩ := (writer.recorded.trial number calls).run_within retry w m
  rw [Writer.settles_trial] at huses
  simp only [← writeAttempts_eq_run] at hends hpasses
  simp only [Writer.trial, answers_performAll_recorded, Metrics.iterate_countWriteRetry] at huses hends hpasses
  refine ⟨n, last, hlast, huses, ?_, fun i hi => ?_⟩
  · obtain ⟨tries, hlength, htries, hrepeated⟩ := repeated_performAll_recorded writer calls w n
    exact ⟨tries, hlength, htries, hrepeated ▸ hends⟩
  · obtain ⟨counter, hcounter, hpass⟩ := hpasses i hi
    obtain ⟨tries, -, -, hrepeated⟩ := repeated_performAll_recorded writer calls w i
    exact ⟨counter, _, _, hcounter, by rw [hrepeated], hpass⟩

end

/-! ### Both budgets -/

/-- **Budgets are exact.** Whatever the settings, and whatever a signer and a store answer:

* Signing asks the signer for the one hash `n` times, where `n` is one more than the failures before its first success,
  but no more than are allowed; it counts one retry less. The result is the first success, or else the failure of the
  last attempt, with the number of attempts.
* Writing makes the calls of the block, the same ones in every attempt, up to the one that is refused. It stops at the
  first success, the first failure that cannot pass or the last attempt that is allowed, and counts one retry less than
  attempts. The result is the outcome of the last attempt, with the number of attempts.
* The counter of attempts runs through `1`, …, `n` without overflow. -/
theorem retry_budgets (signer : Signer σ) (writer : Writer ω) (retry : RetryPolicy) (number : UInt64)
    (hash : BlockHash) (batches : List Bytes) (proof : Bytes) (s : σ × SignLog) (w : ω × WriteLog) (m : Metrics) :
    let allowed := max retry.maxAttempts.toNat 1
    (let answer := answers (signer.sign · hash) s.1
      let r := signBlock signer.recorded retry number hash s m
      ∃ n, r.1.2.toNat = n ∧
        r.2.1.2 = s.2 ++ (List.range n).map (fun i => (hash, answer i)) ∧
        r.2.2 = { m with signatureRetries := m.signatureRetries + UInt64.ofNat (n - 1) } ∧
        (∀ k signature, (∀ i < k, (answer i).isOk = false) → answer k = .ok signature →
          n = min (k + 1) allowed ∧ (k < allowed → r.1.1 = .ok signature)) ∧
        ((∀ i < allowed, (answer i).isOk = false) → n = allowed ∧
          ∃ e, answer (n - 1) = .error e ∧ r.1.1 = .error (.signatureFailed number r.1.2 e.message)) ∧
        ∀ i < n, ∃ counter t before, counter.toNat = i + 1 ∧
          t.2 = s.2 ++ (List.range i).map (fun i => (hash, answer i)) ∧
          r = signAttempts signer.recorded number hash (allowed - (i + 1)) counter t before) ∧
    (let calls := blockCalls number batches proof
      let outcome := answers (writer.performAll · calls) w.1
      let r := writeBlock writer.recorded retry number calls w m
      ∃ (n : Nat) (tries : List WriteLog), r.1.2.toNat = n ∧ Uses WriteError.settles outcome allowed n ∧
        tries.length = n ∧ r.2.1.2 = w.2 ++ tries.flatten ∧
        (∀ i log, tries[i]? = some log → Makes calls (outcome i) log) ∧
        r.2.2 = { m with writeRetries := m.writeRetries + UInt64.ofNat (n - 1) } ∧
        r.1.1 = (outcome (n - 1)).mapError (fun e => .writerFailed number r.1.2 e.message) ∧
        ∀ i < n, ∃ counter t before, counter.toNat = i + 1 ∧ t.1 = repeated (writer.performAll · calls) w.1 i ∧
          r = writeAttempts writer.recorded number calls (allowed - (i + 1)) counter t before) := by
  intro allowed
  refine ⟨?_, ?_⟩
  · intro answer r
    obtain ⟨n, last, hlast, huses, hends, hpasses⟩ := signBlock_within signer number hash retry s m
    rw [show r = _ from hends]
    refine ⟨n, hlast, rfl, rfl, fun k signature hbefore hk => ?_, fun hnone => ?_, hends ▸ hpasses⟩
    · have hn := huses.eq_of_settled hbefore (by rw [show answers _ _ k = _ from hk]; rfl)
      refine ⟨hn, fun hlt => ?_⟩
      obtain rfl : n = k + 1 := hn.trans (Nat.min_eq_left hlt)
      show (answer k).mapError _ = _
      rw [hk]
      rfl
    · have hn := huses.eq_of_unsettled hnone
      have hfailed := hnone (n - 1) (by have := huses.positive; omega)
      refine ⟨hn, ?_⟩
      show ∃ e, answer (n - 1) = .error e ∧ (answer (n - 1)).mapError _ = _
      cases hanswer : answer (n - 1) with
      | ok signature => rw [hanswer] at hfailed; cases hfailed
      | error e => exact ⟨e, rfl, rfl⟩
  · intro calls outcome r
    obtain ⟨n, last, hlast, huses, ⟨tries, hlength, htries, hends⟩, hpasses⟩ :=
      writeBlock_within writer number calls retry w m
    rw [show r = _ from hends]
    exact ⟨n, tries, hlast, huses, hlength, rfl, htries, rfl, rfl, hends ▸ hpasses⟩

/-- A signer that fails twice gives its signature in the last of three attempts. -/
theorem retry_budgets_third_attempt :
    let r := signBlock ScriptedSigner.signer.recorded ⟨3, 50, 2000⟩ 0 .zero
      (⟨[2], .signing "scripted", some 0, [.zero], []⟩, []) {}
    r.1.2.toNat = 3 ∧ r.1.1 = .ok ⟨.trivial, trivialSignature .zero, none⟩ ∧ r.2.1.2.length = 3 := by
  intro r
  obtain ⟨⟨n, hlast, hlog, -, hfirst, -⟩, -⟩ := retry_budgets ScriptedSigner.signer MemoryStore.writer
    ⟨3, 50, 2000⟩ 0 .zero [] [] (⟨[2], .signing "scripted", some 0, [.zero], []⟩, []) (.new, []) {}
  obtain ⟨hn, hresult⟩ := hfirst 2 ⟨.trivial, trivialSignature .zero, none⟩ (by decide +kernel) rfl
  obtain rfl : n = 3 := hn
  exact ⟨hlast, hresult (by decide), by rw [hlog]; rfl⟩

end RoundChain
