import RoundChain.Proofs.Convergence
import RoundChain.Proofs.HistoryProofs
import RoundChain.Proofs.VerifiedBlocks

/-!
# Readiness over runs of calls

A signer is asked and made to sign while parties register and nodes submit signatures, in any order. It
remembers that it was ready and does not look again. This is sound because of its services: a key and a
proof that are there once are there for good, so the signer has what its scheme needs exactly if it says
so, and it can sign from then on: `ready_for_good`. Signatures have the shape of the scheme, and that is
all a reader checks of them, `verifyBlock_not_blames`.

`Steady scheme` is what every call keeps of a signer. How services change is the relation `Grows`.
-/

namespace RoundChain

/-! ### Services -/

/-- What services provide, other services do as well. -/
structure SigningServices.Grows [Bls12381.Library] (services later : SigningServices) : Prop where
  key : ∀ key, services.verificationKey = some key → later.verificationKey = some key
  proofs : ∀ metadata proof, services.proofFor metadata = some proof → later.proofFor metadata = some proof

namespace SigningServices

variable {services later last : SigningServices} {metadata : Bytes} {proof : HistoryProof}

theorem needProof_eq_ok_iff : services.needProof metadata = .ok proof ↔ services.proofFor metadata = some proof := by
  unfold needProof
  cases services.proofFor metadata <;> simp

/-- A proof for metadata is one over it. -/
theorem metadata_of_proofFor (h : services.proofFor metadata = some proof) : proof.metadata = metadata := by
  obtain ⟨service, -, hproof⟩ := Option.bind_eq_some_iff.mp h
  cases service <;> exact eq_of_beq (List.find?_some (p := fun q : HistoryProof => q.metadata == metadata) hproof)

variable [Bls12381.Library]

theorem Grows.refl (services : SigningServices) : services.Grows services := ⟨fun _ => id, fun _ _ => id⟩

theorem Grows.trans (h : services.Grows later) (h' : later.Grows last) : services.Grows last :=
  ⟨fun key hkey => h'.key key (h.key key hkey), fun m p hproof => h'.proofs m p (h.proofs m p hproof)⟩

/-- **A key stays, whoever registers.** -/
theorem grows_register (services : SigningServices) (party : UInt64) (key : Bls12381.SecretKey) :
    services.Grows (services.register party key).2 := by
  unfold register
  split
  · rename_i c hthreshold
    refine ⟨fun bytes hbytes => ?_, fun _ _ => id⟩
    simp only [verificationKey, hthreshold, Option.bind_some, ThresholdService.verificationKey] at hbytes ⊢
    have hkey : c.key.isSome = true := by
      rw [ThresholdConstruction.verificationKey] at hbytes
      cases hnone : c.key with
      | none => rw [hnone] at hbytes; cases hbytes
      | some _ => rfl
    rw [ThresholdConstruction.register_eq c (party, key), if_pos hkey]
    exact hbytes
  · exact .refl _

/-- **A proof stays, whatever is submitted.** -/
theorem grows_submit [Ed25519.Library] (services : SigningServices) (node : UInt64) (metadata : Bytes)
    (signature : Ed25519.Signature) : services.Grows (services.submit node metadata signature).2 := by
  unfold submit
  split
  · rename_i c hhistory
    refine ⟨fun _ => id, fun other proof hproof => ?_⟩
    simp only [proofFor, hhistory, Option.bind_some, HistoryService.proofFor] at hproof ⊢
    exact HistoryCollector.proofFor_mono (c.proofs_prefix_submit node metadata signature) hproof
  · exact .refl _

/-- With a key, there is a construction to sign with. -/
theorem aggregate_ne_signerNotReady (h : services.verificationKey.isSome = true) (hash : BlockHash) :
    services.aggregate hash ≠ .error .signerNotReady := by
  unfold aggregate
  cases hthreshold : services.threshold with
  | none =>
    rw [verificationKey, hthreshold] at h
    cases h
  | some service =>
    cases service with
    | rehearsed key => nofun
    | construction c =>
      have hkey : c.key.isNone = false := by
        simpa [verificationKey, hthreshold, ThresholdService.verificationKey,
          ThresholdConstruction.verificationKey] using h
      simp only [ThresholdService.aggregateSignature, ThresholdConstruction.aggregateSignature, hkey,
        Bool.false_eq_true, if_false]
      split <;> simp [CryptoError.toStreamError]

end SigningServices

namespace SchemeSigner

variable [Bls12381.Library] {s d : SchemeSigner} {scheme : SignatureScheme} {hash : BlockHash}
  {signature : BlockSignature}

/-! ### Signatures -/

/-- What signatures of a scheme are like; `key` is the verification key. -/
def Shaped (scheme : SignatureScheme) (key : Option Bytes) (hash : BlockHash) (signature : BlockSignature) : Prop :=
  signature.scheme = scheme ∧
    match scheme with
    | .trivial => signature.bytes = (BlockHash.sha384 hash.bytes).bytes ∧ signature.history = none
    | .threshold => signature.history = none
    | .historyWrapped => signature.bytes = (BlockHash.sha384 hash.bytes).bytes ∧
        ∃ proof, signature.history = some proof ∧ proof.metadata = []
    | .thresholdWithHistory => ∃ proof, signature.history = some proof ∧ key = some proof.metadata

theorem shaped_of_signature (h : s.signature hash = .ok signature) :
    Shaped s.scheme s.services.verificationKey hash signature := by
  unfold SchemeSigner.signature at h
  split at h
  · rename_i hscheme
    cases h
    rw [hscheme]
    exact ⟨rfl, rfl, rfl⟩
  · rename_i hscheme
    obtain ⟨bytes, -, h⟩ := bind_eq_ok_iff.mp h
    cases h
    rw [hscheme]
    exact ⟨rfl, rfl⟩
  · rename_i hscheme
    obtain ⟨proof, hproof, h⟩ := bind_eq_ok_iff.mp h
    cases h
    have hmetadata := SigningServices.metadata_of_proofFor (SigningServices.needProof_eq_ok_iff.mp hproof)
    rw [hscheme]
    exact ⟨rfl, rfl, proof, rfl, hmetadata⟩
  · rename_i hscheme
    split at h
    · cases h
    rename_i key hkey
    obtain ⟨proof, hproof, h⟩ := bind_eq_ok_iff.mp h
    obtain ⟨bytes, -, h⟩ := bind_eq_ok_iff.mp h
    cases h
    have hmetadata := SigningServices.metadata_of_proofFor (SigningServices.needProof_eq_ok_iff.mp hproof)
    rw [hscheme]
    exact ⟨rfl, proof, rfl, hmetadata ▸ hkey⟩

/-- A signer that has what its scheme needs fails for no want of it. -/
theorem signature_ne_signerNotReady (h : s.bootstrapped = true) (hash : BlockHash) :
    s.signature hash ≠ .error .signerNotReady := by
  unfold SchemeSigner.signature
  unfold bootstrapped at h
  split
  · nofun
  · rename_i hscheme
    simp only [hscheme] at h
    intro hfails
    obtain hfails | ⟨bytes, -, hfails⟩ := bind_eq_error_iff.mp hfails
    · exact SigningServices.aggregate_ne_signerNotReady h hash hfails
    · cases hfails
  · rename_i hscheme
    simp only [hscheme] at h
    obtain ⟨proof, hproof⟩ := Option.isSome_iff_exists.mp h
    rw [SigningServices.needProof_eq_ok_iff.mpr hproof]
    nofun
  · rename_i hscheme
    simp only [hscheme, Option.any_eq_true] at h
    obtain ⟨key, hkey, hproof⟩ := h
    obtain ⟨proof, hproof⟩ := Option.isSome_iff_exists.mp hproof
    simp only [hkey]
    intro hfails
    obtain hfails | ⟨_, -, hfails⟩ := bind_eq_error_iff.mp hfails
    · rw [SigningServices.needProof_eq_ok_iff.mpr hproof] at hfails
      cases hfails
    obtain hfails | ⟨bytes, -, hfails⟩ := bind_eq_error_iff.mp hfails
    · exact SigningServices.aggregate_ne_signerNotReady (Option.isSome_iff_exists.mpr ⟨key, hkey⟩) hash hfails
    · cases hfails

/-! ### Saying so -/

/-- A signer of a scheme that says it is ready only if it has what the scheme needs. -/
structure Steady (s : SchemeSigner) (scheme : SignatureScheme) : Prop where
  scheme : s.scheme = scheme
  latched : s.wasReady = true → s.bootstrapped = true

theorem steady_ofConfig {config : SchemeConfig} {services : SigningServices} (h : ofConfig config services = .ok s) :
    s.Steady (.ofConfig config) := by
  unfold ofConfig at h
  simp only at h
  split at h
  · cases h
  split at h
  · cases h
  cases h
  refine ⟨rfl, fun hready => ?_⟩
  have htrivial : SignatureScheme.ofConfig config = .trivial := eq_of_beq hready
  rw [bootstrapped, new, htrivial]

/-- What the scheme needs stays there. -/
theorem bootstrapped_of_grows (hscheme : d.scheme = s.scheme) (hgrows : s.services.Grows d.services)
    (h : s.bootstrapped = true) : d.bootstrapped = true := by
  unfold bootstrapped at h ⊢
  rw [hscheme]
  split at h
  · rfl
  · obtain ⟨key, hkey⟩ := Option.isSome_iff_exists.mp h
    exact Option.isSome_iff_exists.mpr ⟨key, hgrows.key key hkey⟩
  · obtain ⟨proof, hproof⟩ := Option.isSome_iff_exists.mp h
    exact Option.isSome_iff_exists.mpr ⟨proof, hgrows.proofs _ proof hproof⟩
  · obtain ⟨key, hkey, h⟩ := (Option.any_eq_true ..).mp h
    obtain ⟨proof, hproof⟩ := Option.isSome_iff_exists.mp h
    exact (Option.any_eq_true ..).mpr
      ⟨key, hgrows.key key hkey, Option.isSome_iff_exists.mpr ⟨proof, hgrows.proofs _ proof hproof⟩⟩

/-- **A signer says that it is ready exactly if it has what its scheme needs.** -/
theorem Steady.isReady_eq (h : s.Steady scheme) :
    s.isReady = (s.bootstrapped, { s with wasReady := s.bootstrapped }) := by
  unfold isReady
  split
  · rename_i hwas
    rw [h.latched hwas, ← hwas]
  · rename_i hwas
    split
    · rename_i hhas
      rw [hhas]
    · rename_i hhas
      rw [(Bool.not_eq_true _).mp hhas, ← (Bool.not_eq_true _).mp hwas]

theorem Steady.sign_eq (h : s.Steady scheme) (hash : BlockHash) : s.sign hash =
    (if s.bootstrapped then s.signature hash else .error .signerNotReady, { s with wasReady := s.bootstrapped }) := by
  rw [sign, h.isReady_eq]
  cases s.bootstrapped <;> rfl

/-! ### Calls -/

/-- A call to a signer or to its services. -/
inductive Call where
  | isReady
  | sign (hash : BlockHash)
  | register (party : UInt64) (key : Bls12381.SecretKey)
  | submit (node : UInt64) (metadata : Bytes) (signature : Ed25519.Signature)
  deriving DecidableEq

variable [Ed25519.Library]

/-- The signer after a call. -/
def step (s : SchemeSigner) : Call → SchemeSigner
  | .isReady => s.isReady.2
  | .sign hash => (s.sign hash).2
  | .register party key => { s with services := (s.services.register party key).2 }
  | .submit node metadata signature => { s with services := (s.services.submit node metadata signature).2 }

/-- The signer after calls, one after the other. -/
def after (s : SchemeSigner) (calls : List Call) : SchemeSigner := calls.foldl step s

/-- **Every call keeps a signer steady, and its services grow.** -/
theorem Steady.step (h : s.Steady scheme) (call : Call) :
    (s.step call).Steady scheme ∧ s.services.Grows (s.step call).services := by
  cases call with
  | isReady =>
    rw [SchemeSigner.step, h.isReady_eq]
    exact ⟨⟨h.scheme, id⟩, .refl _⟩
  | sign hash =>
    rw [SchemeSigner.step, h.sign_eq]
    exact ⟨⟨h.scheme, id⟩, .refl _⟩
  | register party key =>
    have hgrows := s.services.grows_register party key
    exact ⟨⟨h.scheme, fun hwas => bootstrapped_of_grows (s := s) rfl hgrows (h.latched hwas)⟩, hgrows⟩
  | submit node metadata signature =>
    have hgrows := s.services.grows_submit node metadata signature
    exact ⟨⟨h.scheme, fun hwas => bootstrapped_of_grows (s := s) rfl hgrows (h.latched hwas)⟩, hgrows⟩

theorem Steady.after (h : s.Steady scheme) (calls : List Call) :
    (s.after calls).Steady scheme ∧ s.services.Grows (s.after calls).services := by
  induction calls generalizing s with
  | nil => exact ⟨h, .refl _⟩
  | cons call rest ih =>
    obtain ⟨hstep, hgrows⟩ := h.step call
    obtain ⟨hrest, hmore⟩ := ih hstep
    exact ⟨hrest, hgrows.trans hmore⟩

end SchemeSigner

/-! ### Readers -/

namespace Verification

variable {number : UInt64} {e : StreamError}

/-- An error that a reader gives for a signature. -/
def BlamesSignature (e : StreamError) : Prop :=
  ∃ number hash signature, checkSignature number hash signature = .error e

/-- Reasons are told apart by their first letter: those that blame a signature begin with one of these. -/
theorem BlamesSignature.head (h : BlamesSignature e) : ∃ number reason, e = .chainBroken number reason ∧
    (reason.toList.head? = some 't' ∨ reason.toList.head? = some 'h') := by
  obtain ⟨number, hash, signature, h⟩ := h
  unfold checkSignature at h
  split at h
  · exact ⟨number, _, (Except.error.inj h).symm, .inl (by decide)⟩
  split at h
  · exact ⟨number, _, (Except.error.inj h).symm, .inr (by decide)⟩
  · cases h

theorem not_blames_of_head {reason : String} (letter : Char) (h : reason.toList.head? = some letter)
    (hother : letter ≠ 't' ∧ letter ≠ 'h') : ¬ BlamesSignature (.chainBroken number reason) := by
  intro hblames
  obtain ⟨_, _, hsame, hhead⟩ := hblames.head
  cases hsame
  rw [h, Option.some.injEq, Option.some.injEq] at hhead
  exact hhead.elim hother.1 hother.2

theorem not_blames_of_decodeItem {bs : Bytes} (h : decodeItem bs = .error e) : ¬ BlamesSignature e := by
  have hnone : ∀ item, decodeItem bs ≠ .ok item := by
    rw [h]
    nofun
  obtain ⟨text, htext⟩ := decodeItem_eq_error hnone
  rw [h] at htext
  cases htext
  intro hblames
  obtain ⟨_, _, hsame, -⟩ := hblames.head
  cases hsame

theorem not_blames_of_readHeader {body : List Bytes} (h : readHeader body = .error e) : ¬ BlamesSignature e := by
  unfold readHeader at h
  split at h
  · cases h
    exact not_blames_of_head 'b' (by decide) (by decide)
  · obtain h | ⟨item, -, h⟩ := bind_eq_error_iff.mp h
    · exact not_blames_of_decodeItem h
    split at h
    · cases h
    · cases h
      refine not_blames_of_head 'f' (head_append ?_) (by decide)
      decide

theorem not_blames_of_readMiddle {items : List Bytes} {endTime : Timestamp}
    (h : readMiddle number endTime items = .error e) : ¬ BlamesSignature e := by
  induction items generalizing endTime with
  | nil => cases h
  | cons bs rest ih =>
    obtain h | ⟨item, -, h⟩ := bind_eq_error_iff.mp h
    · exact not_blames_of_decodeItem h
    cases item with
    | blockHeader _ =>
      cases h
      exact not_blames_of_head 's' (by decide) (by decide)
    | blockProof _ =>
      cases h
      exact not_blames_of_head 'p' (by decide) (by decide)
    | _ => exact ih h

theorem not_blames_of_checkLink {proof : BlockProof} {previous : BlockHash}
    (h : checkLink number proof previous = .error e) : ¬ BlamesSignature e := by
  unfold checkLink at h
  split at h
  · cases h
    refine not_blames_of_head 'p' (head_append ?_) (by decide)
    decide
  split at h
  · cases h
    refine not_blames_of_head 'p' (head_append (head_append (head_append ?_))) (by decide)
    decide
  · cases h

end Verification

open Verification

/-- **A reader that accepts a signature refuses the block for another reason, if at all.** -/
theorem not_blames_of_verifyBlock {items : List Bytes} {last : Bytes} {proof : BlockProof} {hash previous : BlockHash}
    (hlast : items.getLast? = some last) (hproof : decodeItem last = .ok (.blockProof proof))
    (hhash : blockHash proof.previous items.dropLast = .ok hash)
    (hsignature : ∀ number, checkSignature number hash proof.signature = .ok ()) {e : StreamError}
    (h : verifyBlock items previous = .error e) : ¬ BlamesSignature e := by
  unfold verifyBlock at h
  simp only [hlast] at h
  obtain h | ⟨header, -, h⟩ := bind_eq_error_iff.mp h
  · exact not_blames_of_readHeader h
  have hread : readProof header.number last = .ok proof := by
    rw [readProof, hproof]
    rfl
  rw [hread, ok_bind] at h
  obtain h | ⟨endTime, -, h⟩ := bind_eq_error_iff.mp h
  · exact not_blames_of_readMiddle h
  obtain h | ⟨_, -, h⟩ := bind_eq_error_iff.mp h
  · exact not_blames_of_checkLink h
  rw [hhash, ok_bind, hsignature] at h
  cases h

namespace SchemeSigner

/-! ### Main result -/

section

variable [Ed25519.Library] [Bls12381.Library]

/-- **A signer is ready for good once it has what its scheme needs.** It says so exactly then, however parties
register, nodes submit signatures and the signer is asked in between; it signs only then, and from then on it
never claims to be not ready. Its signatures have the shape of the scheme, and no reader refuses a block for one. -/
theorem ready_for_good {config : SchemeConfig} {services : SigningServices} {start : SchemeSigner}
    (hstart : ofConfig config services = .ok start) (calls : List Call) :
    let s := start.after calls
    s.isReady.1 = s.bootstrapped ∧
    (s.isReady.1 = true → ∀ more, (s.after more).isReady.1 = true ∧
      ∀ hash, ((s.after more).sign hash).1 ≠ .error .signerNotReady) ∧
    ∀ hash signature, (s.sign hash).1 = .ok signature →
      s.bootstrapped = true ∧
      Shaped (SignatureScheme.ofConfig config) s.services.verificationKey hash signature ∧
      ∀ (items : List Bytes) (last : Bytes) (proof : BlockProof) (previous : BlockHash) (e : StreamError),
        items.getLast? = some last → decodeItem last = .ok (.blockProof proof) → proof.signature = signature →
        blockHash proof.previous items.dropLast = .ok hash → verifyBlock items previous = .error e →
        ¬ BlamesSignature e := by
  have h := ((steady_ofConfig hstart).after calls).1
  refine ⟨congrArg Prod.fst h.isReady_eq, fun hready more => ?_, fun hash signature hsign => ?_⟩
  · rw [h.isReady_eq] at hready
    obtain ⟨hmore, hgrows⟩ := h.after more
    have hhas := bootstrapped_of_grows (hmore.scheme.trans h.scheme.symm) hgrows hready
    refine ⟨?_, fun hash => ?_⟩
    · rw [hmore.isReady_eq]
      exact hhas
    · rw [hmore.sign_eq, if_pos hhas]
      exact signature_ne_signerNotReady hhas hash
  · have hchecked := checkSignature_sign hsign
    rw [h.sign_eq] at hsign
    simp only at hsign
    split at hsign
    · rename_i hhas
      refine ⟨hhas, h.scheme ▸ shaped_of_signature hsign, ?_⟩
      rintro items last proof previous e hlast hproof rfl hhash hrefused
      exact not_blames_of_verifyBlock hlast hproof hhash hchecked hrefused
    · cases hsign

end

/-- A signer that draws on nothing but a collector. -/
def collecting (c : HistoryCollector) : SchemeSigner := .new .historyWrapped ⟨none, some (.collector c)⟩

/-- Submits a node's signature over no metadata. -/
def submitted (node : UInt8) : Call :=
  .submit node.toUInt64 [] (HistoryCollector.endorsementOf node).signature

theorem bootstrapped_after_submitted (nodes : List UInt8) :
    ((collecting HistoryCollector.threeCollector).after (nodes.map submitted)).bootstrapped =
      ((HistoryCollector.threeCollector.submitAll (nodes.map HistoryCollector.endorsementOf)).proofFor []).isSome := by
  have hservices : ∀ c : HistoryCollector, (collecting c).after (nodes.map submitted) =
      collecting (c.submitAll (nodes.map HistoryCollector.endorsementOf)) := by
    induction nodes with
    | nil => exact fun _ => rfl
    | cons node rest ih => exact fun c => ih _
  rw [hservices]
  rfl

/-- A signer that waits for two of three nodes: the second one is not enough for it, and with the first one it is
ready. -/
theorem twoEndorsements_ready :
    ofConfig ⟨false, true⟩ ⟨none, some (.collector HistoryCollector.threeCollector)⟩ =
        .ok (collecting HistoryCollector.threeCollector) ∧
      ((collecting HistoryCollector.threeCollector).after [submitted 2]).isReady.1 = false ∧
      ((collecting HistoryCollector.threeCollector).after [submitted 2, submitted 1]).isReady.1 = true := by
  have hstart : ofConfig ⟨false, true⟩ ⟨none, some (.collector HistoryCollector.threeCollector)⟩ =
      .ok (collecting HistoryCollector.threeCollector) := rfl
  have hformed := fun nodes : List UInt8 => (HistoryCollector.gathering_submitAll HistoryCollector.new_threeMembers
    (nodes.map HistoryCollector.endorsementOf)).formed []
  have hone := hformed [2]
  have htwo := hformed [2, 1]
  simp only [List.map_cons, List.map_nil, HistoryCollector.endorsers_two] at hone
  simp only [List.map_cons, List.map_nil, HistoryCollector.endorsers_two_one] at htwo
  refine ⟨hstart, ?_, ?_⟩
  · rw [(ready_for_good hstart _).1]
    exact (bootstrapped_after_submitted [2]).trans ((Bool.not_eq_true _).mp (hone.not.mpr (by decide)))
  · rw [(ready_for_good hstart _).1]
    exact (bootstrapped_after_submitted [2, 1]).trans (htwo.mpr (by decide))

end SchemeSigner

end RoundChain
