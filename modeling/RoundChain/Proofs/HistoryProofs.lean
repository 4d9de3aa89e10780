import RoundChain.Libraries
import RoundChain.Proofs.Rosters

/-!
# Proofs over runs of submissions

Nodes submit signatures in any order, again and again, over any metadata. There is a proof for metadata
exactly if the members that endorsed it have a third of the roster's weight, `proof_iff_third_endorsed`;
so the order does not count, and neither does what is submitted over other metadata.

## The model

`Gathering c book members submissions` ties a collector to what was submitted to it. As long as there is no
proof for metadata, the nodes whose signatures are gathered are those that endorsed it; a proof is made of
valid signatures of nodes that have a third of the weight. Signatures that come when there is a proof are not
kept, and they make no difference: the members that endorsed metadata only become more.
-/

namespace RoundChain

open Ed25519 (PublicKey Signature)

/-- A node's signature over metadata, as it is submitted. -/
structure Submission where
  node : UInt64
  metadata : Bytes
  signature : Signature
  deriving DecidableEq, Repr

/-- Whether the signature is one of this member, over its metadata together with an address book. -/
def Submission.isBy [Ed25519.Library] (s : Submission) (book : BlockHash) (member : Member) : Bool :=
  s.node == member.1 && (member.2.1.verifyBinding book.bytes s.metadata s.signature).isOk

/-- The members that have submitted a valid signature over metadata. -/
def endorsers [Ed25519.Library] (book : BlockHash) (members : List Member) (submissions : List Submission)
    (metadata : Bytes) : List Member :=
  members.filter fun member => submissions.any fun s => s.metadata == metadata && s.isBy book member

namespace HistoryCollector

section

variable {c : HistoryCollector} {s : Submission} {metadata : Bytes} {book : BlockHash} {members : List Member}
  {submissions : List Submission}

/-! ### One signature more -/

/-- The signatures for the metadata of a submission, with the one that is submitted. -/
def gatheredWith (c : HistoryCollector) (s : Submission) : WordMap Signature :=
  (c.signaturesFor s.metadata).insert s.node s.signature

/-- The collector with a submission gathered, and no proof for its metadata yet. -/
def waitingWith (c : HistoryCollector) (s : Submission) : HistoryCollector :=
  { c with gathered := (s.metadata, c.gatheredWith s) :: c.gatheredExcept s.metadata }

/-- The collector with the proof that a submission completes. -/
def formedWith (c : HistoryCollector) (s : Submission) : HistoryCollector :=
  { c with
    gathered := c.gatheredExcept s.metadata
    proofs := c.proofs ++ [c.proofOf s.metadata (c.gatheredWith s)] }

/-- Nodes have a third of the roster's weight. -/
def HasThird (c : HistoryCollector) (nodes : List UInt64) : Prop :=
  c.totalWeight.toNat ≤ 3 * (nodes.map c.weightAt).sum

theorem gather_eq (c : HistoryCollector) (s : Submission) : c.gather s.node s.metadata s.signature =
    match c.weightOf (c.gatheredWith s).keys with
    | .error e => (.error e, c.waitingWith s)
    | .ok weight =>
      if isStrongMinority weight c.totalWeight then (.ok true, c.formedWith s) else (.ok false, c.waitingWith s) := rfl

/-! ### What is gathered -/

@[simp] theorem proofFor_waitingWith : (c.waitingWith s).proofFor metadata = c.proofFor metadata := rfl

theorem signaturesFor_waitingWith : (c.waitingWith s).signaturesFor metadata =
    if metadata = s.metadata then c.gatheredWith s else c.signaturesFor metadata := by
  rw [signaturesFor, waitingWith, List.lookup_cons]
  by_cases h : metadata = s.metadata
  · simp [h]
  · rw [beq_false_of_ne h, if_neg h, gatheredExcept, lookup_filter_ne _ h]
    rfl

theorem signaturesFor_formedWith (h : metadata ≠ s.metadata) :
    (c.formedWith s).signaturesFor metadata = c.signaturesFor metadata := by
  rw [signaturesFor, formedWith, gatheredExcept, lookup_filter_ne _ h]
  rfl

theorem signaturesFor_formedWith_self : (c.formedWith s).signaturesFor s.metadata = .empty := by
  rw [signaturesFor, formedWith, gatheredExcept, lookup_filter_self]
  rfl

theorem proofFor_formedWith (hnone : c.proofFor s.metadata = none) : (c.formedWith s).proofFor metadata =
    if metadata = s.metadata then some (c.proofOf s.metadata (c.gatheredWith s)) else c.proofFor metadata := by
  rw [proofFor, formedWith, List.find?_append, ← proofFor, List.find?_singleton]
  by_cases h : metadata = s.metadata
  · rw [if_pos h, h, hnone]
    simp [proofOf]
  · have hother : ((c.proofOf s.metadata (c.gatheredWith s)).metadata == metadata) = false :=
      beq_false_of_ne (Ne.symm h)
    rw [if_neg h, hother]
    cases c.proofFor metadata <;> rfl

theorem proofFor_mono {d : HistoryCollector} {proof : HistoryProof} (h : c.proofs <+: d.proofs)
    (hproof : c.proofFor metadata = some proof) : d.proofFor metadata = some proof := by
  obtain ⟨more, hmore⟩ := h
  rw [proofFor, ← hmore, List.find?_append, ← proofFor, hproof]
  rfl

/-! ### Members -/

/-- The collector is one for a roster of these members. -/
structure Rostered (c : HistoryCollector) (book : BlockHash) (members : List Member) : Prop where
  sameBook : c.book = book
  roster : c.roster.entries.Perm (members.map entryOf)
  total : c.totalWeight.toNat = rosterWeight members

theorem Rostered.balanced (h : c.Rostered book members) : c.Balanced := by
  rw [Balanced, h.total, (h.roster.map _).sum_eq, List.map_map]
  rfl

/-! ### Submissions -/

variable [Ed25519.Library]

/-- The collector after submissions, one after the other. -/
def submitAll (c : HistoryCollector) (submissions : List Submission) : HistoryCollector :=
  submissions.foldl (fun c s => (c.submit s.node s.metadata s.signature).2) c

/-- All that a submission can do. -/
inductive Submits (c : HistoryCollector) (s : Submission) : Checked StreamError Bool → HistoryCollector → Prop where
  /-- The node is not in the roster, or the signature is not valid. -/
  | refused {e : StreamError} : ¬ c.Endorsed s.metadata s.node s.signature → Submits c s (refuse e) c
  /-- There is a proof already. -/
  | late : c.Endorsed s.metadata s.node s.signature → (c.proofFor s.metadata).isSome = true →
      Submits c s (.ok true) c
  /-- The signature is gathered. -/
  | waits : c.Endorsed s.metadata s.node s.signature → c.proofFor s.metadata = none →
      ¬ c.HasThird (c.gatheredWith s).keys → Submits c s (.ok false) (c.waitingWith s)
  /-- The signature completes the proof. -/
  | forms : c.Endorsed s.metadata s.node s.signature → c.proofFor s.metadata = none →
      c.HasThird (c.gatheredWith s).keys → Submits c s (.ok true) (c.formedWith s)

theorem Balanced.submits (hc : c.Balanced) (s : Submission) :
    c.Submits s (c.submit s.node s.metadata s.signature).1 (c.submit s.node s.metadata s.signature).2 := by
  unfold submit
  cases hentry : c.roster.find? s.node with
  | none =>
    refine .refused ?_
    rintro ⟨entry, hsome, -⟩
    rw [hentry] at hsome
    cases hsome
  | some entry =>
    simp only
    cases hvalid : entry.key.verifyBinding c.book.bytes s.metadata s.signature with
    | error e =>
      refine .refused ?_
      rintro ⟨entry', hsome, hok⟩
      rw [hentry] at hsome
      cases hsome
      rw [hvalid] at hok
      cases hok
    | ok u =>
      have hendorsed : c.Endorsed s.metadata s.node s.signature := ⟨entry, hentry, hvalid⟩
      simp only
      by_cases hproof : (c.proofFor s.metadata).isSome = true
      · rw [if_pos hproof]
        exact .late hendorsed hproof
      · rw [if_neg hproof]
        have hnone : c.proofFor s.metadata = none := by simpa using hproof
        obtain ⟨weight, hweight, hsum⟩ := hc.weightOf_eq_ok (c.gatheredWith s).nodup_keys
        have hthird : isStrongMinority weight c.totalWeight = true ↔ c.HasThird (c.gatheredWith s).keys := by
          rw [isStrongMinority_iff, hsum, HasThird]
        rw [gather_eq, hweight]
        simp only
        split
        · rename_i hstrong
          exact .forms hendorsed hnone (hthird.mp hstrong)
        · rename_i hweak
          exact .waits hendorsed hnone fun h => hweak (hthird.mpr h)

/-! ### Endorsers -/

/-- A node has endorsed metadata, in one of the submissions. -/
def EndorsedIn (c : HistoryCollector) (submissions : List Submission) (metadata : Bytes) (node : UInt64) : Prop :=
  ∃ s ∈ submissions, s.metadata = metadata ∧ s.node = node ∧ c.Endorsed metadata node s.signature

/-- A signature counts for a member if the member's key accepts it. -/
theorem Rostered.endorsed_member_iff (h : c.Rostered book members) {member : Member} (hmember : member ∈ members)
    {signature : Signature} : c.Endorsed metadata member.1 signature ↔
      (member.2.1.verifyBinding book.bytes metadata signature).isOk = true := by
  have hentry : c.roster.find? member.1 = some ⟨member.2.1, member.2.2⟩ :=
    WordMap.find?_eq_some_iff.mpr (h.roster.mem_iff.mpr (List.mem_map_of_mem (f := entryOf) hmember))
  rw [Endorsed, hentry, h.sameBook]
  simp only [Option.some.injEq, exists_eq_left']
  cases member.2.1.verifyBinding book.bytes metadata signature <;> simp [Except.isOk, Except.toBool]

/-- The signatures that count are those of members. -/
theorem Rostered.endorsed_iff (h : c.Rostered book members) :
    c.Endorsed s.metadata s.node s.signature ↔ members.any (s.isBy book) = true := by
  simp only [List.any_eq_true, Submission.isBy, Bool.and_eq_true, beq_iff_eq]
  constructor
  · rintro ⟨entry, hentry, hvalid⟩
    have hmem := h.roster.mem_iff.mp (WordMap.find?_eq_some_iff.mp hentry)
    obtain ⟨member, hmember, heq⟩ := List.mem_map.mp hmem
    have hnode : member.1 = s.node := congrArg Prod.fst heq
    exact ⟨member, hmember, hnode.symm, (h.endorsed_member_iff hmember).mp (hnode ▸ ⟨entry, hentry, hvalid⟩)⟩
  · rintro ⟨member, hmember, hnode, hok⟩
    exact hnode ▸ (h.endorsed_member_iff hmember).mpr hok

/-- The nodes that endorsed metadata are the members that did. -/
theorem Rostered.endorsedIn_iff (h : c.Rostered book members) {member : Member} (hmember : member ∈ members) :
    c.EndorsedIn submissions metadata member.1 ↔
      (submissions.any fun s => s.metadata == metadata && s.isBy book member) = true := by
  rw [List.any_eq_true, EndorsedIn]
  refine exists_congr fun s => and_congr_right fun _ => ?_
  rw [h.endorsed_member_iff hmember]
  simp only [Submission.isBy, Bool.and_eq_true, beq_iff_eq]
  refine and_congr_right fun hmetadata => ?_
  rw [hmetadata]

/-- **The nodes that endorsed metadata weigh what the members do that did.** -/
theorem Rostered.weight_eq (h : c.Rostered book members) {nodes : List UInt64} (hnodup : nodes.Nodup)
    (hnodes : ∀ node, node ∈ nodes ↔ c.EndorsedIn submissions metadata node) :
    (nodes.map c.weightAt).sum = rosterWeight (endorsers book members submissions metadata) := by
  have hfilter : endorsers book members submissions metadata =
      members.filter ((fun e => e.1 ∈ nodes) ∘ entryOf) := by
    refine List.filter_congr fun member hmember => ?_
    rw [Bool.eq_iff_iff, ← h.endorsedIn_iff hmember, ← hnodes]
    exact decide_eq_true_iff.symm
  rw [sum_weightAt hnodup, ((h.roster.filter _).map _).sum_eq, List.filter_map, List.map_map, hfilter]
  rfl

theorem Rostered.hasThird_iff (h : c.Rostered book members) {nodes : List UInt64} (hnodup : nodes.Nodup)
    (hnodes : ∀ node, node ∈ nodes ↔ c.EndorsedIn submissions metadata node) :
    c.HasThird nodes ↔ rosterWeight members ≤ 3 * rosterWeight (endorsers book members submissions metadata) := by
  rw [HasThird, h.total, h.weight_eq hnodup hnodes]

/-! ### More submissions -/

theorem endorsedIn_concat_iff {node : UInt64} : c.EndorsedIn (submissions ++ [s]) metadata node ↔
    c.EndorsedIn submissions metadata node ∨
      s.metadata = metadata ∧ s.node = node ∧ c.Endorsed metadata node s.signature := by
  simp only [EndorsedIn, List.mem_append, List.mem_singleton, or_and_right, exists_or, exists_eq_left]

/-- A submission that does not count adds no endorser. -/
theorem Rostered.endorsers_concat (h : c.Rostered book members)
    (hnot : s.metadata = metadata → ¬ c.Endorsed metadata s.node s.signature) :
    endorsers book members (submissions ++ [s]) metadata = endorsers book members submissions metadata := by
  refine List.filter_congr fun member hmember => ?_
  rw [Bool.eq_iff_iff, ← h.endorsedIn_iff hmember, ← h.endorsedIn_iff hmember, endorsedIn_concat_iff]
  refine or_iff_left ?_
  rintro ⟨hmetadata, hnode, hendorsed⟩
  exact hnot hmetadata (hnode ▸ hendorsed)

/-- No submission takes an endorser away. -/
theorem rosterWeight_endorsers_le (book : BlockHash) (members : List Member) (submissions : List Submission)
    (s : Submission) (metadata : Bytes) :
    rosterWeight (endorsers book members submissions metadata) ≤
      rosterWeight (endorsers book members (submissions ++ [s]) metadata) := by
  refine List.Sublist.sum_le_sum (List.Sublist.map _ ?_) fun _ _ => Nat.zero_le _
  refine List.monotone_filter_right _ fun member hmember => ?_
  rw [List.any_append, hmember, Bool.true_or]

/-! ### The invariant -/

/-- What a collector has made of submissions. -/
structure Gathering (c : HistoryCollector) (book : BlockHash) (members : List Member)
    (submissions : List Submission) : Prop extends c.Rostered book members where
  /-- Without a proof, the nodes with a signature are those that endorsed the metadata. -/
  pending : ∀ metadata, c.proofFor metadata = none → ∀ node,
    node ∈ (c.signaturesFor metadata).keys ↔ c.EndorsedIn submissions metadata node
  /-- Only valid signatures are gathered. -/
  valid : ∀ metadata node signature, (c.signaturesFor metadata).find? node = some signature →
    c.Endorsed metadata node signature
  /-- There is a proof if the members that endorsed the metadata have a third of the weight. -/
  formed : ∀ metadata, (c.proofFor metadata).isSome = true ↔
    rosterWeight members ≤ 3 * rosterWeight (endorsers book members submissions metadata)
  /-- A proof is made of valid signatures of nodes that have a third of the weight. -/
  sound : ∀ metadata proof, c.proofFor metadata = some proof → ∃ signatures : WordMap Signature,
    proof = c.proofOf metadata signatures ∧ c.HasThird signatures.keys ∧
      ∀ node signature, signatures.find? node = some signature → c.Endorsed metadata node signature

theorem gathering_new (h : new book members = .ok c) : c.Gathering book members [] := by
  obtain ⟨hbook, hroster, htotal, hpos, hgathered, hproofs⟩ := new_eq_ok h
  have hnone : ∀ metadata, c.proofFor metadata = none := by
    intro metadata
    rw [proofFor, hproofs, List.find?_nil]
  have hempty : ∀ metadata, c.signaturesFor metadata = .empty := by
    intro metadata
    rw [signaturesFor, hgathered]
    rfl
  refine ⟨⟨hbook, hroster, htotal⟩, ?_, ?_, ?_, ?_⟩
  · intro metadata _ node
    rw [hempty]
    constructor
    · nofun
    · rintro ⟨_, hs, -⟩
      cases hs
  · intro metadata node signature hfind
    rw [hempty] at hfind
    cases hfind
  · intro metadata
    have hzero : endorsers book members [] metadata = [] := List.filter_eq_nil_iff.mpr fun _ _ => nofun
    have hweight : rosterWeight [] = 0 := rfl
    rw [hnone, hzero, hweight]
    simp only [Option.isSome_none, Bool.false_eq_true, false_iff]
    omega
  · intro metadata proof hproof
    rw [hnone] at hproof
    cases hproof

/-- The nodes with a signature for the metadata of a submission, once it is gathered. -/
theorem Gathering.mem_gatheredWith (h : c.Gathering book members submissions)
    (hendorsed : c.Endorsed s.metadata s.node s.signature) (hnone : c.proofFor s.metadata = none) (node : UInt64) :
    node ∈ (c.gatheredWith s).keys ↔ c.EndorsedIn (submissions ++ [s]) s.metadata node := by
  rw [WordMap.mem_keys_iff, gatheredWith, WordMap.contains_insert, Bool.or_eq_true, ← WordMap.mem_keys_iff,
    h.pending _ hnone, endorsedIn_concat_iff, beq_iff_eq, or_comm]
  refine or_congr_right ⟨?_, ?_⟩
  · rintro rfl
    exact ⟨rfl, rfl, hendorsed⟩
  · rintro ⟨-, hnode, -⟩
    exact hnode.symm

theorem Gathering.valid_gatheredWith (h : c.Gathering book members submissions)
    (hendorsed : c.Endorsed s.metadata s.node s.signature) (node : UInt64) (signature : Signature)
    (hfind : (c.gatheredWith s).find? node = some signature) : c.Endorsed s.metadata node signature := by
  rw [gatheredWith, WordMap.find?_insert] at hfind
  split at hfind
  · rename_i hnode
    cases hfind
    exact hnode ▸ hendorsed
  · exact h.valid _ _ _ hfind

/-- For other metadata than that of a submission, all is as before. -/
theorem Gathering.endorsers_of_ne (h : c.Gathering book members submissions) (hne : metadata ≠ s.metadata) :
    endorsers book members (submissions ++ [s]) metadata = endorsers book members submissions metadata :=
  h.endorsers_concat fun hsame => absurd hsame.symm hne

theorem endorsedIn_concat_of_ne (hne : metadata ≠ s.metadata) (node : UInt64) :
    c.EndorsedIn (submissions ++ [s]) metadata node ↔ c.EndorsedIn submissions metadata node := by
  rw [endorsedIn_concat_iff]
  exact or_iff_left fun hsame => hne hsame.1.symm

theorem Gathering.refused (h : c.Gathering book members submissions)
    (hnot : ¬ c.Endorsed s.metadata s.node s.signature) : c.Gathering book members (submissions ++ [s]) := by
  refine ⟨h.toRostered, fun metadata hnone node => ?_, h.valid, fun metadata => ?_, h.sound⟩
  · rw [h.pending metadata hnone, endorsedIn_concat_iff]
    refine (or_iff_left ?_).symm
    rintro ⟨rfl, rfl, hendorsed⟩
    exact hnot hendorsed
  · rw [h.endorsers_concat fun hsame => hsame ▸ hnot]
    exact h.formed metadata

/-- Behind a proof, another signature only adds to the weight. -/
theorem Gathering.late (h : c.Gathering book members submissions) (hproof : (c.proofFor s.metadata).isSome = true) :
    c.Gathering book members (submissions ++ [s]) := by
  refine ⟨h.toRostered, fun metadata hnone node => ?_, h.valid, fun metadata => ?_, h.sound⟩
  · have hne : metadata ≠ s.metadata := by
      rintro rfl
      rw [hnone] at hproof
      cases hproof
    rw [h.pending metadata hnone, endorsedIn_concat_of_ne hne]
  · by_cases hmetadata : metadata = s.metadata
    · subst hmetadata
      have hthird := (h.formed s.metadata).mp hproof
      have hmore := rosterWeight_endorsers_le book members submissions s s.metadata
      simp only [hproof, true_iff]
      omega
    · rw [h.endorsers_of_ne hmetadata]
      exact h.formed metadata

theorem Gathering.waits (h : c.Gathering book members submissions)
    (hendorsed : c.Endorsed s.metadata s.node s.signature) (hnone : c.proofFor s.metadata = none)
    (hweak : ¬ c.HasThird (c.gatheredWith s).keys) :
    (c.waitingWith s).Gathering book members (submissions ++ [s]) := by
  refine ⟨⟨h.sameBook, h.roster, h.total⟩, fun metadata hproof node => ?_,
    fun metadata node signature hfind => ?_, fun metadata => ?_, h.sound⟩
  · rw [signaturesFor_waitingWith]
    split
    · rename_i hmetadata
      subst hmetadata
      exact h.mem_gatheredWith hendorsed hnone node
    · rename_i hmetadata
      exact (h.pending metadata hproof node).trans (endorsedIn_concat_of_ne hmetadata node).symm
  · rw [signaturesFor_waitingWith] at hfind
    split at hfind
    · rename_i hmetadata
      subst hmetadata
      exact h.valid_gatheredWith hendorsed node signature hfind
    · exact h.valid metadata node signature hfind
  · rw [proofFor_waitingWith]
    by_cases hmetadata : metadata = s.metadata
    · subst hmetadata
      rw [h.hasThird_iff (c.gatheredWith s).nodup_keys (h.mem_gatheredWith hendorsed hnone)] at hweak
      simp only [hnone, Option.isSome_none, Bool.false_eq_true, false_iff]
      exact hweak
    · rw [h.endorsers_of_ne hmetadata]
      exact h.formed metadata

theorem Gathering.forms (h : c.Gathering book members submissions)
    (hendorsed : c.Endorsed s.metadata s.node s.signature) (hnone : c.proofFor s.metadata = none)
    (hthird : c.HasThird (c.gatheredWith s).keys) :
    (c.formedWith s).Gathering book members (submissions ++ [s]) := by
  refine ⟨⟨h.sameBook, h.roster, h.total⟩, fun metadata hproof node => ?_,
    fun metadata node signature hfind => ?_, fun metadata => ?_, fun metadata proof hproof => ?_⟩
  · rw [proofFor_formedWith hnone] at hproof
    split at hproof
    · cases hproof
    · rename_i hmetadata
      rw [signaturesFor_formedWith hmetadata]
      exact (h.pending metadata hproof node).trans (endorsedIn_concat_of_ne hmetadata node).symm
  · by_cases hmetadata : metadata = s.metadata
    · rw [hmetadata, signaturesFor_formedWith_self] at hfind
      cases hfind
    · rw [signaturesFor_formedWith hmetadata] at hfind
      exact h.valid metadata node signature hfind
  · rw [proofFor_formedWith hnone]
    by_cases hmetadata : metadata = s.metadata
    · subst hmetadata
      rw [h.hasThird_iff (c.gatheredWith s).nodup_keys (h.mem_gatheredWith hendorsed hnone)] at hthird
      simpa using hthird
    · rw [if_neg hmetadata, h.endorsers_of_ne hmetadata]
      exact h.formed metadata
  · rw [proofFor_formedWith hnone] at hproof
    split at hproof
    · rename_i hmetadata
      subst hmetadata
      cases hproof
      exact ⟨_, rfl, hthird, h.valid_gatheredWith hendorsed⟩
    · exact h.sound metadata proof hproof

/-- **Every submission keeps the invariant.** -/
theorem Gathering.submits (h : c.Gathering book members submissions) {answer : Checked StreamError Bool}
    {d : HistoryCollector} (hs : c.Submits s answer d) : d.Gathering book members (submissions ++ [s]) := by
  cases hs with
  | refused hnot => exact h.refused hnot
  | late _ hproof => exact h.late hproof
  | waits hendorsed hnone hweak => exact h.waits hendorsed hnone hweak
  | forms hendorsed hnone hthird => exact h.forms hendorsed hnone hthird

/-- **After any submissions, there is a proof exactly where there should be one.** -/
theorem gathering_submitAll (h : new book members = .ok c) (submissions : List Submission) :
    (c.submitAll submissions).Gathering book members submissions := by
  induction submissions using List.reverseRecOn with
  | nil => exact gathering_new h
  | append_singleton submissions s ih =>
    have hone : c.submitAll (submissions ++ [s]) =
        ((c.submitAll submissions).submit s.node s.metadata s.signature).2 := by
      rw [submitAll, List.foldl_append]
      rfl
    rw [hone]
    exact ih.submits (ih.balanced.submits s)

/-! ### Proofs stay -/

/-- A submission adds at most a proof. -/
theorem proofs_prefix_submit (c : HistoryCollector) (node : UInt64) (metadata : Bytes) (signature : Signature) :
    c.proofs <+: (c.submit node metadata signature).2.proofs := by
  unfold submit
  split
  · exact List.prefix_rfl
  split
  · exact List.prefix_rfl
  split
  · exact List.prefix_rfl
  unfold gather
  simp only
  split
  · exact List.prefix_rfl
  split
  · exact List.prefix_append ..
  · exact List.prefix_rfl

/-- **A proof never changes, whatever is submitted.** -/
theorem proofFor_submitAll {proof : HistoryProof} (hproof : c.proofFor metadata = some proof)
    (more : List Submission) : (c.submitAll more).proofFor metadata = some proof := by
  induction more generalizing c with
  | nil => exact hproof
  | cons s rest ih => exact ih (proofFor_mono (c.proofs_prefix_submit ..) hproof)

/-- What is submitted over other metadata does not count. -/
theorem Submits.proofFor_of_ne {answer : Checked StreamError Bool} {d : HistoryCollector}
    (h : c.Submits s answer d) (hne : s.metadata ≠ metadata) : d.proofFor metadata = c.proofFor metadata := by
  cases h with
  | refused | late | waits => rfl
  | forms _ hnone => rw [proofFor_formedWith hnone, if_neg hne.symm]

/-! ### Answers -/

/-- The answer to an accepted signature says whether there is a proof now. -/
theorem Submits.answer_eq {answer : Checked StreamError Bool} {d : HistoryCollector} (h : c.Submits s answer d)
    (hendorsed : c.Endorsed s.metadata s.node s.signature) : answer = .ok (d.proofFor s.metadata).isSome := by
  cases h with
  | refused hnot => exact absurd hendorsed hnot
  | late _ hproof => rw [hproof]
  | waits _ hnone => rw [proofFor_waitingWith, hnone]; rfl
  | forms _ hnone => rw [proofFor_formedWith hnone, if_pos rfl]; rfl

/-- Any other signature is refused. -/
theorem Submits.refused_of_not {answer : Checked StreamError Bool} {d : HistoryCollector} (h : c.Submits s answer d)
    (hnot : ¬ c.Endorsed s.metadata s.node s.signature) : ∃ e, answer = refuse e ∧ d = c := by
  cases h with
  | refused => exact ⟨_, rfl, rfl⟩
  | late hendorsed | waits hendorsed | forms hendorsed => exact absurd hendorsed hnot

/-! ### Main result -/

/-- Neither the order of submissions nor their number counts. -/
theorem endorsers_congr {other : List Submission} (h : ∀ s, s ∈ other ↔ s ∈ submissions) :
    endorsers book members other metadata = endorsers book members submissions metadata := by
  refine List.filter_congr fun member _ => ?_
  rw [Bool.eq_iff_iff, List.any_eq_true, List.any_eq_true]
  exact exists_congr fun s => and_congr_left' (h s)

/-- A proof holds, and its nodes ascend. -/
theorem Gathering.verifyProof (h : c.Gathering book members submissions) {proof : HistoryProof}
    (hproof : c.proofFor metadata = some proof) :
    proof.metadata = metadata ∧ proof.book = book ∧ (proof.signatures.Pairwise fun a b => a.node < b.node) ∧
      c.verifyProof proof = .ok true := by
  obtain ⟨signatures, rfl, hthird, hvalid⟩ := h.sound metadata proof hproof
  refine ⟨rfl, h.sameBook, List.pairwise_map.mpr signatures.sorted, ?_⟩
  rw [h.balanced.verifyProof_proofOf hvalid, decide_eq_true (p := _ ≤ _) hthird]

/-- **There is a proof for metadata exactly if members that hold a third of the weight have endorsed it.** A
signature that counts is answered with whether there is a proof now; any other is refused, also if there is a
proof. Proofs stay as they are, and all of them hold. -/
theorem proof_iff_third_endorsed {new : HistoryCollector} (hnew : HistoryCollector.new book members = .ok new)
    (submissions : List Submission) :
    let c := new.submitAll submissions
    (∀ metadata, (c.proofFor metadata).isSome = true ↔
      rosterWeight members ≤ 3 * rosterWeight (endorsers book members submissions metadata)) ∧
    (∀ other : List Submission, (∀ s, s ∈ other ↔ s ∈ submissions) →
      ∀ metadata, ((new.submitAll other).proofFor metadata).isSome = (c.proofFor metadata).isSome) ∧
    (∀ (s : Submission) answer next, c.submit s.node s.metadata s.signature = (answer, next) →
      if members.any (s.isBy book) then answer = .ok (next.proofFor s.metadata).isSome
      else ∃ e, answer = refuse e ∧ next = c) ∧
    (∀ (s : Submission) (metadata : Bytes), s.metadata ≠ metadata →
      (c.submit s.node s.metadata s.signature).2.proofFor metadata = c.proofFor metadata) ∧
    (∀ metadata proof, c.proofFor metadata = some proof →
      (∀ more, (c.submitAll more).proofFor metadata = some proof) ∧
      proof.metadata = metadata ∧ proof.book = book ∧ (proof.signatures.Pairwise fun a b => a.node < b.node) ∧
      c.verifyProof proof = .ok true) := by
  have h := gathering_submitAll hnew submissions
  refine ⟨h.formed, fun other hsame metadata => ?_, fun s answer next hcall => ?_,
    fun s metadata hne => ?_,
    fun metadata proof hproof => ⟨proofFor_submitAll hproof, h.verifyProof hproof⟩⟩
  · rw [Bool.eq_iff_iff, (gathering_submitAll hnew other).formed, h.formed, endorsers_congr hsame]
  · have hs := h.balanced.submits s
    rw [hcall] at hs
    split
    · rename_i hmember
      exact hs.answer_eq (h.endorsed_iff.mpr hmember)
    · rename_i hnot
      exact hs.refused_of_not (h.endorsed_iff.not.mpr hnot)
  · exact (h.balanced.submits s).proofFor_of_ne hne

end

/-! ### A roster of three -/

/-- The key of a node. -/
def keyOf (node : UInt8) : Ed25519.SecretKey := ⟨List.replicate 32 node⟩

/-- A node with its key and a weight. -/
def memberOf (node : UInt8) (weight : UInt64) : Member := (node.toUInt64, (keyOf node).publicKey, weight)

/-- Three nodes; the last of them weighs more than the others together. -/
def threeMembers : List Member := [memberOf 1 1, memberOf 2 2, memberOf 3 4]

/-- The collector of their roster. -/
def threeCollector : HistoryCollector where
  book := .filled 0xab
  roster := ((WordMap.empty.insert 1 ⟨(keyOf 1).publicKey, 1⟩).insert 2 ⟨(keyOf 2).publicKey, 2⟩).insert 3
    ⟨(keyOf 3).publicKey, 4⟩
  totalWeight := 7
  gathered := []
  proofs := []

theorem new_threeMembers : HistoryCollector.new (.filled 0xab) threeMembers = .ok threeCollector := rfl

/-- A node's signature over no metadata. -/
def endorsementOf (node : UInt8) : Submission :=
  ⟨node.toUInt64, [], (keyOf node).signBinding (BlockHash.filled 0xab).bytes []⟩

set_option maxRecDepth 100000 in
theorem isBy_one : (endorsementOf 1).isBy (.filled 0xab) (memberOf 1 1) = true := by decide +kernel

set_option maxRecDepth 100000 in
theorem isBy_two : (endorsementOf 2).isBy (.filled 0xab) (memberOf 2 2) = true := by decide +kernel

theorem endorsers_two : endorsers (.filled 0xab) threeMembers [endorsementOf 2] [] = [memberOf 2 2] := by
  have hone : (endorsementOf 2).isBy (.filled 0xab) (memberOf 1 1) = false := rfl
  have hthree : (endorsementOf 2).isBy (.filled 0xab) (memberOf 3 4) = false := rfl
  simp only [endorsers, threeMembers, List.filter_cons, List.any_cons, hone, isBy_two, hthree]
  rfl

theorem endorsers_two_one :
    endorsers (.filled 0xab) threeMembers [endorsementOf 2, endorsementOf 1] [] = [memberOf 1 1, memberOf 2 2] := by
  have hone : (endorsementOf 2).isBy (.filled 0xab) (memberOf 1 1) = false := rfl
  have htwo : (endorsementOf 1).isBy (.filled 0xab) (memberOf 2 2) = false := rfl
  have honeThree : (endorsementOf 1).isBy (.filled 0xab) (memberOf 3 4) = false := rfl
  have htwoThree : (endorsementOf 2).isBy (.filled 0xab) (memberOf 3 4) = false := rfl
  simp only [endorsers, threeMembers, List.filter_cons, List.any_cons, hone, isBy_one, isBy_two, htwo,
    honeThree, htwoThree]
  rfl

/-- The second node has less than a third of the weight on its own, and with the first one it has enough. -/
theorem proof_of_twoEndorsements : HistoryCollector.new (.filled 0xab) threeMembers = .ok threeCollector ∧
    ((threeCollector.submitAll [endorsementOf 2]).proofFor []).isSome = false ∧
    ((threeCollector.submitAll [endorsementOf 2, endorsementOf 1]).proofFor []).isSome = true := by
  have hone := (proof_iff_third_endorsed new_threeMembers [endorsementOf 2]).1 []
  have htwo := (proof_iff_third_endorsed new_threeMembers [endorsementOf 2, endorsementOf 1]).1 []
  rw [endorsers_two] at hone
  rw [endorsers_two_one] at htwo
  exact ⟨new_threeMembers, (Bool.not_eq_true _).mp (hone.not.mpr (by decide)), htwo.mpr (by decide)⟩

/-- Once there is a proof, a node that is not in the roster is still refused. -/
theorem stranger_refused : ∃ answer next, HistoryCollector.new (.filled 0xab) threeMembers = .ok threeCollector ∧
    (threeCollector.submitAll [endorsementOf 2, endorsementOf 1]).submit 9 [] (endorsementOf 2).signature =
      (answer, next) ∧
    answer ≠ .ok true ∧ (next.proofFor []).isSome = true := by
  have h := gathering_submitAll new_threeMembers [endorsementOf 2, endorsementOf 1]
  have hproof := (h.formed []).mpr (by rw [endorsers_two_one]; decide)
  obtain ⟨e, hanswer, hnext⟩ := (h.balanced.submits { endorsementOf 2 with node := 9 }).refused_of_not
    (h.endorsed_iff.not.mpr (by simp [Submission.isBy, threeMembers, memberOf]))
  refine ⟨refuse e, threeCollector.submitAll [endorsementOf 2, endorsementOf 1], new_threeMembers, ?_, nofun, hproof⟩
  exact Prod.ext hanswer hnext

end HistoryCollector

end RoundChain
