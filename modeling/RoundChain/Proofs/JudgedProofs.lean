import RoundChain.Proofs.HistoryProofs
import Mathlib.Data.List.Chain

/-!
# Judged proofs

A proof can come from anywhere: it may name any nodes, in any order, with any bytes
as their signatures. `verifyProof_iff` says which ones hold: those for the book, with
ascending nodes of the roster, a valid signature of each, and a third of the weight,
where the weights are added up as natural numbers. The sum that the judgement runs
with is one of words, and it never leaves them.

## The model

`Passed c nodes last weight` is the invariant of the judgement: it has passed `nodes`,
which ascend up to `last`, and `weight` is what they weigh. A proof is only rejected
for its order when it comes to a node that is too small, but until then its nodes
ascended; so at every sum they are distinct, and distinct nodes of a roster weigh no
more than the whole of it, which is a word.
-/

namespace RoundChain

open Ed25519 (PublicKey Signature)

/-- A signature in a proof is one by a member: it is for the member's node, and its bytes are a
signature over metadata, together with an address book, that the member's key accepts. -/
def NodeSignature.IsBy [Ed25519.Library] (s : NodeSignature) (book : BlockHash) (metadata : Bytes)
    (member : Member) : Prop :=
  s.node = member.1 ∧ ∃ h : s.signature.length = 64,
    member.2.1.verifyBinding book.bytes metadata ⟨s.signature, h⟩ = .ok ()

/-- The members that a proof names. -/
def HistoryProof.signers (proof : HistoryProof) (members : List Member) : List Member :=
  members.filter fun member => proof.signatures.any (·.node == member.1)

namespace HistoryCollector

section

variable {c : HistoryCollector} {metadata : Bytes} {book : BlockHash} {members : List Member} {s : NodeSignature}
  {nodes : List UInt64} {last : Option UInt64} {weight : UInt64}

/-! ### Passing over signatures -/

/-- A judgement has passed nodes: they ascend up to the last one, and the weight so far is theirs. -/
structure Passed (c : HistoryCollector) (nodes : List UInt64) (last : Option UInt64) (weight : UInt64) :
    Prop where
  ascends : nodes.IsChain (· < ·)
  last_eq : last = nodes.getLast?
  weight_eq : weight.toNat = (nodes.map c.weightAt).sum

theorem passed_nil : c.Passed [] none 0 := ⟨.nil, rfl, rfl⟩

/-- The next node is too small just if the nodes would not ascend with it. -/
theorem Passed.ascends_append_iff (h : c.Passed nodes last weight) {node : UInt64} {rest : List UInt64} :
    (nodes ++ node :: rest).IsChain (· < ·) ↔
      last.any (node ≤ ·) = false ∧ ((nodes ++ [node]) ++ rest).IsChain (· < ·) := by
  rw [List.append_assoc, List.singleton_append, iff_and_self]
  intro hchain
  have hnext := (List.isChain_append.mp hchain).2.2
  rw [← h.last_eq] at hnext
  cases last with
  | none => rfl
  | some l => simpa using hnext l rfl node rfl

/-- **One more signature is passed without leaving the words.** -/
theorem Passed.next (h : c.Passed nodes last weight) (hc : c.Balanced) {node : UInt64} {entry : RosterEntry}
    (hgreater : last.any (node ≤ ·) = false) (hentry : c.roster.find? node = some entry) :
    ∃ sum, addWords (ε := StreamError) weight entry.weight = .ok sum ∧
      c.Passed (nodes ++ [node]) (some node) sum := by
  have hascends : (nodes ++ [node]).IsChain (· < ·) := by
    refine List.isChain_append.mpr ⟨h.ascends, .singleton _, ?_⟩
    rintro l hl _ ⟨⟩
    rw [← h.last_eq] at hl
    cases hl
    simpa using hgreater
  have hnodup : (nodes ++ [node]).Nodup := hascends.pairwise.imp fun hlt => UInt64.ne_of_lt hlt
  have hweight : c.weightAt node = entry.weight.toNat := by
    rw [weightAt, hentry]
    rfl
  have hsum : ((nodes ++ [node]).map c.weightAt).sum = weight.toNat + entry.weight.toNat := by
    rw [List.map_append, List.sum_append, ← h.weight_eq, List.map_singleton, List.sum_singleton, hweight]
  have hfits : weight.toNat + entry.weight.toNat < UInt64.size := by
    rw [← hsum, size_word]
    exact Nat.lt_of_le_of_lt (hc.sum_weightAt_le hnodup) c.totalWeight.toNat_lt
  have hadded : addWords (ε := StreamError) weight entry.weight = .ok (weight + entry.weight) := if_pos hfits
  exact ⟨_, hadded, hascends, List.getLast?_concat.symm, by rw [addWords_eq_ok_iff.mp hadded, hsum]⟩

/-- Distinct nodes weigh what the members do that a proof names by them. -/
theorem Rostered.weight_signers (h : c.Rostered book members) {proof : HistoryProof}
    (hnodup : (proof.signatures.map (·.node)).Nodup) :
    ((proof.signatures.map (·.node)).map c.weightAt).sum = rosterWeight (proof.signers members) := by
  have hsigners : proof.signers members =
      members.filter ((fun e => e.1 ∈ proof.signatures.map (·.node)) ∘ entryOf) := by
    refine List.filter_congr fun member _ => ?_
    rw [Bool.eq_iff_iff, List.any_eq_true, Function.comp_apply, decide_eq_true_iff]
    simp [entryOf]
  rw [sum_weightAt hnodup, ((h.roster.filter _).map _).sum_eq, List.filter_map, List.map_map, hsigners]
  rfl

/-! ### One signature -/

variable [Ed25519.Library]

/-- A signature in a proof is one that the roster's key for its node accepts. -/
def Accepted (c : HistoryCollector) (metadata : Bytes) (s : NodeSignature) : Prop :=
  ∃ entry, c.roster.find? s.node = some entry ∧ c.accepts entry metadata s.signature = true

theorem accepts_iff {entry : RosterEntry} {signature : Bytes} :
    c.accepts entry metadata signature = true ↔
      ∃ h : signature.length = 64,
        entry.key.verifyBinding c.book.bytes metadata ⟨signature, h⟩ = .ok () := by
  by_cases hlength : signature.length = 64
  · have hread : Signature.ofBytes signature = .ok ⟨signature, hlength⟩ := dif_pos hlength
    rw [accepts, hread, exists_prop_of_true hlength]
    simp only
    split <;> rename_i hverified <;> simp [hverified]
  · have hread : Signature.ofBytes signature = .error (.invalidLength 64 signature.length) := dif_neg hlength
    rw [accepts, hread]
    refine iff_of_false Bool.false_ne_true ?_
    rintro ⟨h, -⟩
    exact hlength h

/-- What is accepted are the signatures by members. -/
theorem Rostered.accepted_iff (h : c.Rostered book members) :
    c.Accepted metadata s ↔ ∃ member ∈ members, s.IsBy book metadata member := by
  simp only [Accepted, accepts_iff, h.sameBook]
  constructor
  · rintro ⟨entry, hentry, hvalid⟩
    have hmem := h.roster.mem_iff.mp (WordMap.find?_eq_some_iff.mp hentry)
    obtain ⟨member, hmember, heq⟩ := List.mem_map.mp hmem
    obtain ⟨hnode, rfl⟩ := Prod.mk.inj heq
    exact ⟨member, hmember, hnode.symm, hvalid⟩
  · rintro ⟨member, hmember, hnode, hvalid⟩
    refine ⟨⟨member.2.1, member.2.2⟩, ?_, hvalid⟩
    rw [hnode]
    exact WordMap.find?_eq_some_iff.mpr (h.roster.mem_iff.mpr (List.mem_map_of_mem (f := entryOf) hmember))

/-! ### Judgements -/

/-- **A judgement ends with a verdict on the nodes passed and those to come.** -/
theorem Passed.verifySignatures (h : c.Passed nodes last weight) (hc : c.Balanced) (metadata : Bytes)
    (ss : List NodeSignature) :
    ∃ verdict, c.verifySignatures metadata last weight ss = .ok verdict ∧
      (verdict = true ↔
        (nodes ++ ss.map (·.node)).IsChain (· < ·) ∧ (∀ s ∈ ss, c.Accepted metadata s) ∧
          c.HasThird (nodes ++ ss.map (·.node))) := by
  induction ss generalizing nodes last weight with
  | nil =>
    refine ⟨_, rfl, ?_⟩
    rw [isStrongMinority_iff, h.weight_eq, List.map_nil, List.append_nil, HasThird]
    exact ⟨fun hthird => ⟨h.ascends, List.forall_mem_nil _, hthird⟩, fun hall => hall.2.2⟩
  | cons s rest ih =>
    rw [List.map_cons, h.ascends_append_iff, List.forall_mem_cons, HistoryCollector.verifySignatures]
    cases hgreater : last.any (s.node ≤ ·) with
    | true => exact ⟨false, rfl, by simp⟩
    | false =>
      cases hentry : c.roster.find? s.node with
      | none => exact ⟨false, rfl, by simp [Accepted, hentry]⟩
      | some entry =>
        cases haccepts : c.accepts entry metadata s.signature with
        | false => exact ⟨false, by simp [haccepts], by simp [Accepted, hentry, haccepts]⟩
        | true =>
          obtain ⟨sum, hsum, hpassed⟩ := h.next hc hgreater hentry
          obtain ⟨verdict, hverdict, hiff⟩ := ih hpassed
          have haccepted : c.Accepted metadata s := ⟨entry, hentry, haccepts⟩
          refine ⟨verdict, ?_, ?_⟩
          · simp only [Bool.false_eq_true, if_false, haccepts, if_true, hsum]
            exact hverdict
          · rw [hiff, List.append_assoc, List.singleton_append]
            simp only [haccepted, true_and]

/-- **What a judgement decides.** Whatever was submitted, the judgement of any proof comes to a verdict,
and a proof holds just if it is for the address book, its nodes ascend, every signature is sixty-four bytes
by a member of the roster over the proof's metadata, and the members it names have a third of the roster's
weight. -/
theorem verifyProof_iff {new : HistoryCollector} (hnew : HistoryCollector.new book members = .ok new)
    (submissions : List Submission) (proof : HistoryProof) :
    ∃ verdict, (new.submitAll submissions).verifyProof proof = .ok verdict ∧
      (verdict = true ↔
        proof.book = book ∧
          (proof.signatures.Pairwise fun a b => a.node < b.node) ∧
          (∀ s ∈ proof.signatures, ∃ member ∈ members, s.IsBy book proof.metadata member) ∧
          rosterWeight members ≤ 3 * rosterWeight (proof.signers members)) := by
  have h := (gathering_submitAll hnew submissions).toRostered
  by_cases hbook : proof.book = book
  · obtain ⟨verdict, hverdict, hiff⟩ := passed_nil.verifySignatures h.balanced proof.metadata proof.signatures
    refine ⟨verdict, by rw [verifyProof, if_pos (hbook.trans h.sameBook.symm), hverdict], ?_⟩
    rw [hiff, List.nil_append, List.isChain_iff_pairwise, List.pairwise_map]
    simp only [hbook, true_and, h.accepted_iff]
    refine and_congr_right fun hascends => and_congr_right fun _ => ?_
    have hnodup : (proof.signatures.map (·.node)).Nodup :=
      List.pairwise_map.mpr (hascends.imp fun hlt => UInt64.ne_of_lt hlt)
    rw [HasThird, h.total, h.weight_signers hnodup]
  · refine ⟨false, by rw [verifyProof, if_neg fun hsame => hbook (hsame.trans h.sameBook)], ?_⟩
    simp [hbook]

end

/-- A node's signature as a proof has it. -/
def signatureOf (node : UInt8) : NodeSignature := ⟨node.toUInt64, (endorsementOf node).signature.bytes⟩

theorem isBy_signatureOf {node : UInt8} {weight : UInt64}
    (h : (endorsementOf node).isBy (.filled 0xab) (memberOf node weight) = true) :
    (signatureOf node).IsBy (.filled 0xab) [] (memberOf node weight) := by
  simp only [Submission.isBy, Bool.and_eq_true] at h
  exact ⟨rfl, (endorsementOf node).signature.length_bytes, eq_ok_of_isOk h.2⟩

/-- Two of three nodes make up a proof: one of them is not enough, and given twice they are no proof. -/
theorem verifyProof_twoSignatures :
    HistoryCollector.new (.filled 0xab) threeMembers = .ok threeCollector ∧
      threeCollector.verifyProof ⟨.filled 0xab, [], [signatureOf 1, signatureOf 2]⟩ = .ok true ∧
      threeCollector.verifyProof ⟨.filled 0xab, [], [signatureOf 2]⟩ = .ok false ∧
      threeCollector.verifyProof ⟨.filled 0xab, [], [signatureOf 1, signatureOf 2, signatureOf 2]⟩ = .ok false := by
  obtain ⟨both, hboth, hholds⟩ :=
    verifyProof_iff new_threeMembers [] ⟨.filled 0xab, [], [signatureOf 1, signatureOf 2]⟩
  obtain ⟨single, hsingle, hlight⟩ := verifyProof_iff new_threeMembers [] ⟨.filled 0xab, [], [signatureOf 2]⟩
  obtain ⟨twice, htwice, hrepeats⟩ :=
    verifyProof_iff new_threeMembers [] ⟨.filled 0xab, [], [signatureOf 1, signatureOf 2, signatureOf 2]⟩
  have htrue : both = true := by
    refine hholds.mpr ⟨rfl, by decide, ?_, by decide⟩
    intro s hs
    rcases List.mem_pair.mp hs with rfl | rfl
    · exact ⟨memberOf 1 1, by simp [threeMembers], isBy_signatureOf isBy_one⟩
    · exact ⟨memberOf 2 2, by simp [threeMembers], isBy_signatureOf isBy_two⟩
  have hfalse : single = false := by
    rw [← Bool.not_eq_true, hlight]
    rintro ⟨-, -, -, hthird⟩
    revert hthird
    decide
  have hneither : twice = false := by
    rw [← Bool.not_eq_true, hrepeats]
    rintro ⟨-, hascends, -⟩
    revert hascends
    decide
  exact ⟨new_threeMembers, htrue ▸ hboth, hfalse ▸ hsingle, hneither ▸ htwice⟩

end HistoryCollector

end RoundChain
