import RoundChain.Proofs.Maps
import RoundChain.Proofs.Outcome
import RoundChain.Signing.History
import Mathlib.Algebra.BigOperators.Group.Finset.Basic
import Mathlib.Algebra.GroupWithZero.Nat
import Mathlib.Algebra.Order.BigOperators.Group.Finset

/-!
# Weights of a roster

A roster that `HistoryCollector.new` accepts has distinct nodes, and their weights add up to a word. So the
weight of any distinct nodes is a word as well: whoever adds up the weights of nodes, with a sum that is
checked or one that is not, never exceeds it, `weightOf_eq_ok`.

A proof with ascending nodes is one with distinct nodes. `verifySignatures_eq_ok` says what is made of one
whose signatures are valid.
-/

namespace RoundChain

open Ed25519 (PublicKey Signature)

/-- A node of a roster, with its key and its weight. -/
abbrev Member := UInt64 × PublicKey × UInt64

/-- The weight of members, as a natural number. -/
def rosterWeight (members : List Member) : Nat := (members.map fun member => member.2.2.toNat).sum

namespace HistoryCollector

variable {c : HistoryCollector} {metadata : Bytes}

/-! ### The roster -/

/-- The entry of a member. -/
def entryOf (member : Member) : UInt64 × RosterEntry := (member.1, ⟨member.2.1, member.2.2⟩)

theorem enroll_eq_ok {members : List Member} {roster roster' : WordMap RosterEntry} {total total' : UInt64}
    (h : enroll roster total members = .ok (roster', total')) :
    roster'.entries.Perm (members.map entryOf ++ roster.entries) ∧
      total'.toNat = total.toNat + rosterWeight members := by
  induction members generalizing roster total with
  | nil =>
    cases h
    exact ⟨.refl _, rfl⟩
  | cons member rest ih =>
    obtain ⟨node, key, weight⟩ := member
    rw [enroll] at h
    split at h
    · cases h
    rename_i hnew
    split at h
    · rename_i hfits
      have hsize := size_word
      have hsum : (total + weight).toNat = total.toNat + weight.toNat := by
        rw [UInt64.toNat_add]
        omega
      obtain ⟨hperm, htotal⟩ := ih h
      refine ⟨?_, ?_⟩
      · refine hperm.trans (.trans (.append_left _ (WordMap.perm_insert _ ((Bool.not_eq_true _).mp hnew))) ?_)
        exact List.perm_middle
      · rw [htotal, hsum, rosterWeight, rosterWeight, List.map_cons, List.sum_cons, Nat.add_assoc]
    · cases h

/-- A new collector has the members as its roster, and nothing gathered. -/
theorem new_eq_ok {book : BlockHash} {members : List Member} (h : new book members = .ok c) :
    c.book = book ∧ c.roster.entries.Perm (members.map entryOf) ∧
      c.totalWeight.toNat = rosterWeight members ∧ 0 < rosterWeight members ∧
      c.gathered = [] ∧ c.proofs = [] := by
  obtain ⟨⟨roster, total⟩, henroll, h⟩ := bind_eq_ok_iff.mp h
  simp only at h
  split at h
  · cases h
  rename_i htotal
  cases h
  obtain ⟨hperm, hsum⟩ := enroll_eq_ok henroll
  have hzero : (0 : UInt64).toNat = 0 := rfl
  rw [hzero, Nat.zero_add] at hsum
  refine ⟨rfl, ?_, hsum, ?_, rfl, rfl⟩
  · simpa [WordMap.empty] using hperm
  · rw [← hsum, Nat.pos_iff_ne_zero]
    exact fun hnone => htotal (UInt64.toNat_inj.mp hnone)

/-- Distinct nodes are added, as long as their weights add up to a word. -/
theorem exists_enroll {members : List Member} {roster : WordMap RosterEntry} {total : UInt64}
    (hnodup : (members.map (·.1)).Nodup) (hnew : ∀ member ∈ members, roster.contains member.1 = false)
    (hfits : total.toNat + rosterWeight members < UInt64.size) :
    ∃ enrolled, enroll roster total members = .ok enrolled := by
  induction members generalizing roster total with
  | nil => exact ⟨_, rfl⟩
  | cons member rest ih =>
    obtain ⟨node, key, weight⟩ := member
    obtain ⟨hother, hrest⟩ := List.nodup_cons.mp hnodup
    have hsize := size_word
    rw [rosterWeight, List.map_cons, List.sum_cons, ← rosterWeight] at hfits
    simp only at hfits
    have hsum : (total + weight).toNat = total.toNat + weight.toNat := by
      rw [UInt64.toNat_add]
      omega
    have hnode : roster.contains node = false := hnew _ List.mem_cons_self
    rw [enroll, hnode, if_neg Bool.false_ne_true, if_pos (by omega)]
    refine ih hrest (fun member hmember => ?_) (by omega)
    have hne : member.1 ≠ node := fun hsame => hother (List.mem_map.mpr ⟨member, hmember, hsame⟩)
    rw [WordMap.contains_insert, hnew member (List.mem_cons_of_mem _ hmember), beq_false_of_ne hne]
    rfl

/-- **Distinct members make a roster if their weights add up to a word that is not zero.** -/
theorem exists_new (book : BlockHash) {members : List Member} (hnodup : (members.map (·.1)).Nodup)
    (hpos : 0 < rosterWeight members) (hfits : rosterWeight members < UInt64.size) :
    ∃ c, new book members = .ok c := by
  have hzero : (0 : UInt64).toNat = 0 := rfl
  have hnew : ∀ member ∈ members, (WordMap.empty : WordMap RosterEntry).contains member.1 = false := fun _ _ => rfl
  have hsum : (0 : UInt64).toNat + rosterWeight members < UInt64.size := by omega
  obtain ⟨⟨roster, total⟩, henroll⟩ := exists_enroll hnodup hnew hsum
  have htotal : total ≠ 0 := by
    rintro rfl
    have hsum := (enroll_eq_ok henroll).2
    omega
  refine ⟨⟨book, roster, total, [], []⟩, bind_eq_ok_iff.mpr ⟨_, henroll, ?_⟩⟩
  simp only
  rw [if_neg htotal]
  rfl

/-! ### Weights -/

/-- The weight of a node, which is none outside the roster. -/
def weightAt (c : HistoryCollector) (node : UInt64) : Nat := (c.roster.find? node).elim 0 (·.weight.toNat)

/-- The total weight is that of the whole roster. -/
def Balanced (c : HistoryCollector) : Prop :=
  c.totalWeight.toNat = (c.roster.entries.map fun e => e.2.weight.toNat).sum

theorem weightAt_eq {e : UInt64 × RosterEntry} (h : e ∈ c.roster.entries) : c.weightAt e.1 = e.2.weight.toNat := by
  rw [weightAt, WordMap.find?_eq_some_iff.mpr h]
  rfl

/-- The weight of distinct nodes is that of their entries in the roster. -/
theorem sum_weightAt {nodes : List UInt64} (h : nodes.Nodup) :
    (nodes.map c.weightAt).sum =
      ((c.roster.entries.filter fun e => e.1 ∈ nodes).map fun e => e.2.weight.toNat).sum := by
  have hentries : (c.roster.entries.filter fun e => e.1 ∈ nodes).map (fun e => e.2.weight.toNat) =
      ((c.roster.entries.filter fun e => e.1 ∈ nodes).map (·.1)).map c.weightAt := by
    rw [List.map_map]
    refine List.map_congr_left fun e he => ?_
    exact (weightAt_eq (List.mem_of_mem_filter he)).symm
  have hkeys : ((c.roster.entries.filter fun e => e.1 ∈ nodes).map (·.1)).Nodup :=
    List.Nodup.sublist (List.filter_sublist.map _) c.roster.nodup_keys
  rw [hentries, ← List.sum_toFinset _ h, ← List.sum_toFinset _ hkeys]
  refine (Finset.sum_subset (fun node hnode => ?_) fun node hnode hout => ?_).symm
  · obtain ⟨e, he, rfl⟩ := List.mem_map.mp (List.mem_toFinset.mp hnode)
    exact List.mem_toFinset.mpr (of_decide_eq_true (List.mem_filter.mp he).2)
  · -- a node that has no entry weighs nothing
    cases hfind : c.roster.find? node with
    | none => rw [weightAt, hfind]; rfl
    | some entry =>
      have hmem := WordMap.find?_eq_some_iff.mp hfind
      refine absurd (List.mem_toFinset.mpr (List.mem_map.mpr ⟨(node, entry), ?_, rfl⟩)) hout
      exact List.mem_filter.mpr ⟨hmem, decide_eq_true (List.mem_toFinset.mp hnode)⟩

/-- **Distinct nodes have no more weight than the whole roster.** -/
theorem Balanced.sum_weightAt_le (hc : c.Balanced) {nodes : List UInt64} (h : nodes.Nodup) :
    (nodes.map c.weightAt).sum ≤ c.totalWeight.toNat := by
  rw [sum_weightAt h, hc]
  exact List.Sublist.sum_le_sum (List.filter_sublist.map _) fun _ _ => Nat.zero_le _

theorem isStrongMinority_iff {weight total : UInt64} :
    isStrongMinority weight total = true ↔ total.toNat ≤ 3 * weight.toNat := decide_eq_true_iff

theorem weightOf_eq_ok_of_lt {nodes : List UInt64} (h : (nodes.map c.weightAt).sum < UInt64.size) :
    ∃ weight, c.weightOf nodes = .ok weight ∧ weight.toNat = (nodes.map c.weightAt).sum := by
  induction nodes with
  | nil => exact ⟨0, rfl, rfl⟩
  | cons node rest ih =>
    rw [List.map_cons, List.sum_cons] at h ⊢
    obtain ⟨more, hmore, hsum⟩ := ih (by omega)
    rw [weightOf, hmore]
    cases hfind : c.roster.find? node with
    | none =>
      refine ⟨more, rfl, ?_⟩
      rw [weightAt, hfind, hsum]
      exact (Nat.zero_add _).symm
    | some entry =>
      have hweight : c.weightAt node = entry.weight.toNat := by
        rw [weightAt, hfind]
        rfl
      have hfits : entry.weight.toNat + more.toNat < UInt64.size := by
        rw [hsum, ← hweight]
        exact h
      have hadded : addWords (ε := StreamError) entry.weight more = .ok (entry.weight + more) := if_pos hfits
      refine ⟨entry.weight + more, hadded, ?_⟩
      rw [addWords_eq_ok_iff.mp hadded, hweight, hsum]

/-- **The weight of distinct nodes of a roster is a word.** -/
theorem Balanced.weightOf_eq_ok (hc : c.Balanced) {nodes : List UInt64} (h : nodes.Nodup) :
    ∃ weight, c.weightOf nodes = .ok weight ∧ weight.toNat = (nodes.map c.weightAt).sum := by
  refine weightOf_eq_ok_of_lt (Nat.lt_of_le_of_lt (hc.sum_weightAt_le h) ?_)
  rw [size_word]
  exact c.totalWeight.toNat_lt

/-! ### Judging proofs -/

variable [Ed25519.Library]

/-- A signature of a node over metadata that its key in the roster accepts. -/
def Endorsed (c : HistoryCollector) (metadata : Bytes) (node : UInt64) (signature : Signature) : Prop :=
  ∃ entry, c.roster.find? node = some entry ∧
    entry.key.verifyBinding c.book.bytes metadata signature = .ok ()

theorem Endorsed.accepts {node : UInt64} {signature : Signature} (h : c.Endorsed metadata node signature) :
    ∃ entry, c.roster.find? node = some entry ∧ entry.weight.toNat = c.weightAt node ∧
      c.accepts entry metadata signature.bytes = true := by
  obtain ⟨entry, hentry, hvalid⟩ := h
  refine ⟨entry, hentry, ?_, ?_⟩
  · rw [weightAt, hentry]
    rfl
  · rw [HistoryCollector.accepts, Signature.ofBytes_bytes]
    simp only [hvalid]

/-- Valid signatures of ascending nodes are judged by the weight of the nodes. -/
theorem verifySignatures_eq_ok {es : List (UInt64 × Signature)} (last : Option UInt64) (weight : UInt64)
    (hsorted : es.Pairwise fun a b => a.1 < b.1) (hlast : ∀ l ∈ last, ∀ e ∈ es, l < e.1)
    (hvalid : ∀ e ∈ es, c.Endorsed metadata e.1 e.2)
    (hfits : weight.toNat + ((es.map (·.1)).map c.weightAt).sum < UInt64.size) :
    c.verifySignatures metadata last weight (es.map fun e => ⟨e.1, e.2.bytes⟩) =
      .ok (decide (c.totalWeight.toNat ≤ 3 * (weight.toNat + ((es.map (·.1)).map c.weightAt).sum))) := by
  induction es generalizing last weight with
  | nil => rfl
  | cons e rest ih =>
    obtain ⟨hhead, htail⟩ := List.pairwise_cons.mp hsorted
    obtain ⟨entry, hentry, hweight, haccepts⟩ := (hvalid e List.mem_cons_self).accepts
    have hascends : last.any (e.1 ≤ ·) = false := by
      cases last with
      | none => rfl
      | some l => simpa using UInt64.not_le.mpr (hlast l rfl e List.mem_cons_self)
    simp only [List.map_cons, List.sum_cons, ← hweight] at hfits ⊢
    have hsum : addWords (ε := StreamError) weight entry.weight = .ok (weight + entry.weight) :=
      if_pos (by omega)
    have hnat := addWords_eq_ok_iff.mp hsum
    have hrest := ih (some e.1) (weight + entry.weight) htail
      (by rintro _ ⟨⟩ e' he'; exact hhead e' he') (fun e' he' => hvalid e' (List.mem_cons_of_mem _ he'))
      (by rw [hnat]; omega)
    rw [verifySignatures, hascends]
    simp only [Bool.false_eq_true, if_false, hentry, haccepts, if_true, hsum]
    rw [hnat, Nat.add_assoc] at hrest
    exact hrest

/-- **A proof made of valid signatures holds if its nodes have a third of the weight.** -/
theorem Balanced.verifyProof_proofOf (hc : c.Balanced) {signatures : WordMap Signature}
    (hvalid : ∀ node signature, signatures.find? node = some signature → c.Endorsed metadata node signature) :
    c.verifyProof (c.proofOf metadata signatures) =
      .ok (decide (c.totalWeight.toNat ≤ 3 * (signatures.keys.map c.weightAt).sum)) := by
  have hle := hc.sum_weightAt_le signatures.nodup_keys
  have hzero : (0 : UInt64).toNat = 0 := rfl
  have hfits : (0 : UInt64).toNat + ((signatures.entries.map (·.1)).map c.weightAt).sum < UInt64.size := by
    rw [hzero, Nat.zero_add, size_word]
    exact Nat.lt_of_le_of_lt hle c.totalWeight.toNat_lt
  have hjudged := verifySignatures_eq_ok (c := c) none 0 signatures.sorted nofun
    (fun e he => hvalid e.1 e.2 (WordMap.find?_eq_some_iff.mpr he)) hfits
  have hbook : (c.proofOf metadata signatures).book = c.book := rfl
  rw [hzero, Nat.zero_add] at hjudged
  rw [verifyProof, if_pos hbook]
  exact hjudged

end HistoryCollector

end RoundChain
