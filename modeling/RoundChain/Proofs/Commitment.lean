import RoundChain.Proofs.VerifiedChains

/-!
# What the last hash tells

A block's hash is taken of its body and of the hash before it, so the last hash of a verified
chain tells the bodies of all its blocks, `verifyChain_commits`. Nothing is assumed of SHA-384:
where the last hash does not tell two chains apart, the chains hold two byte strings with one
digest.

## The model

A block's *body* is what its hash covers, all items but the proof. Two strings are digested on
the way from a body to the block's hash: the frames of the body, and the hash before followed by
the digest of these frames. `HashedAlike` says that two bodies give different strings with one
digest in one of the two places. `Committed` is what a reader has found out about the blocks it
accepted.
-/

namespace RoundChain

/-! ### Digests -/

/-- Different byte strings with one digest. -/
def Collide (x y : Bytes) : Prop := x ≠ y ∧ BlockHash.sha384 x = BlockHash.sha384 y

theorem eq_or_collide {x y : Bytes} (h : BlockHash.sha384 x = BlockHash.sha384 y) : x = y ∨ Collide x y := by
  by_cases hxy : x = y
  · exact .inl hxy
  · exact .inr ⟨hxy, h⟩

/-- Both hashes have a fixed length, so their digest tells them apart. -/
theorem combine_inj {previous previous' items items' : BlockHash}
    (h : combine previous items = combine previous' items') :
    (previous = previous' ∧ items = items') ∨
      Collide (previous.bytes ++ items.bytes) (previous'.bytes ++ items'.bytes) := by
  refine (eq_or_collide h).imp_left ?_
  intro hbytes
  have hlength : previous.bytes.length = previous'.bytes.length := by
    rw [previous.length_bytes, previous'.length_bytes]
  obtain ⟨hprevious, hitems⟩ := List.append_inj hbytes hlength
  exact ⟨BlockHash.ext hprevious, BlockHash.ext hitems⟩

theorem frameItems_of_itemsHash {body : List Bytes} {hash : BlockHash} (h : itemsHash body = .ok hash) :
    ∃ framed, frameItems body = .ok framed ∧ BlockHash.sha384 framed = hash :=
  map_eq_ok_iff.mp h

/-- Two bodies behind two hashes that are digested alike though they are not the same: in the frames of the
bodies, or in the hash before and the digest of the frames. -/
inductive HashedAlike (previous previous' : BlockHash) (body body' : List Bytes) : Prop where
  /-- The frames of the bodies are different and have one digest. -/
  | frames {framed framed' : Bytes} (left : frameItems body = .ok framed) (right : frameItems body' = .ok framed')
      (collide : Collide framed framed')
  /-- The hashes before, each followed by the digest of the frames, are different and have one digest. -/
  | links {items items' : BlockHash} (left : itemsHash body = .ok items) (right : itemsHash body' = .ok items')
      (collide : Collide (previous.bytes ++ items.bytes) (previous'.bytes ++ items'.bytes))

/-- One hash of two blocks tells their bodies and the hash before them. -/
theorem blockHash_inj {previous previous' hash : BlockHash} {body body' : List Bytes}
    (h : blockHash previous body = .ok hash) (h' : blockHash previous' body' = .ok hash) :
    (previous = previous' ∧ body = body') ∨ HashedAlike previous previous' body body' := by
  obtain ⟨items, hitems, rfl⟩ := map_eq_ok_iff.mp h
  obtain ⟨items', hitems', hcombine⟩ := map_eq_ok_iff.mp h'
  rcases combine_inj hcombine.symm with ⟨rfl, rfl⟩ | hcollide
  · obtain ⟨framed, hframed, hdigest⟩ := frameItems_of_itemsHash hitems
    obtain ⟨framed', hframed', hdigest'⟩ := frameItems_of_itemsHash hitems'
    rcases eq_or_collide (hdigest.trans hdigest'.symm) with rfl | hcollide
    · have hsplit : splitFrames framed = .ok body := splitFrames_eq_ok_iff.mpr hframed
      rw [splitFrames_eq_ok_iff.mpr hframed'] at hsplit
      exact .inl ⟨rfl, (Except.ok.inj hsplit).symm⟩
    · exact .inr (.frames hframed hframed' hcollide)
  · exact .inr (.links hitems hitems' hcollide)

/-! ### Accepted blocks -/

/-- An accepted block names the hash before it, and its hash is that of its body. -/
theorem verifyBlock_commits {items : List Bytes} {previous : BlockHash} {block : FinalizedBlock}
    (h : verifyBlock items previous = .ok block) :
    block.previous = previous ∧ blockHash previous items.dropLast = .ok block.hash := by
  cases verifyBlock_eq_ok_iff.mp h with
  | block _ _ _ _ _ _ hashed _ _ =>
    rw [List.dropLast_concat]
    exact ⟨rfl, hashed⟩

/-- Blocks that were accepted one after the other, from a hash on: each names the hash of the one before, and
its hash is that of its body. -/
inductive Committed : BlockHash → List (List Bytes) → List FinalizedBlock → Prop where
  /-- No blocks. -/
  | nil (previous : BlockHash) : Committed previous [] []
  /-- A block and those after it. -/
  | cons {previous : BlockHash} {items : List Bytes} {rest : List (List Bytes)} {block : FinalizedBlock}
      {more : List FinalizedBlock} (link : block.previous = previous)
      (hash : blockHash previous items.dropLast = .ok block.hash) (after : Committed block.hash rest more) :
      Committed previous (items :: rest) (block :: more)

theorem committed_of_accepted {previous : BlockHash} {expected : Option UInt64} {blocks : List (List Bytes)}
    {stored : List FinalizedBlock} (h : Accepted previous expected blocks stored) :
    Committed previous blocks stored := by
  induction h with
  | nil => exact .nil _
  | cons hverified _ _ _ ih =>
    obtain ⟨hlink, hhash⟩ := verifyBlock_commits hverified
    exact .cons hlink hhash ih

/-! ### Two chains -/

/-- The newest hash of accepted blocks behind a hash. -/
def lastHash : BlockHash → List FinalizedBlock → BlockHash
  | previous, [] => previous
  | _, block :: rest => lastHash block.hash rest

theorem lastHash_eq {blocks : List FinalizedBlock} {block : FinalizedBlock} (h : blocks.getLast? = some block)
    (previous : BlockHash) : lastHash previous blocks = block.hash := by
  induction blocks generalizing previous with
  | nil => cases h
  | cons first rest ih =>
    cases rest with
    | nil => cases h; rfl
    | cons second rest => exact ih (by rwa [List.getLast?_cons_cons] at h) first.hash

/-- Two chains hold, at one place, bodies that are digested alike though they are not the same. -/
def HashedAlikeAt (xs ys : List (List Bytes)) (as bs : List FinalizedBlock) (i : Nat) : Prop :=
  ∃ x y a b, xs[i]? = some x ∧ ys[i]? = some y ∧ as[i]? = some a ∧ bs[i]? = some b ∧
    HashedAlike a.previous b.previous x.dropLast y.dropLast

/-- The newest hash of equally many blocks tells their bodies and the hash behind which they begin. -/
theorem Committed.inj {previous previous' : BlockHash} {xs ys : List (List Bytes)} {as bs : List FinalizedBlock}
    (hx : Committed previous xs as) (hy : Committed previous' ys bs) (hlength : xs.length = ys.length)
    (hlast : lastHash previous as = lastHash previous' bs) :
    (previous = previous' ∧ xs.map List.dropLast = ys.map List.dropLast) ∨ ∃ i, HashedAlikeAt xs ys as bs i := by
  induction hx generalizing previous' ys bs with
  | nil =>
    cases hy with
    | nil => exact .inl ⟨hlast, rfl⟩
    | cons => cases hlength
  | cons hlink hhash _ ih =>
    cases hy with
    | nil => cases hlength
    | cons hlink' hhash' hafter =>
      -- the blocks behind the first ones begin at one hash, and this hash tells the first ones
      rcases ih hafter (Nat.succ.inj hlength) hlast with ⟨hsame, hrest⟩ | ⟨i, halike⟩
      · rcases blockHash_inj hhash (hsame ▸ hhash') with ⟨hprevious, hbody⟩ | halike
        · exact .inl ⟨hprevious, by rw [List.map_cons, List.map_cons, hbody, hrest]⟩
        · subst hlink hlink'
          exact .inr ⟨0, _, _, _, _, rfl, rfl, rfl, rfl, halike⟩
      · exact .inr ⟨i + 1, halike⟩

/-- **The last hash of a verified chain tells its whole history.** Where two equally long chains are accepted
behind one hash and end with the same hash, their blocks have the same bodies, byte for byte; or at some place
the two chains hold a collision of SHA-384: two different byte strings with one digest, the frames of the two
bodies or the two hashes before with the digests of these frames. -/
theorem verifyChain_commits {anchor : BlockHash} {xs ys : List (List Bytes)} {as bs : List FinalizedBlock}
    {a b : FinalizedBlock} (hx : verifyChain xs anchor = .ok as) (hy : verifyChain ys anchor = .ok bs)
    (hlength : xs.length = ys.length) (ha : as.getLast? = some a) (hb : bs.getLast? = some b)
    (hhash : a.hash = b.hash) :
    (∀ i : Nat, xs[i]?.map List.dropLast = ys[i]?.map List.dropLast) ∨ ∃ i, HashedAlikeAt xs ys as bs i := by
  have hlast : lastHash anchor as = lastHash anchor bs := by rw [lastHash_eq ha, lastHash_eq hb, hhash]
  refine ((committed_of_accepted (verifyChain_eq_ok_iff.mp hx)).inj
    (committed_of_accepted (verifyChain_eq_ok_iff.mp hy)) hlength hlast).imp_left ?_
  rintro ⟨-, hbodies⟩ i
  rw [← List.getElem?_map, hbodies, List.getElem?_map]

/-- Two blocks without content in a chain. What their proofs say of the state is not covered by any hash. -/
def headerChain (startState : BlockHash) : List (List Bytes) :=
  [headerItems 0 .zero startState, headerItems 1 (headerBlock 0 .zero).hash startState]

theorem verifyChain_headerChain (startState : BlockHash) :
    ∃ first second, verifyChain (headerChain startState) .zero = .ok [first, second] ∧
      second.hash = (headerBlock 1 (headerBlock 0 .zero).hash).hash := by
  obtain ⟨first, hfirst, hzero, hhash⟩ := verifyBlock_headerItems 0 .zero startState
  obtain ⟨second, hsecond, hone, hlast⟩ := verifyBlock_headerItems 1 (headerBlock 0 .zero).hash startState
  refine ⟨first, second, ?_, hlast⟩
  simp only [verifyChain, headerChain, verifyFrom, hfirst, hzero, hhash, hsecond, hone, Checked.ofExcept, bind,
    Except.bind, pure, Except.pure]
  rfl

theorem verifyChain_commits_header_chains :
    headerChain .zero ≠ headerChain (.filled 1) ∧
      ∃ as bs a b, verifyChain (headerChain .zero) .zero = .ok as ∧
        verifyChain (headerChain (.filled 1)) .zero = .ok bs ∧
        as.getLast? = some a ∧ bs.getLast? = some b ∧ a.hash = b.hash ∧
        ((∀ i : Nat, (headerChain .zero)[i]?.map List.dropLast = (headerChain (.filled 1))[i]?.map List.dropLast) ∨
          ∃ i, HashedAlikeAt (headerChain .zero) (headerChain (.filled 1)) as bs i) := by
  have hproofs : headerItems 0 .zero .zero ≠ headerItems 0 .zero (.filled 1) := by decide +kernel
  obtain ⟨_, a, hx, ha⟩ := verifyChain_headerChain .zero
  obtain ⟨_, b, hy, hb⟩ := verifyChain_headerChain (.filled 1)
  have hhash : a.hash = b.hash := ha.trans hb.symm
  exact ⟨fun h => hproofs (List.cons.inj h).1, _, _, a, b, hx, hy, rfl, rfl, hhash,
    verifyChain_commits hx hy rfl rfl rfl hhash⟩

end RoundChain
