import RoundChain.Frame
import RoundChain.Proofs.Outcome

/-!
# Exact codecs

Reading an item finds it exactly where its writing stands, with any bytes behind it:
`decodeItem_eq_ok_iff`. So an item has one writing, no writing begins another, and what
is cut off within a writing is refused: `decodeItem_exact`.

## The model

The proof follows the way in which codecs are put together. Words are exact, and so are
pairs, sequences and alternatives of what is exact. A sequence is read back only if a
word counts its elements, as it does those of every sequence that a machine can hold.
`Item.Countable` says so of every sequence in an item, and it holds of every item whose
writing is no longer than a word can tell.
-/

namespace RoundChain

/-! ### What a word counts -/

/-- A word counts the elements. -/
def Counted {α : Type} (xs : List α) : Prop := xs.length < UInt64.size

/-- A word counts the trailing hashes. -/
def StreamInfo.Countable (info : StreamInfo) : Prop := Counted info.trailing

/-- A word counts every sequence in the value. -/
def Singleton.Countable : Singleton → Prop
  | .streamInfo info => info.Countable
  | .platformState _ => True
  | .other bs => Counted bs

/-- A word counts every sequence in the action. -/
def ChangeAction.Countable : ChangeAction → Prop
  | .singleton value => value.Countable
  | .put key value => Counted key ∧ Counted value
  | .delete key => Counted key
  | .push element => Counted element
  | .pop => True

/-- A word counts the changes, and every sequence in them. -/
def ChangeBatch.Countable (batch : ChangeBatch) : Prop :=
  Counted batch.changes ∧ ∀ change ∈ batch.changes, change.action.Countable

/-- A word counts the signatures, and every byte string of the proof. -/
def HistoryProof.Countable (proof : HistoryProof) : Prop :=
  Counted proof.metadata ∧ Counted proof.signatures ∧ ∀ s ∈ proof.signatures, Counted s.signature

/-- A word counts every sequence in the signature. -/
def BlockSignature.Countable (signature : BlockSignature) : Prop :=
  Counted signature.bytes ∧ ∀ proof ∈ signature.history, proof.Countable

/-- A word counts every sequence in the item. -/
def Item.Countable : Item → Prop
  | .blockHeader _ | .roundHeader _ | .eventHeader _ => True
  | .eventTransaction payload | .transactionResult payload => Counted payload
  | .stateChanges batch => batch.Countable
  | .blockProof proof => proof.signature.Countable

namespace Codec

variable {α β : Type} {P : α → Prop} {Q : β → Prop}

/-! ### Words -/

theorem decodeNat_eq_ok_iff {width n : Nat} {bs rest : Bytes} :
    decodeNat width bs = .ok (n, rest) ↔
      n < Nat.pow 256 width ∧ bs = Bytes.ofNatLE width n ++ rest := by
  unfold decodeNat
  constructor
  · intro h
    simp only at h
    split at h
    · rename_i hl
      cases h
      refine ⟨?_, ?_⟩
      · have := Bytes.toNatLE_lt (bs.take width)
        rwa [hl] at this
      · have := Bytes.ofNatLE_toNatLE (bs.take width)
        rw [hl] at this
        rw [this, List.take_append_drop]
    · cases h
  · rintro ⟨hn, rfl⟩
    have htake : (Bytes.ofNatLE width n ++ rest).take width = Bytes.ofNatLE width n :=
      List.take_left' (Bytes.length_ofNatLE width n)
    have hdrop : (Bytes.ofNatLE width n ++ rest).drop width = rest :=
      List.drop_left' (Bytes.length_ofNatLE width n)
    simp only [htake, hdrop, Bytes.length_ofNatLE, if_true, Bytes.toNatLE_ofNatLE,
      Nat.mod_eq_of_lt hn]

/-- A length is read where it stands, if a word can tell it. -/
theorem decode_length_iff {n : Nat} {bs rest : Bytes} :
    decodeNat 8 bs = .ok (n, rest) ↔ n < UInt64.size ∧ bs = Bytes.ofNatLE 8 n ++ rest := by
  have hword : Nat.pow 256 8 = UInt64.size := by rw [size_word]
  rw [decodeNat_eq_ok_iff, hword]

theorem exact_word32 : word32.Exact fun _ => True where
  decode_iff bs x rest := by
    simp only [word32, map_eq_ok_iff, Prod.exists, true_and]
    constructor
    · rintro ⟨n, r, h, heq⟩
      cases heq
      obtain ⟨hn, rfl⟩ := decodeNat_eq_ok_iff.mp h
      rw [UInt32.toNat_ofNat_of_lt' hn]
    · rintro rfl
      exact ⟨x.toNat, rest, decodeNat_eq_ok_iff.mpr ⟨x.toNat_lt, rfl⟩, by rw [UInt32.ofNat_toNat]⟩
  countable_of_length _ _ := trivial

theorem exact_word64 : word64.Exact fun _ => True where
  decode_iff bs x rest := by
    simp only [word64, map_eq_ok_iff, Prod.exists, true_and]
    constructor
    · rintro ⟨n, r, h, heq⟩
      cases heq
      obtain ⟨hn, rfl⟩ := decodeNat_eq_ok_iff.mp h
      rw [UInt64.toNat_ofNat_of_lt' hn]
    · rintro rfl
      exact ⟨x.toNat, rest, decodeNat_eq_ok_iff.mpr ⟨x.toNat_lt, rfl⟩, by rw [UInt64.ofNat_toNat]⟩
  countable_of_length _ _ := trivial

/-! ### Composition -/

theorem Exact.pair {a : Codec α} {b : Codec β} (ha : a.Exact P) (hb : b.Exact Q) :
    (a.pair b).Exact fun x => P x.1 ∧ Q x.2 where
  decode_iff := by
    rintro bs ⟨x, y⟩ rest
    simp only [Codec.pair]
    constructor
    · intro h
      obtain ⟨⟨x', bs₁⟩, hx, h⟩ := bind_eq_ok_iff.mp h
      obtain ⟨⟨y', bs₂⟩, hy, h⟩ := bind_eq_ok_iff.mp h
      cases h
      obtain ⟨hpx, rfl⟩ := (ha.decode_iff ..).mp hx
      obtain ⟨hqy, rfl⟩ := (hb.decode_iff ..).mp hy
      exact ⟨⟨hpx, hqy⟩, (List.append_assoc ..).symm⟩
    · rintro ⟨⟨hpx, hqy⟩, rfl⟩
      have hx := (ha.decode_iff _ x (b.encode y ++ rest)).mpr ⟨hpx, rfl⟩
      have hy := (hb.decode_iff _ y rest).mpr ⟨hqy, rfl⟩
      rw [List.append_assoc]
      exact bind_eq_ok_iff.mpr ⟨_, hx, bind_eq_ok_iff.mpr ⟨_, hy, rfl⟩⟩
  countable_of_length := by
    rintro ⟨x, y⟩ hl
    simp only [Codec.pair, List.length_append] at hl
    exact ⟨ha.countable_of_length x (by omega), hb.countable_of_length y (by omega)⟩

theorem Exact.imap {c : Codec α} {f : α → β} {g : β → α} (h : c.Exact P)
    (hfg : ∀ y, f (g y) = y) (hgf : ∀ x, g (f x) = x) (hcountable : ∀ y, P (g y) ↔ Q y) :
    (c.imap f g).Exact Q where
  decode_iff bs y rest := by
    simp only [Codec.imap, map_eq_ok_iff, Prod.exists]
    constructor
    · rintro ⟨x, r, hx, heq⟩
      cases heq
      rw [← hcountable, hgf]
      exact (h.decode_iff ..).mp hx
    · rintro ⟨hy, hbs⟩
      exact ⟨g y, rest, (h.decode_iff ..).mpr ⟨(hcountable y).mpr hy, hbs⟩, by rw [hfg]⟩
  countable_of_length y hl := (hcountable y).mp (h.countable_of_length (g y) hl)

/-- The rest of an alternative is read exactly where its writing stands. -/
theorem Exact.decodeAs_iff {c : Codec α} (h : c.Exact P) {f : α → β} {bs rest : Bytes} {y : β} :
    c.decodeAs f bs = .ok (y, rest) ↔ ∃ x, y = f x ∧ P x ∧ bs = c.encode x ++ rest := by
  simp only [Codec.decodeAs, map_eq_ok_iff, Prod.exists]
  constructor
  · rintro ⟨x, r, hx, heq⟩
    cases heq
    exact ⟨x, rfl, (h.decode_iff ..).mp hx⟩
  · rintro ⟨x, rfl, hbs⟩
    exact ⟨x, rest, (h.decode_iff ..).mpr hbs, rfl⟩

theorem Exact.option {c : Codec α} (h : c.Exact P) : c.option.Exact fun o => ∀ x ∈ o, P x where
  decode_iff bs o rest := by
    cases bs with
    | nil => cases o <;> simp [Codec.option]
    | cons tag bs =>
      simp only [Codec.option]
      by_cases h₀ : tag = 0
      · subst h₀
        cases o <;> simp
      · by_cases h₁ : tag = 1
        · subst h₁
          rw [if_neg (by decide), if_pos rfl, h.decodeAs_iff]
          cases o <;> simp
        · rw [if_neg h₀, if_neg h₁]
          cases o <;> simp [h₀, h₁]
  countable_of_length := by
    rintro o hl x rfl
    simp only [Codec.option, List.length_cons] at hl
    exact h.countable_of_length x (by omega)

theorem Exact.decodeMany_iff {c : Codec α} (h : c.Exact P) {n : Nat} {bs rest : Bytes} {xs : List α} :
    decodeMany c n bs = .ok (xs, rest) ↔
      xs.length = n ∧ (∀ x ∈ xs, P x) ∧ bs = xs.flatMap c.encode ++ rest := by
  induction n generalizing bs xs with
  | zero =>
    rw [decodeMany, List.length_eq_zero_iff]
    constructor
    · intro h; cases h; exact ⟨rfl, nofun, rfl⟩
    · rintro ⟨rfl, -, rfl⟩; rfl
  | succ n ih =>
    rw [decodeMany]
    constructor
    · intro hd
      obtain ⟨⟨x, bs₁⟩, hx, hd⟩ := bind_eq_ok_iff.mp hd
      obtain ⟨⟨ys, bs₂⟩, hys, hd⟩ := bind_eq_ok_iff.mp hd
      cases hd
      obtain ⟨hpx, rfl⟩ := (h.decode_iff ..).mp hx
      obtain ⟨rfl, hpys, rfl⟩ := ih.mp hys
      exact ⟨rfl, List.forall_mem_cons.mpr ⟨hpx, hpys⟩, by rw [List.flatMap_cons, List.append_assoc]⟩
    · rintro ⟨hn, hp, rfl⟩
      cases xs with
      | nil => cases hn
      | cons x xs =>
        obtain ⟨hpx, hpxs⟩ := List.forall_mem_cons.mp hp
        have hx := (h.decode_iff _ x (xs.flatMap c.encode ++ rest)).mpr ⟨hpx, rfl⟩
        have hxs := ih.mpr ⟨Nat.succ.inj hn, hpxs, rfl⟩
        rw [List.flatMap_cons, List.append_assoc]
        exact bind_eq_ok_iff.mpr ⟨_, hx, bind_eq_ok_iff.mpr ⟨_, hxs, rfl⟩⟩

/-- Every value takes a byte at least. -/
def Nonempty (c : Codec α) : Prop := ∀ x, 0 < (c.encode x).length

theorem length_le_length_flatMap {c : Codec α} (hc : c.Nonempty) (xs : List α) :
    xs.length ≤ (xs.flatMap c.encode).length := by
  induction xs with
  | nil => exact Nat.le_refl _
  | cons x xs ih =>
    have := hc x
    simp only [List.length_cons, List.flatMap_cons, List.length_append]
    omega

/-- No element is longer than the sequence. -/
theorem length_le_of_mem {c : Codec α} {x : α} {xs : List α} (hx : x ∈ xs) :
    (c.encode x).length ≤ (xs.flatMap c.encode).length := by
  have hmem : c.encode x ∈ xs.map c.encode := List.mem_map_of_mem hx
  rw [List.flatMap_def]
  exact (List.sublist_flatten_of_mem hmem).length_le

theorem Exact.list {c : Codec α} (h : c.Exact P) (hc : c.Nonempty) :
    (list c).Exact fun xs => Counted xs ∧ ∀ x ∈ xs, P x where
  decode_iff bs xs rest := by
    simp only [Codec.list]
    constructor
    · intro hd
      obtain ⟨⟨n, bs₁⟩, hn, hrest⟩ := bind_eq_ok_iff.mp hd
      obtain ⟨hcount, rfl⟩ := decode_length_iff.mp hn
      have hmany : decodeMany c n bs₁ = .ok (xs, rest) := hrest
      obtain ⟨rfl, hp, rfl⟩ := h.decodeMany_iff.mp hmany
      exact ⟨⟨hcount, hp⟩, (List.append_assoc ..).symm⟩
    · rintro ⟨⟨hcount, hp⟩, rfl⟩
      have hn : decodeNat 8 (Bytes.ofNatLE 8 xs.length ++ (xs.flatMap c.encode ++ rest)) =
          .ok (xs.length, xs.flatMap c.encode ++ rest) := decode_length_iff.mpr ⟨hcount, rfl⟩
      have hd : decodeMany c xs.length (xs.flatMap c.encode ++ rest) = .ok (xs, rest) :=
        h.decodeMany_iff.mpr ⟨rfl, hp, rfl⟩
      rw [List.append_assoc]
      exact bind_eq_ok_iff.mpr ⟨_, hn, hd⟩
  countable_of_length xs hl := by
    simp only [Codec.list, List.length_append] at hl
    have hcount := length_le_length_flatMap hc xs
    refine ⟨by unfold Counted; omega, fun x hx => h.countable_of_length x ?_⟩
    have := length_le_of_mem (c := c) hx
    omega

theorem exact_bytes : bytes.Exact Counted where
  decode_iff bs xs rest := by
    simp only [bytes]
    constructor
    · intro hd
      obtain ⟨⟨n, bs₁⟩, hn, hrest⟩ := bind_eq_ok_iff.mp hd
      obtain ⟨hcount, rfl⟩ := decode_length_iff.mp hn
      simp only at hrest
      split at hrest
      · rename_i hlen
        cases hrest
        refine ⟨by rw [Counted, hlen]; exact hcount, ?_⟩
        rw [List.append_assoc, hlen, List.take_append_drop]
      · cases hrest
    · rintro ⟨hcount, rfl⟩
      have hn : decodeNat 8 (Bytes.ofNatLE 8 xs.length ++ (xs ++ rest)) = .ok (xs.length, xs ++ rest) :=
        decode_length_iff.mpr ⟨hcount, rfl⟩
      rw [List.append_assoc]
      refine bind_eq_ok_iff.mpr ⟨(xs.length, xs ++ rest), hn, ?_⟩
      simp only [List.take_left, List.drop_left, if_true]
      rfl
  countable_of_length xs hl := by
    simp only [bytes, List.length_append] at hl
    unfold Counted
    omega

theorem exact_hash : hash.Exact fun _ => True where
  decode_iff bs x rest := by
    simp only [hash, true_and]
    constructor
    · intro hd
      obtain ⟨⟨n, bs₁⟩, hn, hrest⟩ := bind_eq_ok_iff.mp hd
      obtain ⟨-, rfl⟩ := decodeNat_eq_ok_iff.mp hn
      simp only at hrest
      split at hrest
      · rename_i hlen
        split at hrest
        · rename_i h hh
          cases hrest
          have hbytes := BlockHash.ofBytes?_eq_some_iff.mp hh
          have hn48 : n = 48 := by rw [← hlen, ← hbytes, x.length_bytes]
          rw [List.append_assoc, hbytes, List.take_append_drop, hn48]
        · cases hrest
      · cases hrest
    · rintro rfl
      rw [List.append_assoc]
      have hn : decodeNat 8 (Bytes.ofNatLE 8 48 ++ (x.bytes ++ rest)) = .ok (48, x.bytes ++ rest) :=
        decodeNat_eq_ok_iff.mpr ⟨by decide, rfl⟩
      refine bind_eq_ok_iff.mpr ⟨(48, x.bytes ++ rest), hn, ?_⟩
      have htake : (x.bytes ++ rest).take 48 = x.bytes := List.take_left' x.length_bytes
      have hdrop : (x.bytes ++ rest).drop 48 = rest := List.drop_left' x.length_bytes
      simp only [htake, hdrop, x.length_bytes, if_true, BlockHash.ofBytes?_eq_some_iff.mpr rfl]
      rfl
  countable_of_length _ _ := trivial

/-! ### Parts of items -/

theorem exact_timestamp : timestamp.Exact fun _ => True :=
  (exact_word64.pair exact_word32).imap (fun _ => rfl) (fun _ => rfl) fun _ => by simp

theorem exact_version : version.Exact fun _ => True :=
  (exact_word32.pair (exact_word32.pair exact_word32)).imap (fun _ => rfl) (fun _ => rfl)
    fun _ => by simp

theorem nonempty_hash : hash.Nonempty := by
  intro h
  simp only [hash, List.length_append, h.length_bytes]
  omega

theorem exact_streamInfo : streamInfo.Exact StreamInfo.Countable :=
  (exact_word64.option.pair (exact_hash.pair ((exact_hash.list nonempty_hash).pair
    (exact_timestamp.option.pair exact_version)))).imap (fun _ => rfl) (fun _ => rfl)
    fun _ => by simp [StreamInfo.Countable]

theorem exact_platformState : platformState.Exact fun _ => True :=
  (exact_word64.pair exact_timestamp).imap (fun _ => rfl) (fun _ => rfl) fun _ => by simp

/-! ### Alternatives -/

theorem decode_tag (t : UInt32) (rest : Bytes) : word32.decode (tag t ++ rest) = .ok (t, rest) :=
  (exact_word32.decode_iff ..).mpr ⟨trivial, rfl⟩

/-- What is read behind a tag is read where that tag stands. -/
theorem tag_of_bind {f : UInt32 × Bytes → Except DecodeError (α × Bytes)} {bs : Bytes} {r : α × Bytes}
    (h : word32.decode bs >>= f = .ok r) : ∃ t rest, bs = tag t ++ rest ∧ f (t, rest) = .ok r := by
  obtain ⟨⟨t, rest⟩, ht, hf⟩ := bind_eq_ok_iff.mp h
  obtain ⟨-, rfl⟩ := (exact_word32.decode_iff ..).mp ht
  exact ⟨t, rest, rfl, hf⟩

/-- An alternative that was read stands behind its tag. -/
theorem Exact.of_alternative {c : Codec α} (hc : c.Exact P) {k t : UInt32} (ht : t = k) {g : α → β}
    {bs rest : Bytes} {y : β} (h : c.decodeAs g bs = .ok (y, rest)) :
    ∃ x, y = g x ∧ P x ∧ tag t ++ bs = tag k ++ c.encode x ++ rest := by
  obtain ⟨x, rfl, hx, rfl⟩ := hc.decodeAs_iff.mp h
  exact ⟨x, rfl, hx, by rw [ht, List.append_assoc]⟩

/-- An alternative behind its tag is read. -/
theorem Exact.alternative {c : Codec α} (hc : c.Exact P) {k : UInt32} {g : α → β} {x : α} (hx : P x)
    {rest : Bytes} {f : UInt32 × Bytes → Except DecodeError (β × Bytes)}
    (hf : ∀ bs, f (k, bs) = c.decodeAs g bs) :
    word32.decode (tag k ++ c.encode x ++ rest) >>= f = .ok (g x, rest) := by
  rw [List.append_assoc]
  refine bind_eq_ok_iff.mpr ⟨(k, c.encode x ++ rest), decode_tag k _, ?_⟩
  rw [hf, hc.decodeAs_iff]
  exact ⟨x, rfl, hx, rfl⟩

/-- An alternative that a word can measure, with its tag, is countable. -/
theorem Exact.countable_of_tagged {c : Codec α} (hc : c.Exact P) {k : UInt32} {x : α}
    (hl : (tag k ++ c.encode x).length < UInt64.size) : P x := by
  rw [List.length_append] at hl
  exact hc.countable_of_length x (by omega)

theorem exact_singleton : singleton.Exact Singleton.Countable where
  decode_iff bs x rest := by
    constructor
    · intro h
      obtain ⟨t, behind, rfl, hread⟩ := tag_of_bind h
      simp only at hread
      split_ifs at hread with ht ht ht
      · obtain ⟨info, rfl, heq⟩ := exact_streamInfo.of_alternative ht hread
        exact heq
      · obtain ⟨state, rfl, heq⟩ := exact_platformState.of_alternative ht hread
        exact heq
      · obtain ⟨other, rfl, heq⟩ := exact_bytes.of_alternative ht hread
        exact heq
    · rintro ⟨hx, rfl⟩
      cases x with
      | streamInfo info => exact exact_streamInfo.alternative hx fun _ => rfl
      | platformState state => exact exact_platformState.alternative hx fun _ => rfl
      | other other => exact exact_bytes.alternative hx fun _ => rfl
  countable_of_length x hl := by
    cases x with
    | streamInfo info => exact exact_streamInfo.countable_of_tagged hl
    | platformState state => exact exact_platformState.countable_of_tagged hl
    | other other => exact exact_bytes.countable_of_tagged hl

theorem exact_action : action.Exact ChangeAction.Countable where
  decode_iff bs x rest := by
    constructor
    · intro h
      obtain ⟨t, behind, rfl, hread⟩ := tag_of_bind h
      simp only at hread
      split_ifs at hread with ht ht ht ht ht
      · obtain ⟨value, rfl, heq⟩ := exact_singleton.of_alternative ht hread
        exact heq
      · obtain ⟨⟨key, value⟩, rfl, heq⟩ := (exact_bytes.pair exact_bytes).of_alternative ht hread
        exact heq
      · obtain ⟨key, rfl, heq⟩ := exact_bytes.of_alternative ht hread
        exact heq
      · obtain ⟨element, rfl, heq⟩ := exact_bytes.of_alternative ht hread
        exact heq
      · cases hread
        rw [ht]
        exact ⟨trivial, rfl⟩
    · rintro ⟨hx, rfl⟩
      cases x with
      | singleton value => exact exact_singleton.alternative hx fun _ => rfl
      | put key value =>
        refine (exact_bytes.pair exact_bytes).alternative (k := 1)
          (g := fun p => ChangeAction.put p.1 p.2) (x := (key, value)) hx ?_
        exact fun _ => rfl
      | delete key => exact exact_bytes.alternative hx fun _ => rfl
      | push element => exact exact_bytes.alternative hx fun _ => rfl
      | pop => exact bind_eq_ok_iff.mpr ⟨(4, rest), decode_tag 4 rest, rfl⟩
  countable_of_length x hl := by
    cases x with
    | singleton value => exact exact_singleton.countable_of_tagged hl
    | put key value => exact (exact_bytes.pair exact_bytes).countable_of_tagged hl
    | delete key => exact exact_bytes.countable_of_tagged hl
    | push element => exact exact_bytes.countable_of_tagged hl
    | pop => trivial

theorem exact_stateChange : stateChange.Exact fun change => change.action.Countable :=
  (exact_word32.pair exact_action).imap (fun _ => rfl) (fun _ => rfl) fun _ => by simp

theorem nonempty_stateChange : stateChange.Nonempty := by
  intro c
  simp only [stateChange, imap, pair, word32, List.length_append, Bytes.length_ofNatLE]
  omega

theorem exact_changeBatch : changeBatch.Exact ChangeBatch.Countable :=
  (exact_timestamp.pair (exact_stateChange.list nonempty_stateChange)).imap
    (fun _ => rfl) (fun _ => rfl) fun _ => by simp [ChangeBatch.Countable]

theorem exact_scheme : scheme.Exact fun _ => True where
  decode_iff bs x rest := by
    rw [true_and]
    constructor
    · intro h
      obtain ⟨t, behind, rfl, hread⟩ := tag_of_bind h
      simp only at hread
      split_ifs at hread with ht ht ht ht <;> cases hread <;> rw [ht] <;> rfl
    · rintro rfl
      cases x with
      | trivial => exact bind_eq_ok_iff.mpr ⟨(0, rest), decode_tag 0 rest, rfl⟩
      | threshold => exact bind_eq_ok_iff.mpr ⟨(1, rest), decode_tag 1 rest, rfl⟩
      | historyWrapped => exact bind_eq_ok_iff.mpr ⟨(2, rest), decode_tag 2 rest, rfl⟩
      | thresholdWithHistory => exact bind_eq_ok_iff.mpr ⟨(3, rest), decode_tag 3 rest, rfl⟩
  countable_of_length _ _ := trivial

theorem exact_nodeSignature : nodeSignature.Exact fun s => Counted s.signature :=
  (exact_word64.pair exact_bytes).imap (fun _ => rfl) (fun _ => rfl) fun _ => by simp

theorem nonempty_nodeSignature : nodeSignature.Nonempty := by
  intro s
  simp only [nodeSignature, imap, pair, word64, List.length_append, Bytes.length_ofNatLE]
  omega

theorem exact_historyProof : historyProof.Exact HistoryProof.Countable :=
  (exact_hash.pair (exact_bytes.pair (exact_nodeSignature.list nonempty_nodeSignature))).imap
    (fun _ => rfl) (fun _ => rfl) fun _ => by simp [HistoryProof.Countable]

theorem exact_signature : signature.Exact BlockSignature.Countable :=
  (exact_scheme.pair (exact_bytes.pair exact_historyProof.option)).imap
    (fun _ => rfl) (fun _ => rfl) fun _ => by simp [BlockSignature.Countable]

theorem exact_blockHeader : blockHeader.Exact fun _ => True :=
  (exact_word64.pair (exact_version.pair (exact_word64.pair exact_timestamp))).imap
    (fun _ => rfl) (fun _ => rfl) fun _ => by simp

theorem exact_blockProof : blockProof.Exact fun proof => proof.signature.Countable :=
  (exact_word64.pair (exact_hash.pair (exact_hash.pair exact_signature))).imap
    (fun _ => rfl) (fun _ => rfl) fun _ => by simp

/-! ### Items -/

theorem exact_item : item.Exact Item.Countable where
  decode_iff bs x rest := by
    constructor
    · intro h
      obtain ⟨t, behind, rfl, hread⟩ := tag_of_bind h
      simp only at hread
      split_ifs at hread with ht ht ht ht ht ht ht
      · obtain ⟨header, rfl, heq⟩ := exact_blockHeader.of_alternative ht hread
        exact heq
      · obtain ⟨round, rfl, heq⟩ := exact_word64.of_alternative ht hread
        exact heq
      · obtain ⟨creator, rfl, heq⟩ := exact_word64.of_alternative ht hread
        exact heq
      · obtain ⟨payload, rfl, heq⟩ := exact_bytes.of_alternative ht hread
        exact heq
      · obtain ⟨payload, rfl, heq⟩ := exact_bytes.of_alternative ht hread
        exact heq
      · obtain ⟨batch, rfl, heq⟩ := exact_changeBatch.of_alternative ht hread
        exact heq
      · obtain ⟨proof, rfl, heq⟩ := exact_blockProof.of_alternative ht hread
        exact heq
    · rintro ⟨hx, rfl⟩
      cases x with
      | blockHeader header => exact exact_blockHeader.alternative hx fun _ => rfl
      | roundHeader round => exact exact_word64.alternative hx fun _ => rfl
      | eventHeader creator => exact exact_word64.alternative hx fun _ => rfl
      | eventTransaction payload => exact exact_bytes.alternative hx fun _ => rfl
      | transactionResult payload => exact exact_bytes.alternative hx fun _ => rfl
      | stateChanges batch => exact exact_changeBatch.alternative hx fun _ => rfl
      | blockProof proof => exact exact_blockProof.alternative hx fun _ => rfl
  countable_of_length x hl := by
    cases x with
    | blockHeader header => exact exact_blockHeader.countable_of_tagged hl
    | roundHeader round => exact exact_word64.countable_of_tagged hl
    | eventHeader creator => exact exact_word64.countable_of_tagged hl
    | eventTransaction payload => exact exact_bytes.countable_of_tagged hl
    | transactionResult payload => exact exact_bytes.countable_of_tagged hl
    | stateChanges batch => exact exact_changeBatch.countable_of_tagged hl
    | blockProof proof => exact exact_blockProof.countable_of_tagged hl

end Codec

/-- Every item whose writing a word can measure is countable. -/
theorem Item.countable_of_length {item : Item} (hl : item.encode.length < UInt64.size) : item.Countable :=
  Codec.exact_item.countable_of_length item hl

theorem decodeItem_eq_ok_iff {bs : Bytes} {item : Item} :
    decodeItem bs = .ok item ↔ item.Countable ∧ ∃ rest, bs = item.encode ++ rest := by
  have hdecode : decodeItem bs = .ok item ↔ ∃ rest, Codec.item.decode bs = .ok (item, rest) := by
    unfold decodeItem Item.decode
    cases Codec.item.decode bs with
    | error _ => simp [Except.map, Except.mapError]
    | ok r => cases r; simp [Except.map, Except.mapError]
  simp only [hdecode, Codec.exact_item.decode_iff, exists_and_left]
  rfl

theorem decodeItem_eq_error {bs : Bytes} (h : ∀ item, decodeItem bs ≠ .ok item) :
    ∃ text, decodeItem bs = .error (.serialization text) := by
  unfold decodeItem at h ⊢
  cases hdecode : Item.decode bs with
  | error e => exact ⟨e.message, rfl⟩
  | ok item =>
    rw [hdecode] at h
    exact absurd rfl (h item)

/-- A writing that begins another is that other one. -/
theorem Item.eq_of_encode_prefix {a b : Item} (ha : a.Countable) (hb : b.Countable)
    (h : a.encode <+: b.encode) : a = b := by
  obtain ⟨rest, hrest⟩ := h
  have hreadA : decodeItem b.encode = .ok a := decodeItem_eq_ok_iff.mpr ⟨ha, rest, hrest.symm⟩
  have hreadB : decodeItem b.encode = .ok b := decodeItem_eq_ok_iff.mpr ⟨hb, [], (List.append_nil _).symm⟩
  rw [hreadA] at hreadB
  exact Except.ok.inj hreadB

/-- **Items are read exactly where they stand.** A byte string is read as an item if it is the writing of that
item with any bytes behind it, and only then. The items that can be read are the countable ones, among them
all whose writing a word can measure. No writing is a proper beginning of another, and every proper beginning
of a writing is refused. -/
theorem decodeItem_exact :
    (∀ bs item, decodeItem bs = .ok item ↔ item.Countable ∧ ∃ rest, bs = item.encode ++ rest) ∧
      (∀ item : Item, item.encode.length < UInt64.size → item.Countable) ∧
      (∀ a b : Item, a.Countable → b.Countable → a.encode <+: b.encode → a = b) ∧
      ∀ (item : Item) (front : Bytes), item.Countable → front <+: item.encode → front ≠ item.encode →
        ∃ text, decodeItem front = .error (.serialization text) := by
  refine ⟨fun _ _ => decodeItem_eq_ok_iff, fun _ => Item.countable_of_length,
    fun _ _ => Item.eq_of_encode_prefix, fun item front hitem hfront hproper => ?_⟩
  refine decodeItem_eq_error fun other hread => hproper ?_
  obtain ⟨hother, rest, rfl⟩ := decodeItem_eq_ok_iff.mp hread
  -- what was read begins the writing of the item, so it is the item, and nothing is cut off
  obtain rfl := Item.eq_of_encode_prefix hother hitem ((List.prefix_append ..).trans hfront)
  exact hfront.eq_of_length_le (by simp)

end RoundChain
