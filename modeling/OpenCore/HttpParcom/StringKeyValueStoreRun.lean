/-
  File:      OpenCore/HttpParcom/StringKeyValueStoreRun.lean
  Subject:   THE STORE AS A MAP from keys to lists of values.

  A step of the store is one of the map in the states that are fine for it. The others are those in
  which an empty value is taken for none, a value linked by its address is lost, a key is stored a
  second time, or is not stored.

  **Main result**: `runs_answer`.
-/
import OpenCore.HttpParcom.StringKeyValueStore
import OpenCore.Lib.Run

namespace OpenCore.HttpParcom

open List Option
open Function (update_of_ne update_self)
open UInt32 (ofNat_add)

variable {k : Str} {e : Entry}

namespace StringKeyValueStore

variable (charSigned : Bool)

/-! ## 1. The steps -/

inductive Op where
  | add (aNewKey aNewValue : Str) (aNeedReplaceOldValue : Bool)
  | remove (aKey : Str)

namespace Op

/-- What a step does to the map. -/
def on (m : MultiMap Str Str) : Op → MultiMap Str Str
  | add k v replace => m.add lowered k v replace
  | remove k => m.remove lowered k

end Op

/-- What a step does to the store. -/
def step (s : StringKeyValueStore) : Op → Option StringKeyValueStore
  | .add k v replace => (addKeyValuePair charSigned s k v replace).map Prod.snd
  | .remove k => removeKeyValuePair charSigned s k

/-- **The states in which the store does that**: a key to be added is not empty. A new one finds its
    place empty, or there is a place for it among the others. One that is there is not found empty at
    the place of its checksum, and its first value is not empty; it has one value where that is to be
    replaced; and the vector has room for another value, or no key has a linked one. The empty key is
    not removed where an empty place is taken for it. -/
def Fine (s : StringKeyValueStore) : Op → Prop
  | .add k _ replace => k ≠ [] ∧
      match (getHashTableIndex charSigned s k true).1 with
      | none => (s.iFieldKeys (getChecksum charSigned k)).empty = true ∨ s.iNumConflicts < 499
      | some i => (s.iFieldKeys (getChecksum charSigned k)).empty = false ∧ s.iFieldVals i ≠ [] ∧
          if replace then (s.iFieldKeys i).iNext = none
          else s.iStrCSumPtrLenWrapperVector.length < s.bufsize ∨
            ∀ j, (s.iFieldKeys j).iNext = none
  | .remove k => Askable charSigned s k

section Steps

variable {charSigned} {s : StringKeyValueStore} {es : List Entry}

theorem ofNat_add_sub (a b : Nat) : UInt32.ofNat (a + b) - UInt32.ofNat b = UInt32.ofNat a := by
  rw [ofNat_add, UInt32.add_sub_cancel]

theorem pairs_append (l m : MultiMap Str Str) :
    MultiMap.pairs (l ++ m) = MultiMap.pairs l + MultiMap.pairs m := by
  simp [MultiMap.pairs]

theorem octets_append (l m : MultiMap Str Str) : octets (l ++ m) = octets l + octets m := by
  simp [octets]

/-- A new key gets a place that is empty. -/
theorem Holds.place_of_new (h : Holds charSigned s es) (hne : k ≠ [])
    (hk : ∀ e ∈ es, lowered e.key ≠ lowered k)
    (hroom : (s.iFieldKeys (getChecksum charSigned k)).empty = true ∨ s.iNumConflicts < 499) :
    ∃ i n, getHashTableIndex charSigned s k false = (some i, { s with iNumConflicts := n }) ∧
      i ∉ es.map Entry.slot ∧ s.iNumConflicts ≤ n ∧ n ≤ 499 ∧ n ≤ s.iNumConflicts + 1 ∧
      ((s.iFieldKeys (getChecksum charSigned k)).empty = true → n = s.iNumConflicts) ∧
      (i = getChecksum charSigned k ∨ 500 ≤ i ∧ i < 500 + n) := by
  have hc := h.conflicts
  have hquery := h.query_of_not_mem hk fun hnil => absurd hnil hne
  unfold getHashTableIndex
  dsimp only
  by_cases hempty : (s.iFieldKeys (getChecksum charSigned k)).empty = true
  · rw [if_pos hempty, if_neg (by decide)]
    exact ⟨_, _, rfl, (h.empty_iff _).1 hempty, le_rfl, hc, Nat.le_succ _, fun _ => rfl,
      Or.inl rfl⟩
  have hmem := not_not.1 (mt (h.empty_iff _).2 hempty)
  have hother : ¬ isCIEquivalentTo charSigned (s.iFieldKeys (getChecksum charSigned k)).iStr k =
      true := by
    intro hsame
    obtain ⟨e, he, hs⟩ := mem_map.1 hmem
    rw [isCIEquivalentTo_iff, ← hs, (h.held e he).key] at hsame
    exact hk e he hsame
  have hlt := hroom.resolve_left hempty
  rw [if_neg hempty, if_neg hother, if_neg (by decide), hquery]
  dsimp only
  rw [if_neg (by omega)]
  refine ⟨_, _, rfl, ?_, by omega, by omega, le_rfl, fun he => absurd he hempty,
    Or.inr ⟨by omega, by omega⟩⟩
  intro hmem'
  obtain ⟨e, he, hs⟩ := mem_map.1 hmem'
  rcases (h.held e he).place with hp | hp
  · have hlt' := getChecksum_lt charSigned e.key
    omega
  · omega

/-- **A new key** is added with its value. -/
theorem Holds.add_new (h : Holds charSigned s es) {v : Str} (replace : Bool) (hne : k ≠ [])
    (hk : ∀ e ∈ es, lowered e.key ≠ lowered k)
    (hroom : (s.iFieldKeys (getChecksum charSigned k)).empty = true ∨ s.iNumConflicts < 499) :
    ∃ s' e, addKeyValuePair charSigned s k v replace = some (0, s') ∧
      Holds charSigned s' (es ++ [e]) ∧ e.pair = (k, [v]) ∧
      s'.iNumConflicts ≤ s.iNumConflicts + 1 ∧
      ((s.iFieldKeys (getChecksum charSigned k)).empty = true →
        s'.iNumConflicts = s.iNumConflicts) := by
  obtain ⟨i, n, hplace, hi, hn, hn', hnext, hstay, hat⟩ := h.place_of_new hne hk hroom
  obtain ⟨hkey, hval⟩ := h.free i hi
  have hempty := (h.empty_iff i).2 hi
  unfold addKeyValuePair
  rw [hplace]
  dsimp only
  rw [addKeyToStore, if_pos hempty]
  dsimp only
  rw [if_pos (by rw [hval]; rfl)]
  refine ⟨_, ⟨i, k, v, []⟩, rfl, ?_, rfl, hnext, hstay⟩
  have hslot : ∀ e ∈ es, e.slot ≠ i := fun e he heq => hi (heq ▸ mem_map_of_mem he)
  constructor
  · rw [map_append, ← h.slots]
    rfl
  · rw [map_append, map_singleton]
    exact nodup_append.2 ⟨h.slots_nodup, nodup_singleton _, by
      rintro a ha b hb rfl
      rw [mem_singleton.1 hb] at ha
      exact hi ha⟩
  · rw [map_append, map_singleton]
    exact nodup_append.2 ⟨h.keys_nodup, nodup_singleton _, by
      rintro a ha b hb rfl
      obtain ⟨e, he, heq⟩ := mem_map.1 ha
      exact hk e he (heq.trans (mem_singleton.1 hb))⟩
  · intro e he
    rcases mem_append.1 he with he | he
    · have hslot' := hslot e he
      exact (h.held e he).congr charSigned (update_of_ne hslot' _ _)
        (update_of_ne hslot' _ _) (fun _ _ => rfl) hn
    · rw [mem_singleton] at he
      subst he
      exact ⟨hne, congrArg _ (update_self ..), update_self ..,
        congrArg _ (update_self ..), hat⟩
  · rw [flatMap_append]
    have hnil : [(⟨i, k, v, []⟩ : Entry)].flatMap Entry.links = [] := rfl
    rw [hnil, append_nil]
    exact h.links_nodup
  · intro j hj
    rw [map_append, mem_append, not_or] at hj
    have hji : j ≠ i := fun heq => hj.2 (by simp [heq])
    exact ⟨(update_of_ne hji _ _).trans (h.free j hj.1).1,
      (update_of_ne hji _ _).trans (h.free j hj.1).2⟩
  · exact hn'
  · exact h.bufsize
  · rw [map_append, pairs_append, ofNat_add, ← h.pairs]
    rfl
  · have hone : octets ([(⟨i, k, v, []⟩ : Entry)].map Entry.pair) = k.length + v.length := by
      simp [octets, Entry.pair]
    rw [map_append, octets_append, hone, ofNat_add, ofNat_add, ← h.lengths,
      ← UInt32.add_assoc]

/-- A key that is there and not found empty at the place of its checksum is found to be added to. -/
theorem Holds.place_of_mem (h : Holds charSigned s es) (he : e ∈ es)
    (hk : lowered e.key = lowered k)
    (hempty : (s.iFieldKeys (getChecksum charSigned k)).empty = false) :
    getHashTableIndex charSigned s k false = (some e.slot, s) := by
  have hfind := h.find_of_mem he hk
  have hne : ¬ (s.iFieldKeys (getChecksum charSigned k)).empty = true := by
    rw [hempty]
    decide
  unfold getHashTableIndex at hfind ⊢
  dsimp only at hfind ⊢
  rw [if_neg hne] at hfind ⊢
  split
  · rename_i hsame
    rwa [if_pos hsame] at hfind
  · rename_i hsame
    rw [if_neg hsame, if_pos rfl] at hfind
    rw [if_neg (by decide), (Prod.mk.inj hfind).1]

variable {l r : List Entry}

theorem mem_around {x : Entry} (hx : x ∈ l ++ r) : x ∈ l ++ e :: r :=
  ((Sublist.refl l).append (sublist_cons_self e r)).subset hx

theorem Holds.slot_ne (h : Holds charSigned s (l ++ e :: r)) :
    ∀ x ∈ l ++ r, x.slot ≠ e.slot := by
  have hnodup := h.slots_nodup
  rw [map_append, map_cons, nodup_append, nodup_cons] at hnodup
  obtain ⟨-, ⟨hr, -⟩, hl⟩ := hnodup
  intro x hx heq
  rcases mem_append.1 hx with hx | hx
  · exact hl _ (mem_map_of_mem hx) _ mem_cons_self heq
  · exact hr (heq ▸ mem_map_of_mem hx)

/-- Another value for a key that is held: the key stays as it is written. -/
theorem Holds.stay (h : Holds charSigned s (l ++ e :: r)) (hfirst : e.first ≠ []) :
    addKeyToStore s k e.slot = s ∧ ¬ (s.iFieldVals e.slot).length = 0 := by
  have he : e ∈ l ++ e :: r := mem_append_right _ mem_cons_self
  constructor
  · rw [addKeyToStore, if_neg]
    rw [h.empty_iff]
    exact fun hi => hi (mem_map_of_mem he)
  · rw [(h.held e he).first]
    exact fun hlen => hfirst (eq_nil_of_length_eq_zero hlen)

/-- An entry changes; the others are as they were. -/
theorem Holds.change {e' : Entry} (h : Holds charSigned s (l ++ e :: r))
    {s' : StringKeyValueStore} (hslot : e'.slot = e.slot) (hkey : e'.key = e.key)
    (hidx : s'.iFieldKeyTableIndexVector = s.iFieldKeyTableIndexVector)
    (hc : s'.iNumConflicts = s.iNumConflicts) (hheld : Held charSigned s' e')
    (hkeys : ∀ j, j ≠ e.slot → s'.iFieldKeys j = s.iFieldKeys j)
    (hvals : ∀ j, j ≠ e.slot → s'.iFieldVals j = s.iFieldVals j)
    (hmem : ∀ x ∈ l ++ r, ∀ q ∈ x.links, s'.memory q = s.memory q)
    (hlinks : ((l ++ e' :: r).flatMap Entry.links).Nodup)
    (hbuf : s'.iStrCSumPtrLenWrapperVector.length ≤ s'.bufsize)
    (hpairs : s'.iTotalNumberOfKeyValuePairs =
      UInt32.ofNat (MultiMap.pairs ((l ++ e' :: r).map Entry.pair)))
    (hoctets : s'.iTotalKeyValueLength =
      UInt32.ofNat (octets ((l ++ e' :: r).map Entry.pair))) :
    Holds charSigned s' (l ++ e' :: r) := by
  have hslots : (l ++ e' :: r).map Entry.slot = (l ++ e :: r).map Entry.slot := by
    simp [hslot]
  have hother := h.slot_ne
  have hkeep : ∀ x ∈ l ++ r, Held charSigned s' x := fun x hx =>
    (h.held x (mem_around hx)).congr charSigned (hkeys _ (hother x hx)) (hvals _ (hother x hx))
      (hmem x hx) hc.ge
  refine ⟨by rw [hidx, h.slots, hslots], hslots ▸ h.slots_nodup, ?_, ?_, hlinks, ?_, hc.trans_le
    h.conflicts, hbuf, hpairs, hoctets⟩
  · have hmap : (l ++ e' :: r).map (fun x => lowered x.key) =
        (l ++ e :: r).map fun x => lowered x.key := by
      simp [hkey]
    rw [hmap]
    exact h.keys_nodup
  · intro x hx
    rcases mem_append.1 hx with hx | hx
    · exact hkeep x (mem_append_left _ hx)
    · rcases mem_cons.1 hx with rfl | hx
      · exact hheld
      · exact hkeep x (mem_append_right _ hx)
  · intro i hi
    rw [hslots] at hi
    have hne : i ≠ e.slot := fun heq => hi (by rw [heq]; simp)
    exact ⟨(hkeys i hne).trans (h.free i hi).1, (hvals i hne).trans (h.free i hi).2⟩

/-- **The one value** of a key is replaced. -/
theorem Holds.add_replace (h : Holds charSigned s (l ++ e :: r))
    (v : Str) (hk : lowered e.key = lowered k)
    (hempty : (s.iFieldKeys (getChecksum charSigned k)).empty = false) (hfirst : e.first ≠ [])
    (hmore : e.more = []) :
    ∃ s' e', addKeyValuePair charSigned s k v true = some (0, s') ∧
      Holds charSigned s' (l ++ e' :: r) ∧ e'.pair = (e.key, [v]) := by
  have he : e ∈ l ++ e :: r := mem_append_right _ mem_cons_self
  have hheld := h.held e he
  obtain ⟨hstay, hval⟩ := h.stay (k := k) hfirst
  unfold addKeyValuePair
  rw [h.place_of_mem he hk hempty]
  dsimp only
  rw [hstay, if_neg hval, if_pos rfl]
  refine ⟨_, ⟨e.slot, e.key, v, []⟩, rfl, ?_, rfl⟩
  have hone : e.pair = (e.key, [e.first]) := by
    rw [Entry.pair, hmore]
    rfl
  refine h.change rfl rfl rfl rfl ?_ (fun _ _ => rfl) (fun j hj => update_of_ne hj _ _)
    (fun _ _ _ _ => rfl) ?_ h.bufsize ?_ ?_
  · refine ⟨hheld.key_ne, hheld.key, update_self .., ?_, hheld.place⟩
    have hlinked := hheld.more
    rw [hmore] at hlinked
    exact hlinked
  · have hlinks := h.links_nodup
    have hnil : e.links = [] := by
      rw [Entry.links, hmore]
      rfl
    rw [flatMap_append, flatMap_cons, hnil] at hlinks
    rw [flatMap_append, flatMap_cons]
    exact hlinks
  · have hsum := h.pairs
    rw [map_append, map_cons, pairs_append, hone] at hsum
    rw [map_append, map_cons, pairs_append]
    dsimp only
    rw [hsum, UInt32.sub_add_cancel]
    rfl
  · have hsum := h.lengths
    have hcons : ∀ (m : MultiMap Str Str) (a b : Str),
        octets ((a, [b]) :: m) = a.length + octets m + b.length := by
      intro m a b
      simp only [octets, map_cons, sum_cons, map_nil, sum_nil,
        length_cons, length_nil]
      omega
    rw [map_append, map_cons, octets_append, hone, hcons, ← Nat.add_assoc] at hsum
    rw [map_append, map_cons, octets_append]
    dsimp only
    rw [hsum, hheld.first, ofNat_add_sub, ← ofNat_add, Entry.pair, map_nil, hcons]
    exact congrArg _ (Nat.add_assoc ..)

theorem octets_cons (k : Str) (vs : List Str) (m : MultiMap Str Str) :
    octets ((k, vs) :: m) = k.length * vs.length + (vs.map length).sum + octets m := by
  simp [octets]

theorem pairs_cons (k : Str) (vs : List Str) (m : MultiMap Str Str) :
    MultiMap.pairs ((k, vs) :: m) = vs.length + MultiMap.pairs m := by
  simp [MultiMap.pairs]

/-- The links of the entries, with one more of one of them. -/
theorem links_nodup_concat {e e' : Entry} {q : Ref}
    (h : ((l ++ e :: r).flatMap Entry.links).Nodup) (he' : e'.links = e.links ++ [q])
    (hq : ∀ x ∈ l ++ e :: r, q ∉ x.links) : ((l ++ e' :: r).flatMap Entry.links).Nodup := by
  have hperm : Perm ((l ++ e' :: r).flatMap Entry.links)
      (q :: (l ++ e :: r).flatMap Entry.links) := by
    rw [flatMap_append, flatMap_cons, flatMap_append, flatMap_cons, he',
      append_assoc, ← append_assoc, singleton_append]
    refine perm_middle.trans (Perm.cons _ ?_)
    rw [append_assoc]
  rw [hperm.nodup_iff, nodup_cons]
  refine ⟨fun hmem => ?_, h⟩
  obtain ⟨x, hx, hqx⟩ := mem_flatMap.1 hmem
  exact hq x hx hqx

/-- **Another value** is added to a key. -/
theorem Holds.add_more (h : Holds charSigned s (l ++ e :: r))
    (v : Str) (hk : lowered e.key = lowered k)
    (hempty : (s.iFieldKeys (getChecksum charSigned k)).empty = false) (hfirst : e.first ≠ [])
    (hroom : s.iStrCSumPtrLenWrapperVector.length < s.bufsize ∨
      ∀ x ∈ l ++ e :: r, x.links = []) :
    ∃ s' e', addKeyValuePair charSigned s k v false = some (0, s') ∧
      Holds charSigned s' (l ++ e' :: r) ∧ e'.pair = (e.key, e.pair.2 ++ [v]) := by
  have he : e ∈ l ++ e :: r := mem_append_right _ mem_cons_self
  have hheld := h.held e he
  obtain ⟨hstay, hval⟩ := h.stay (k := k) hfirst
  obtain ⟨buffer, bufsize, hpush, hsame, hbuf⟩ := pushWrapper_spec s v
  generalize hs1 : ({ s with
    iStrCSumPtrLenWrapperVector := s.iStrCSumPtrLenWrapperVector ++ [⟨v, none⟩]
    buffer := buffer, bufsize := bufsize } : StringKeyValueStore) = s1 at hpush
  -- no link of the store is disturbed, and none leads to the new element
  have hmem1 : ∀ x ∈ l ++ e :: r, ∀ q ∈ x.links, s1.memory q = s.memory q := by
    intro x hx q hq
    rcases hroom with hlt | hnone
    · rw [← hs1, hsame hlt]
      exact memory_push_of_isSome v bufsize ((h.held x hx).more.mem_isSome hq)
    · rw [hnone x hx] at hq
      exact absurd hq not_mem_nil
  have hnew : ∀ x ∈ l ++ e :: r, (⟨buffer, s.iStrCSumPtrLenWrapperVector.length⟩ : Ref) ∉
      x.links := by
    intro x hx hq
    have hlt := (memory_valid ((h.held x hx).more.mem_isSome hq)).2
    exact lt_irrefl _ hlt
  have hself : s1.memory ⟨buffer, s.iStrCSumPtrLenWrapperVector.length⟩ = some ⟨none, v⟩ := by
    rw [← hs1]
    exact memory_push_self v buffer bufsize
  have hlinked : Linked s1.memory (s1.iFieldKeys e.slot).iNext e.more none := by
    rw [← hs1] at hmem1 ⊢
    exact hheld.more.congr fun x hx => hmem1 e he _ (mem_map_of_mem hx)
  obtain ⟨keys, wrappers, hlink, hstr, hkeys, hlen, hchain, hrest⟩ :=
    link_spec hlinked ⟨buffer, s.iStrCSumPtrLenWrapperVector.length⟩
  unfold addKeyValuePair
  rw [h.place_of_mem he hk hempty]
  dsimp only
  rw [hstay, if_neg hval, if_neg (by decide), hpush]
  dsimp only [bind_eq_bind]
  rw [hlink]
  dsimp only [bind_some]
  subst hs1
  have hlinks' := @links_nodup_concat l r e ⟨e.slot, e.key, e.first,
    e.more ++ [(⟨buffer, s.iStrCSumPtrLenWrapperVector.length⟩, v)]⟩ _ h.links_nodup
    (by simp [Entry.links]) hnew
  have hapart : ∀ x ∈ l ++ r, ∀ q ∈ x.links, q ∉ e.links := by
    have hnodup := h.links_nodup
    rw [flatMap_append, flatMap_cons, nodup_append, nodup_append] at hnodup
    obtain ⟨-, ⟨-, -, hr⟩, hl⟩ := hnodup
    intro x hx q hq hqe
    rcases mem_append.1 hx with hx | hx
    · exact hl q (mem_flatMap.2 ⟨x, hx, hq⟩) q (mem_append_left _ hqe) rfl
    · exact hr q hqe q (mem_flatMap.2 ⟨x, hx, hq⟩) rfl
  refine ⟨_, ⟨e.slot, e.key, e.first,
    e.more ++ [(⟨buffer, s.iStrCSumPtrLenWrapperVector.length⟩, v)]⟩, rfl, ?_, ?_⟩
  · refine h.change rfl rfl rfl rfl ?_ hkeys (fun _ _ => rfl) ?_ hlinks' ?_ ?_ ?_
    · refine ⟨hheld.key_ne, hstr.trans hheld.key, hheld.first, ?_, hheld.place⟩
      refine linked_concat.2 ⟨hchain, ?_⟩
      exact (hrest _ (hnew e he)).trans hself
    · intro x hx q hq
      exact (hrest q (hapart x hx q hq)).trans (hmem1 x (mem_around hx) q hq)
    · dsimp only
      rw [hlen, length_append]
      exact hbuf h.bufsize
    · have hsum := h.pairs
      rw [map_append, map_cons, pairs_append, Entry.pair, pairs_cons] at hsum
      rw [map_append, map_cons, pairs_append, Entry.pair, pairs_cons]
      dsimp only
      have hone : (1 : UInt32) = UInt32.ofNat 1 := rfl
      rw [hsum, hone, ← ofNat_add]
      refine congrArg _ ?_
      simp only [map_append, length_cons, length_append, length_map,
        length_nil]
      omega
    · have hsum := h.lengths
      rw [map_append, map_cons, octets_append, Entry.pair, octets_cons] at hsum
      rw [map_append, map_cons, octets_append, Entry.pair, octets_cons]
      dsimp only
      rw [hsum, hstr, hheld.key, ← ofNat_add, ← ofNat_add]
      refine congrArg _ ?_
      simp only [map_append, map_cons, map_nil, length_cons,
        length_append, length_map, length_nil, sum_cons, sum_append,
        sum_nil]
      ring
  · simp [Entry.pair]

theorem eraseKey_of_not_mem {idx : List Nat}
    (h : ∀ i ∈ idx, lowered (s.iFieldKeys i).iStr ≠ lowered k) : eraseKey charSigned s k idx = idx := by
  fun_induction eraseKey charSigned s k idx with
  | case1 => rfl
  | case2 i hsame | case3 i hsame j l ih =>
    exact absurd ((isCIEquivalentTo_iff charSigned _ _).1 hsame) (h i mem_cons_self)
  | case4 i l hother ih => rw [ih fun j hj => h j (mem_cons_of_mem _ hj)]

/-- The place of a key is erased; that of the key behind it, which is passed over, is another's. -/
theorem eraseKey_split {l r : List Nat} {i : Nat}
    (hl : ∀ j ∈ l, lowered (s.iFieldKeys j).iStr ≠ lowered k)
    (hi : lowered (s.iFieldKeys i).iStr = lowered k)
    (hr : ∀ j ∈ r, lowered (s.iFieldKeys j).iStr ≠ lowered k) :
    eraseKey charSigned s k (l ++ i :: r) = l ++ r := by
  induction l with
  | nil =>
    rw [nil_append, eraseKey.eq_def]
    dsimp only
    rw [if_pos ((isCIEquivalentTo_iff charSigned _ _).2 hi)]
    rcases r with _ | ⟨j, r⟩
    · rfl
    · dsimp only
      rw [eraseKey_of_not_mem fun j hj => hr j (mem_cons_of_mem _ hj)]
      rfl
  | cons j l ih =>
    rw [cons_append, eraseKey.eq_def]
    dsimp only
    rw [if_neg fun hsame => hl j mem_cons_self
      ((isCIEquivalentTo_iff charSigned _ _).1 hsame)]
    rw [ih fun j hj => hl j (mem_cons_of_mem _ hj)]
    rfl

theorem Holds.number_of_mem (h : Holds charSigned s es) (he : e ∈ es)
    (hk : lowered e.key = lowered k) :
    getNumberOfValuesByKey charSigned s k = some e.pair.2.length := by
  have hlinked := (h.held e he).more
  unfold getNumberOfValuesByKey
  rw [h.find_of_mem he hk]
  dsimp only
  rw [linkedValues_eq hlinked (linked_length hlinked)]
  simp [Entry.pair, Nat.add_comm]

/-- **A key** is removed with its values. -/
theorem Holds.remove_of_mem (h : Holds charSigned s (l ++ e :: r))
    (hk : lowered e.key = lowered k) :
    ∃ s', removeKeyValuePair charSigned s k = some s' ∧ Holds charSigned s' (l ++ r) := by
  have he : e ∈ l ++ e :: r := mem_append_right _ mem_cons_self
  have hheld := h.held e he
  have hlinked := hheld.more
  have hsublist : Sublist (l ++ r) (l ++ e :: r) :=
    (Sublist.refl l).append (sublist_cons_self e r)
  have hother := h.slot_ne
  have hkeys : ∀ x ∈ l ++ r, lowered (s.iFieldKeys x.slot).iStr ≠ lowered k := by
    intro x hx heq
    rw [(h.held x (mem_around hx)).key, ← hk] at heq
    exact hother x hx (congrArg Entry.slot (h.entry_unique (mem_around hx) he heq))
  have herase : eraseKey charSigned s k s.iFieldKeyTableIndexVector = (l ++ r).map Entry.slot := by
    rw [h.slots, map_append, map_cons, map_append]
    refine eraseKey_split ?_ (by rw [hheld.key, hk]) ?_
    · intro j hj
      obtain ⟨x, hx, rfl⟩ := mem_map.1 hj
      exact hkeys x (mem_append_left _ hx)
    · intro j hj
      obtain ⟨x, hx, rfl⟩ := mem_map.1 hj
      exact hkeys x (mem_append_right _ hx)
  unfold removeKeyValuePair
  rw [h.number_of_mem he hk]
  simp only [bind_eq_bind, bind_some]
  rw [h.find_of_mem he hk]
  dsimp only
  rw [linkedValues_eq hlinked (linked_length hlinked), herase]
  refine ⟨_, rfl, ?_⟩
  refine ⟨rfl, h.slots_nodup.sublist (hsublist.map _), h.keys_nodup.sublist (hsublist.map _), ?_,
    ?_, ?_, h.conflicts, h.bufsize, ?_, ?_⟩
  · intro x hx
    exact (h.held x (mem_around hx)).congr charSigned (update_of_ne (hother x hx) _ _)
      (update_of_ne (hother x hx) _ _) (fun _ _ => rfl) le_rfl
  · refine h.links_nodup.sublist ?_
    rw [flatMap_append, flatMap_append, flatMap_cons]
    exact (Sublist.refl _).append (sublist_append_right _ _)
  · intro i hi
    by_cases hie : i = e.slot
    · rw [hie]
      exact ⟨update_self .., update_self ..⟩
    · have hfree := h.free i fun hmem => by
        obtain ⟨x, hx, rfl⟩ := mem_map.1 hmem
        rcases mem_append.1 hx with hx | hx
        · exact hi (mem_map_of_mem (mem_append_left _ hx))
        · rcases mem_cons.1 hx with rfl | hx
          · exact hie rfl
          · exact hi (mem_map_of_mem (mem_append_right _ hx))
      exact ⟨(update_of_ne hie _ _).trans hfree.1,
        (update_of_ne hie _ _).trans hfree.2⟩
  · have hsum := h.pairs
    rw [map_append, map_cons, pairs_append, Entry.pair, pairs_cons,
      Nat.add_left_comm, Nat.add_comm] at hsum
    dsimp only
    rw [map_append, pairs_append, hsum, Entry.pair, ofNat_add_sub]
  · have hsum := h.lengths
    rw [map_append, map_cons, octets_append, Entry.pair, octets_cons,
      Nat.add_left_comm, Nat.add_comm] at hsum
    dsimp only
    rw [map_append, octets_append, hsum, hheld.key, hheld.first]
    have hrel : e.key.length * e.pair.2.length + e.first.length +
        ((e.more.map Prod.snd).map length).sum = e.key.length *
          (e.first :: e.more.map Prod.snd).length +
            ((e.first :: e.more.map Prod.snd).map length).sum := by
      rw [Entry.pair, map_cons, sum_cons, Nat.add_assoc]
    rw [hrel, ofNat_add_sub]

section

variable (h : Holds charSigned s es)
include h

theorem Holds.number_of_not_mem
    (hk : ∀ e ∈ es, lowered e.key ≠ lowered k) (hask : Askable charSigned s k) :
    getNumberOfValuesByKey charSigned s k = some 0 := by
  unfold getNumberOfValuesByKey
  rw [h.find_of_not_mem hk hask]

theorem Holds.remove_of_not_mem
    (hk : ∀ e ∈ es, lowered e.key ≠ lowered k) (hask : Askable charSigned s k) :
    removeKeyValuePair charSigned s k = some s := by
  unfold removeKeyValuePair
  rw [h.number_of_not_mem hk hask, h.find_of_not_mem hk hask]
  rfl

/-- The entry of a key, and those before and behind it, which have other keys. -/
theorem Holds.split (he : e ∈ es)
    (hk : lowered e.key = lowered k) :
    ∃ l r, es = l ++ e :: r ∧ ∀ p ∈ l.map Entry.pair, lowered p.1 ≠ lowered k := by
  obtain ⟨l, r, rfl⟩ := append_of_mem he
  refine ⟨l, r, rfl, fun p hp heq => ?_⟩
  obtain ⟨x, hx, rfl⟩ := mem_map.1 hp
  have hnodup := h.keys_nodup
  rw [map_append, map_cons, nodup_append] at hnodup
  exact hnodup.2.2 _ (mem_map_of_mem hx) _ mem_cons_self (heq.trans hk.symm)

/-- **A step** of the store is one of the map. -/
theorem Holds.step {op : Op} (hf : Fine charSigned s op) :
    ∃ s' es', step charSigned s op = some s' ∧ Holds charSigned s' es' ∧
      es'.map Entry.pair = op.on (es.map Entry.pair) := by
  cases op with
  | add k v replace =>
    obtain ⟨hne, hf⟩ := hf
    by_cases hmem : ∃ e ∈ es, lowered e.key = lowered k
    · obtain ⟨e, he, hk⟩ := hmem
      rw [h.find_of_mem he hk] at hf
      dsimp only at hf
      obtain ⟨hempty, hval, hroom⟩ := hf
      rw [(h.held e he).first] at hval
      obtain ⟨l, r, rfl, hl⟩ := h.split he hk
      have hadd := MultiMap.add_split (m := r.map Entry.pair) (e := e.pair) hl hk v replace
      rw [Op.on, map_append, map_cons, hadd]
      rcases replace with _ | _
      · rw [if_neg (by decide)] at hroom
        have hroom' : s.iStrCSumPtrLenWrapperVector.length < s.bufsize ∨
            ∀ x ∈ l ++ e :: r, x.links = [] := by
          refine hroom.imp_right fun hnone x hx => ?_
          have hlinked := (h.held x hx).more
          rw [hnone] at hlinked
          rw [Entry.links, hlinked.eq_none_iff.1 rfl]
          rfl
        obtain ⟨s', e', hrun, hholds, hpair⟩ := h.add_more v hk hempty hval hroom'
        refine ⟨s', _, by rw [step, hrun]; rfl, hholds, ?_⟩
        rw [map_append, map_cons, hpair]
        rfl
      · rw [if_pos rfl] at hroom
        have hmore := (h.held e he).more
        rw [hroom] at hmore
        obtain ⟨s', e', hrun, hholds, hpair⟩ :=
          h.add_replace v hk hempty hval (hmore.eq_none_iff.1 rfl)
        refine ⟨s', _, by rw [step, hrun]; rfl, hholds, ?_⟩
        rw [map_append, map_cons, hpair]
        rfl
    · have hk : ∀ e ∈ es, lowered e.key ≠ lowered k := fun e he heq => hmem ⟨e, he, heq⟩
      rw [h.find_of_not_mem hk fun hnil => absurd hnil hne] at hf
      obtain ⟨s', e, hrun, hholds, hpair, -⟩ := h.add_new (v := v) replace hne hk hf
      refine ⟨s', _, by rw [StringKeyValueStore.step, hrun]; rfl, hholds, ?_⟩
      rw [Op.on, MultiMap.add_of_not_mem, map_append, map_singleton, hpair]
      intro p hp
      obtain ⟨x, hx, rfl⟩ := mem_map.1 hp
      exact hk x hx
  | remove k =>
    by_cases hmem : ∃ e ∈ es, lowered e.key = lowered k
    · obtain ⟨e, he, hk⟩ := hmem
      obtain ⟨l, r, rfl, hl⟩ := h.split he hk
      obtain ⟨s', hrun, hholds⟩ := h.remove_of_mem hk
      have hremove := MultiMap.remove_split (m := r.map Entry.pair) (e := e.pair) hl hk
      refine ⟨s', _, hrun, hholds, ?_⟩
      rw [Op.on, map_append, map_append, map_cons, hremove]
    · have hk : ∀ e ∈ es, lowered e.key ≠ lowered k := fun e he heq => hmem ⟨e, he, heq⟩
      refine ⟨s, es, h.remove_of_not_mem hk hf, h, ?_⟩
      rw [Op.on, MultiMap.remove_of_not_mem]
      intro p hp
      obtain ⟨x, hx, rfl⟩ := mem_map.1 hp
      exact hk x hx

end

end Steps

/-! ## 2. What the store answers -/

/-- **The store answers as the map does**: for every key that can be asked for, the number of its
    values and each of them; the keys, each once; and the totals. -/
structure Answers (s : StringKeyValueStore) (m : MultiMap Str Str) : Prop where
  number : ∀ k, Askable charSigned s k →
    getNumberOfValuesByKey charSigned s k = some (m.values lowered k).length
  value : ∀ k i, Askable charSigned s k →
    getValueByKey charSigned s k i = some (m.values lowered k)[i]?
  keys : s.getCurrentKeyList = m.map Prod.fst
  keys_once : (m.map fun p => lowered p.1).Nodup
  pairs : s.iTotalNumberOfKeyValuePairs = UInt32.ofNat m.pairs
  octets : s.iTotalKeyValueLength = UInt32.ofNat (octets m)

section Answers

variable {charSigned} {s : StringKeyValueStore} {es : List Entry}

theorem Holds.value_of_mem (h : Holds charSigned s es) (he : e ∈ es)
    (hk : lowered e.key = lowered k) (i : Nat) :
    getValueByKey charSigned s k i = some e.pair.2[i]? := by
  have hheld := h.held e he
  unfold getValueByKey
  rw [h.find_of_mem he hk]
  dsimp only
  rcases i with _ | i
  · rw [if_pos rfl, hheld.first]
    rfl
  · rw [if_neg (Nat.succ_ne_zero i), Nat.add_sub_cancel, follow_eq hheld.more, head?_drop]
    simp only [bind_eq_bind, bind_some, Entry.pair, getElem?_cons_succ,
      getElem?_map]
    rcases hx : e.more[i]? with _ | ⟨r, d⟩
    · rfl
    · have hmem := mem_of_getElem? hx
      obtain ⟨l, l', hsplit⟩ := append_of_mem hmem
      have hlinked := hheld.more
      rw [hsplit] at hlinked
      obtain ⟨-, n, hn, -⟩ := linked_middle.1 hlinked
      simp only [map_some]
      rw [deref_of_memory hn]
      rfl

theorem Holds.answers (h : Holds charSigned s es) : Answers charSigned s (es.map Entry.pair) where
  number k hask := by
    by_cases hmem : ∃ e ∈ es, lowered e.key = lowered k
    · obtain ⟨e, he, hk⟩ := hmem
      obtain ⟨l, r, hsplit, hl⟩ := h.split he hk
      rw [h.number_of_mem he hk, hsplit, map_append, map_cons,
        MultiMap.values_split hl hk]
    · have hk : ∀ e ∈ es, lowered e.key ≠ lowered k := fun e he heq => hmem ⟨e, he, heq⟩
      rw [h.number_of_not_mem hk hask, MultiMap.values_of_not_mem]
      · rfl
      · intro p hp
        obtain ⟨x, hx, rfl⟩ := mem_map.1 hp
        exact hk x hx
  value k i hask := by
    by_cases hmem : ∃ e ∈ es, lowered e.key = lowered k
    · obtain ⟨e, he, hk⟩ := hmem
      obtain ⟨l, r, hsplit, hl⟩ := h.split he hk
      rw [h.value_of_mem he hk, hsplit, map_append, map_cons,
        MultiMap.values_split hl hk]
    · have hk : ∀ e ∈ es, lowered e.key ≠ lowered k := fun e he heq => hmem ⟨e, he, heq⟩
      unfold getValueByKey
      rw [h.find_of_not_mem hk hask, MultiMap.values_of_not_mem]
      · rfl
      · intro p hp
        obtain ⟨x, hx, rfl⟩ := mem_map.1 hp
        exact hk x hx
  keys := by
    rw [getCurrentKeyList, h.slots, List.map_map, List.map_map]
    refine map_congr_left fun e he => ?_
    exact (h.held e he).key
  keys_once := by
    rw [List.map_map]
    exact h.keys_nodup
  pairs := h.pairs
  octets := h.lengths

end Answers

/-! ## 3. Copies -/

/-- The keys that find the place of their checksum taken, by one that is seen or comes before. -/
def collisions (seen : List Nat) : List Str → Nat
  | [] => 0
  | k :: ks => (if getChecksum charSigned k ∈ seen then 1 else 0) +
      collisions (getChecksum charSigned k :: seen) ks

section Copy

variable {charSigned} {s t : StringKeyValueStore} {es ts : List Entry}

/-- With one value each, the keys are copied one by one. -/
theorem Holds.copyKeys (h : Holds charSigned s es) (hone : ∀ e ∈ es, e.more = [])
    {l r : List Entry} (hes : es = l ++ r) (ht : Holds charSigned t ts)
    (hts : ts.map Entry.pair = l.map Entry.pair) {seen : List Nat}
    (hseen : ∀ e ∈ l, getChecksum charSigned e.key ∈ seen)
    (hroom : t.iNumConflicts + collisions charSigned seen (r.map Entry.key) ≤ 499) :
    ∃ t' ts', copyKeys charSigned s s.getCurrentKeyList l.length r.length t = some (true, t') ∧
      Holds charSigned t' ts' ∧ ts'.map Entry.pair = es.map Entry.pair := by
  induction r generalizing l t ts seen with
  | nil =>
    rw [append_nil] at hes
    exact ⟨t, ts, rfl, ht, by rw [hts, hes]⟩
  | cons e r ih =>
    have he : e ∈ es := by
      rw [hes]
      exact mem_append_right _ mem_cons_self
    have hpair : e.pair.2 = [e.first] := by
      rw [Entry.pair, hone e he]
      rfl
    have hkeys : ∀ x ∈ ts, ∃ y ∈ l, y.key = x.key := by
      intro x hx
      have hmem := mem_map_of_mem (f := Entry.pair) hx
      rw [hts] at hmem
      obtain ⟨y, hy, heq⟩ := mem_map.1 hmem
      exact ⟨y, hy, congrArg Prod.fst heq⟩
    -- the key is new to the target
    have hnew : ∀ x ∈ ts, lowered x.key ≠ lowered e.key := by
      intro x hx heq
      obtain ⟨y, hy, hkey⟩ := hkeys x hx
      have hnodup := h.keys_nodup
      rw [hes, map_append, map_cons, nodup_append] at hnodup
      exact hnodup.2.2 _ (mem_map_of_mem hy) _ mem_cons_self (by rw [hkey, heq])
    rw [map_cons, collisions] at hroom
    -- it finds its place taken only by a key with a checksum that is seen
    have hempty : getChecksum charSigned e.key ∉ seen →
        (t.iFieldKeys (getChecksum charSigned e.key)).empty = true := by
      intro hns
      rw [ht.empty_iff]
      intro hmem
      obtain ⟨x, hx, hslot⟩ := mem_map.1 hmem
      obtain ⟨y, hy, hkey⟩ := hkeys x hx
      have hlt := getChecksum_lt charSigned e.key
      rcases (ht.held x hx).place with hp | hp
      · rw [hslot, ← hkey] at hp
        exact hns (hp ▸ hseen y hy)
      · omega
    have hfits : (t.iFieldKeys (getChecksum charSigned e.key)).empty = true ∨
        t.iNumConflicts < 499 := by
      by_cases hmem : getChecksum charSigned e.key ∈ seen
      · rw [if_pos hmem] at hroom
        exact Or.inr (by omega)
      · exact Or.inl (hempty hmem)
    obtain ⟨t', x, hadd, hholds, hx, hnext, hstay⟩ :=
      ht.add_new (v := e.first) false (h.held e he).key_ne hnew hfits
    have hroom' : t'.iNumConflicts + collisions charSigned
        (getChecksum charSigned e.key :: seen) (r.map Entry.key) ≤ 499 := by
      by_cases hmem : getChecksum charSigned e.key ∈ seen
      · rw [if_pos hmem] at hroom
        omega
      · rw [if_neg hmem] at hroom
        rw [hstay (hempty hmem)]
        omega
    have hseen' : ∀ y ∈ l ++ [e], getChecksum charSigned y.key ∈
        getChecksum charSigned e.key :: seen := by
      intro y hy
      rcases mem_append.1 hy with hy | hy
      · exact mem_cons_of_mem _ (hseen y hy)
      · rw [mem_singleton.1 hy]
        exact mem_cons_self
    have hts' : (ts ++ [x]).map Entry.pair = (l ++ [e]).map Entry.pair := by
      rw [map_append, map_append, hts, map_singleton, map_singleton, hx,
        ← hpair]
      rfl
    obtain ⟨t'', ts'', hrun, hend⟩ := ih (l := l ++ [e]) (by rw [hes, append_assoc]; rfl)
      hholds hts' hseen' hroom'
    refine ⟨t'', ts'', ?_, hend⟩
    have hkey : s.getCurrentKeyList[l.length]? = some e.key := by
      have hlist := h.answers.keys
      rw [hlist, hes]
      simp [Entry.pair]
    have hnumber := h.number_of_mem he (k := e.key) rfl
    have hvalue := h.value_of_mem he (k := e.key) rfl 0
    rw [hpair] at hnumber hvalue
    rw [length_append] at hrun
    rw [length_cons, copyKeys, hkey]
    simp only [bind_eq_bind, bind_some]
    rw [hnumber]
    simp only [bind_some, length_singleton]
    rw [copyValues, hvalue]
    simp only [bind_eq_bind, bind_some, getElem?_cons_zero]
    rw [hadd]
    simp only [bind_some, copyValues]
    exact hrun

/-- A store has less than a thousand keys. -/
theorem Holds.length_lt (h : Holds charSigned s es) : es.length < 1000 := by
  have hsub : es.map Entry.slot ⊆ range 999 := by
    intro i hi
    obtain ⟨e, he, rfl⟩ := mem_map.1 hi
    have hc := h.conflicts
    rcases (h.held e he).place with hp | hp
    · have hlt := getChecksum_lt charSigned e.key
      exact mem_range.2 (by omega)
    · exact mem_range.2 (by omega)
  have hle := (subperm_of_subset h.slots_nodup hsub).length_le
  rw [length_map, length_range] at hle
  omega

/-- **A copy** into an empty store with room for the keys whose places are taken. -/
theorem Holds.copy (h : Holds charSigned s es) (hone : ∀ e ∈ es, e.more = [])
    (ht : Holds charSigned t [])
    (hroom : t.iNumConflicts + collisions charSigned [] s.getCurrentKeyList ≤ 499) :
    ∃ t' ts', copy charSigned t s = some (true, t') ∧ Holds charSigned t' ts' ∧
      ts'.map Entry.pair = es.map Entry.pair := by
  have hpairs : s.iTotalNumberOfKeyValuePairs.toNat = es.length := by
    have hsum : ∀ l : List Entry, (∀ e ∈ l, e.more = []) →
        MultiMap.pairs (l.map Entry.pair) = l.length := by
      intro l hl
      induction l with
      | nil => rfl
      | cons e l ih =>
        rw [map_cons, Entry.pair, pairs_cons, hl e mem_cons_self,
          ih fun x hx => hl x (mem_cons_of_mem _ hx), length_cons]
        simp [Nat.add_comm]
    have hlt := h.length_lt
    rw [h.pairs, hsum es hone, UInt32.toNat_ofNat']
    omega
  have hkeys : s.getCurrentKeyList = es.map Entry.key := by
    rw [h.answers.keys, List.map_map]
    rfl
  unfold StringKeyValueStore.copy
  dsimp only
  rw [hpairs, h.slots, length_map]
  rw [hkeys] at hroom
  split
  · rename_i hnil
    have hes := eq_nil_of_length_eq_zero (hnil.elim id id)
    subst hes
    exact ⟨t, [], rfl, ht, rfl⟩
  · exact h.copyKeys hone (l := []) rfl ht rfl (fun e he => absurd he not_mem_nil) hroom

/-- The keys that find their place taken, and the checksums, are as many as the keys. -/
theorem collisions_add_card (seen : List Nat) (ks : List Str) :
    collisions charSigned seen ks +
      ((ks.map (getChecksum charSigned)).toFinset \ seen.toFinset).card = ks.length := by
  induction ks generalizing seen with
  | nil => simp [collisions]
  | cons k ks ih =>
    have hks := ih (getChecksum charSigned k :: seen)
    rw [collisions, map_cons, toFinset_cons, length_cons, ← hks]
    rw [toFinset_cons]
    by_cases hmem : getChecksum charSigned k ∈ seen
    · rw [if_pos hmem, Finset.insert_sdiff_of_mem _ (List.mem_toFinset.2 hmem),
        Finset.insert_eq_of_mem (List.mem_toFinset.2 hmem)]
      omega
    · have hset : insert (getChecksum charSigned k) (ks.map (getChecksum charSigned)).toFinset \
          seen.toFinset = insert (getChecksum charSigned k)
            ((ks.map (getChecksum charSigned)).toFinset \
              insert (getChecksum charSigned k) seen.toFinset) := by
        ext i
        simp only [Finset.mem_sdiff, Finset.mem_insert, List.mem_toFinset]
        constructor
        · rintro ⟨hi | hi, hns⟩
          · exact Or.inl hi
          · by_cases heq : i = getChecksum charSigned k
            · exact Or.inl heq
            · exact Or.inr ⟨hi, fun h => h.elim heq hns⟩
        · rintro (rfl | ⟨hi, hns⟩)
          · exact ⟨Or.inl rfl, hmem⟩
          · exact ⟨Or.inr hi, fun h => hns (Or.inr h)⟩
      rw [if_neg hmem, hset, Finset.card_insert_of_notMem]
      · omega
      · simp

/-- **A new store has room** for the keys of any other: those of them with their places taken are no
    more than its places for them. -/
theorem Holds.collisions_le (h : Holds charSigned s es) :
    collisions charSigned [] s.getCurrentKeyList ≤ 499 := by
  have hkeys : s.getCurrentKeyList = es.map Entry.key := by
    rw [h.answers.keys, List.map_map]
    rfl
  have hcount := @collisions_add_card charSigned [] (es.map Entry.key)
  rw [toFinset_nil, Finset.sdiff_empty, length_map, List.map_map] at hcount
  -- the keys at their checksums have different ones, the others lie behind them
  have hhash : ((es.map Entry.slot).filter (· < 500)).length ≤
      ((es.map (getChecksum charSigned ∘ Entry.key)).toFinset).card := by
    have hnodup := h.slots_nodup.filter (· < 500)
    rw [← toFinset_card_of_nodup hnodup]
    refine Finset.card_le_card fun i hi => ?_
    rw [List.mem_toFinset, mem_filter] at hi
    obtain ⟨hi, hlt⟩ := hi
    obtain ⟨e, he, rfl⟩ := mem_map.1 hi
    rcases (h.held e he).place with hp | hp
    · exact mem_toFinset.2 (mem_map.2 ⟨e, he, hp.symm⟩)
    · simp at hlt
      omega
  have hlinear : ((es.map Entry.slot).filter fun i => !decide (i < 500)).length ≤ 499 := by
    have hnodup := h.slots_nodup.filter fun i => !decide (i < 500)
    have hsub : ((es.map Entry.slot).filter fun i => !decide (i < 500)) ⊆
        range' 500 499 := by
      intro i hi
      rw [mem_filter] at hi
      obtain ⟨hi, hge⟩ := hi
      obtain ⟨e, he, rfl⟩ := mem_map.1 hi
      have hc := h.conflicts
      have hlt := getChecksum_lt charSigned e.key
      rw [mem_range'_1]
      simp only [Bool.not_eq_true', decide_eq_false_iff_not] at hge
      rcases (h.held e he).place with hp | hp <;> omega
    have hle := (subperm_of_subset hnodup hsub).length_le
    rwa [length_range'] at hle
  have hsum := length_eq_length_filter_add (l := es.map Entry.slot) (· < 500)
  rw [length_map] at hsum
  rw [hkeys]
  omega

end Copy

/-! ## 4. Runs -/

/-- A run each of whose steps is taken in a state that is fine for it. -/
def FineRun : StringKeyValueStore → List Op → Prop
  | _, [] => True
  | s, op :: ops => Fine charSigned s op ∧ ∀ s', step charSigned s op = some s' → FineRun s' ops

/-- What the steps of a run make of a map. -/
def mapOf (ops : List Op) : MultiMap Str Str := ops.foldl Op.on []

section Runs

variable {charSigned}

theorem Holds.run {s : StringKeyValueStore} {es : List Entry} (h : Holds charSigned s es)
    {ops : List Op} (hf : FineRun charSigned s ops) :
    ∃ s' es', execAll (StringKeyValueStore.step charSigned) s ops = some s' ∧ Holds charSigned s' es' ∧
      es'.map Entry.pair = ops.foldl Op.on (es.map Entry.pair) := by
  induction ops generalizing s es with
  | nil => exact ⟨s, es, rfl, h, rfl⟩
  | cons op ops ih =>
    obtain ⟨s₁, es₁, hstep, h₁, hmap⟩ := h.step hf.1
    obtain ⟨s', es', hrun, h', hmap'⟩ := ih h₁ (hf.2 s₁ hstep)
    refine ⟨s', es', ?_, h', ?_⟩
    · rw [execAll, hstep, bind_some, hrun]
    · rw [hmap', hmap, foldl_cons]

/-- **The store is the map** in every run whose steps are taken in states that are fine for them;
    and while each of its keys has one value, its copies are, too: into a new store, and into each
    store that another such run has left empty and with room for the keys whose places are taken. -/
theorem runs_answer (ops : List Op) (hf : FineRun charSigned create ops) :
    ∃ s, execAll (step charSigned) create ops = some s ∧ Answers charSigned s (mapOf ops) ∧
      ((∀ j, (s.iFieldKeys j).iNext = none) →
        (∃ t', copy charSigned create s = some (true, t') ∧ Answers charSigned t' (mapOf ops)) ∧
        ∀ (before : List Op) (t : StringKeyValueStore), FineRun charSigned create before →
          execAll (step charSigned) create before = some t → mapOf before = [] →
          t.iNumConflicts + collisions charSigned [] s.getCurrentKeyList ≤ 499 →
          ∃ t', copy charSigned t s = some (true, t') ∧ Answers charSigned t' (mapOf ops)) := by
  obtain ⟨s, es, hrun, h, hmap⟩ := (create_holds charSigned).run hf
  refine ⟨s, hrun, ?_, fun hone => ?_⟩
  · rw [mapOf, ← map_nil (f := Entry.pair), ← hmap]
    exact h.answers
  have hmore : ∀ e ∈ es, e.more = [] := by
    intro e he
    have hlinked := (h.held e he).more
    rw [hone] at hlinked
    exact hlinked.eq_none_iff.1 rfl
  have hcopy : ∀ t, Holds charSigned t [] →
      t.iNumConflicts + collisions charSigned [] s.getCurrentKeyList ≤ 499 →
      ∃ t', copy charSigned t s = some (true, t') ∧ Answers charSigned t' (mapOf ops) := by
    intro t ht hroom
    obtain ⟨t', ts', hrun', h', hmap'⟩ := h.copy hmore ht hroom
    refine ⟨t', hrun', ?_⟩
    rw [mapOf, ← map_nil (f := Entry.pair), ← hmap, ← hmap']
    exact h'.answers
  refine ⟨hcopy create (create_holds charSigned) ?_, fun before t hf' hrun' hnil hroom => ?_⟩
  · rw [show create.iNumConflicts = 0 from rfl, Nat.zero_add]
    exact h.collisions_le
  · obtain ⟨t₁, ts, hrun₁, ht, hmap₁⟩ := (create_holds charSigned).run hf'
    rw [hrun'] at hrun₁
    cases hrun₁
    have hts : ts = [] := map_eq_nil_iff.1 (hmap₁.trans hnil)
    rw [hts] at ht
    exact hcopy t ht hroom

/-- Two values of the key `k`, one of them given for `K`. -/
theorem sample_runs_answer : ∃ s, execAll (step true) create
    [.add [107] [118] false, .add [75] [119] false] = some s ∧ Answers true s
      (mapOf [.add [107] [118] false, .add [75] [119] false]) := by
  obtain ⟨s, hrun, hans, -⟩ := @runs_answer true
    [.add [107] [118] false, .add [75] [119] false] (by
      refine ⟨⟨by decide, Or.inl (by decide +kernel)⟩, fun s' h => ⟨⟨by decide, ?_⟩,
        fun _ _ => trivial⟩⟩
      cases h
      exact ⟨by decide +kernel, by decide +kernel, Or.inl (by decide +kernel)⟩)
  exact ⟨s, hrun, hans⟩

/-- An empty value is not counted when another is added, and the values linked before the eleventh
    are lost when the vector is allocated anew. -/
theorem values_lost :
    (execAll (step true) create [.add [107] [] false, .add [107] [118] false]).bind
      (getNumberOfValuesByKey true · [107]) = some 1 ∧
    ((mapOf [.add [107] [] false, .add [107] [118] false]).values lowered [107]).length = 2 ∧
    (execAll (step true) create (List.replicate 11 (.add [107] [118] false))).bind
      (getNumberOfValuesByKey true · [107]) = some 11 ∧
    execAll (step true) create (List.replicate 12 (.add [107] [118] false)) = none := by
  decide +kernel

end Runs

end StringKeyValueStore

end OpenCore.HttpParcom
