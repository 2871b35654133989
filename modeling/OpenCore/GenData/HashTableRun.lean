/-
  File:      OpenCore/GenData/HashTableRun.lean
  Subject:   `HashTable` is a finite map, over every run of calls.

  Three facts are kept together: each bucket is its row of elements (chain, ends and count), each
  row is strictly ascending, and each element lies in the row its hash leads to. The early stop of
  the searches needs the second, and that one row is all there is to search needs the third.

  **Main result**: `hash_table_run`.
-/
import OpenCore.GenData.HashTable

namespace OpenCore.GenData

open OsclBase List Option
open Function (update_of_ne update_self)
open HashListElement (eq fullkey)
open Finmap (lookup_eq_none lookup_erase lookup_isSome)

variable {K D : Type} [LinearOrder K]

/-! ## 1. Rows -/

/-- The keys of a row ascend. -/
def Ascends (xs : List (HashListElement K D)) : Prop :=
  xs.Pairwise fun x y => x.fullkey < y.fullkey

section Rows

variable {xs l r : List (HashListElement K D)} {x : HashListElement K D} {k : K}

theorem Ascends.cut (h : Ascends xs) (k : K) :
    ∃ l r, xs = l ++ r ∧ (∀ y ∈ l, y.fullkey < k) ∧ ∀ y ∈ r, k ≤ y.fullkey := by
  induction xs with
  | nil => exact ⟨[], [], rfl, forall_mem_nil _, forall_mem_nil _⟩
  | cons z xs ih =>
    obtain ⟨hz, hxs⟩ := pairwise_cons.mp h
    rcases lt_or_ge z.fullkey k with hlt | hge
    · obtain ⟨l, r, rfl, hl, hr⟩ := ih hxs
      exact ⟨z :: l, r, rfl, forall_mem_cons.mpr ⟨hlt, hl⟩, hr⟩
    · refine ⟨[], z :: xs, rfl, forall_mem_nil _, forall_mem_cons.mpr ⟨hge, ?_⟩⟩
      exact fun y hy => hge.trans (hz y hy).le

theorem Ascends.insert (h : Ascends (l ++ r)) (hl : ∀ y ∈ l, y.fullkey < x.fullkey)
    (hr : ∀ y ∈ r, x.fullkey < y.fullkey) : Ascends (l ++ x :: r) := by
  obtain ⟨h1, h2, h3⟩ := pairwise_append.mp h
  refine pairwise_append.mpr ⟨h1, pairwise_cons.mpr ⟨hr, h2⟩, fun a ha b hb => ?_⟩
  rcases mem_cons.mp hb with rfl | hb
  · exact hl a ha
  · exact h3 a ha b hb

theorem Ascends.before (h : Ascends (l ++ x :: r)) : ∀ y ∈ l, y.fullkey < x.fullkey :=
  fun y hy => (pairwise_append.mp h).2.2 y hy x mem_cons_self

theorem Ascends.erase (h : Ascends (l ++ x :: r)) : Ascends (l ++ r) :=
  h.sublist ((sublist_cons_self x r).append_left l)

/-- An element of an ascending row is determined by its key. -/
theorem Ascends.eq_of_key (h : Ascends (l ++ x :: r)) {y : HashListElement K D}
    (hy : y ∈ l ++ x :: r) (e : y.fullkey = x.fullkey) : y = x := by
  rcases mem_append.mp hy with hy | hy
  · exact absurd e (h.before y hy).ne
  rcases mem_cons.mp hy with rfl | hy
  · rfl
  · have hlt := (pairwise_cons.mp (pairwise_append.mp h).2.1).1 y hy
    exact absurd e.symm hlt.ne

/-- What the search with the early stop finds. -/
def scan (k : K) : List (HashListElement K D) → Option (HashListElement K D)
  | [] => none
  | x :: xs => if x.fullkey = k then some x else if k < x.fullkey then none else scan k xs

/-- **The early stop** misses nothing in an ascending row. -/
theorem scan_eq_find (h : Ascends xs) (k : K) :
    scan k xs = xs.find? fun x => decide (x.fullkey = k) := by
  induction xs with
  | nil => rfl
  | cons x xs ih =>
    obtain ⟨hx, hxs⟩ := pairwise_cons.mp h
    rw [scan, find?_cons]
    by_cases he : x.fullkey = k
    · simp only [he, if_pos, decide_true]
    rw [if_neg he, decide_eq_false he]
    split
    · rename_i hlt
      refine (find?_eq_none.mpr fun y hy => ?_).symm
      rw [decide_eq_true_eq]
      exact (hlt.trans (hx y hy)).ne'
    · exact ih hxs

end Rows

/-! ## 2. The searches in a bucket -/

variable {i : Nat} {rest : List (HashListElement K D)}

section Searches

variable {b : SortedList (HashListElement K D)} {xs : List (HashListElement K D)}

omit [LinearOrder K] in
theorem Holds.getElement_drop (h : Holds b xs) {x : HashListElement K D}
    (hd : xs.drop i = x :: rest) :
    OsclBase.getElement b i = some (some x) ∧ xs.drop (i + 1) = rest := by
  have hi : i < xs.length := by
    by_contra hge
    rw [drop_eq_nil_of_le (Nat.not_lt.mp hge)] at hd
    cases hd
  rw [drop_eq_getElem_cons hi] at hd
  obtain ⟨hx, hrest⟩ := cons.inj hd
  exact ⟨by rw [h.getElement hi, hx], hrest⟩

theorem keyLoop_drop (h : Holds b xs) (k : K)
    (hd : xs.drop i = rest) (tmp : Option (HashListElement K D)) :
    keyLoop b k rest.length i tmp = some (scan k rest) := by
  induction rest generalizing i tmp with
  | nil => rfl
  | cons x rest ih =>
    obtain ⟨hget, hrest⟩ := h.getElement_drop hd
    have hnext := ih (i := i + 1) hrest (some x)
    rw [Nat.cast_add, Nat.cast_one] at hnext
    rw [length_cons, keyLoop, scan]
    simp only [hget, bind_eq_bind, bind_some, some_or, hnext]
    split
    · rfl
    split <;> rfl

theorem uniqueLoop_drop (h : Holds b xs) (k : K)
    (hd : xs.drop i = rest) (tmp : Option (HashListElement K D)) :
    uniqueLoop b k rest.length i tmp = some (rest.find? fun x => decide (x.fullkey = k)) := by
  induction rest generalizing i tmp with
  | nil => rfl
  | cons x rest ih =>
    obtain ⟨hget, hrest⟩ := h.getElement_drop hd
    have hnext := ih (i := i + 1) hrest (some x)
    rw [Nat.cast_add, Nat.cast_one] at hnext
    rw [length_cons, uniqueLoop, find?_cons]
    simp only [hget, bind_eq_bind, bind_some, some_or, hnext]
    by_cases he : x.fullkey = k
    · simp only [he, if_pos, decide_true]
    · rw [if_neg he, decide_eq_false he]

theorem keyLoop_eq (h : Holds b xs) (ha : Ascends xs) (k : K) :
    keyLoop b k b.numElements.toNat 0 none =
      some (xs.find? fun x => decide (x.fullkey = k)) := by
  rw [h.count, Int.toNat_natCast, ← scan_eq_find ha]
  exact keyLoop_drop (i := 0) h k rfl none

theorem uniqueLoop_eq (h : Holds b xs) (k : K) :
    uniqueLoop b k b.numElements.toNat 0 none =
      some (xs.find? fun x => decide (x.fullkey = k)) := by
  rw [h.count, Int.toNat_natCast]
  exact uniqueLoop_drop (i := 0) h k rfl none

end Searches

/-! ## 3. The table and its map -/

/-- All elements, row by row. -/
def entries (n : Nat) (rows : Nat → List (HashListElement K D)) : List (HashListElement K D) :=
  (List.range n).flatMap rows

/-- The buckets are these rows. -/
structure Tabulates (computeHash : K → UInt32) (t : HashTable K D)
    (rows : Nat → List (HashListElement K D)) : Prop where
  mask : t.hashMask.toNat < t.hashTableSize.toNat
  held : ∀ i, Holds (t.hashTable i) (rows i)
  ascends : ∀ i, Ascends (rows i)
  placed : ∀ i, ∀ x ∈ rows i, t.masked (computeHash x.fullkey) = i
  count : t.numElements = (entries t.hashTableSize.toNat rows).length

/-- The rows hold what the map says. -/
def Stores (computeHash : K → UInt32) (t : HashTable K D) (rows : Nat → List (HashListElement K D))
    (m : Finmap fun _ : K => D) : Prop :=
  ∀ x, x ∈ rows (t.masked (computeHash x.fullkey)) ↔ m.lookup x.fullkey = some x.data

def Represents (computeHash : K → UInt32) (t : HashTable K D) (m : Finmap fun _ : K => D) : Prop :=
  ∃ rows, Tabulates computeHash t rows ∧ Stores computeHash t rows m

section Table

variable {computeHash : K → UInt32} {t t' : HashTable K D} {m : Finmap fun _ : K => D}
  {rows : Nat → List (HashListElement K D)}

section

variable (h : Tabulates computeHash t rows)
include h

theorem Tabulates.masked_lt (key : UInt32) :
    t.masked key < t.hashTableSize.toNat := by
  rw [HashTable.masked, UInt32.toNat_and]
  exact Nat.lt_of_le_of_lt Nat.and_le_right h.mask

theorem Tabulates.bucket (key : UInt32) :
    t.bucket (t.masked key) = some (t.hashTable (t.masked key)) := by
  rw [HashTable.bucket, if_pos (h.masked_lt key)]

theorem Tabulates.mem_entries (x : HashListElement K D) :
    x ∈ entries t.hashTableSize.toNat rows ↔ x ∈ rows (t.masked (computeHash x.fullkey)) := by
  rw [entries, mem_flatMap]
  constructor
  · rintro ⟨i, -, hx⟩
    rw [h.placed i x hx]
    exact hx
  · exact fun hx => ⟨_, mem_range.mpr (h.masked_lt _), hx⟩

theorem Tabulates.nodup :
    ((entries t.hashTableSize.toNat rows).map fullkey).Nodup := by
  rw [entries, map_flatMap, nodup_flatMap]
  constructor
  · intro i _
    exact pairwise_map.mpr ((h.ascends i).imp fun hlt => hlt.ne)
  · refine nodup_range.imp fun {i j} hij => ?_
    intro k hi hj
    obtain ⟨x, hx, rfl⟩ := mem_map.mp hi
    obtain ⟨y, hy, e⟩ := mem_map.mp hj
    refine hij ?_
    rw [← h.placed i x hx, ← h.placed j y hy, e]

/-- The number of elements is the number of keys. -/
theorem Tabulates.card (hm : Stores computeHash t rows m) :
    t.numElements = m.keys.card := by
  have hkeys : m.keys = ((entries t.hashTableSize.toNat rows).map fullkey).toFinset := by
    ext k
    rw [Finmap.mem_keys, ← lookup_isSome, List.mem_toFinset, List.mem_map,
      isSome_iff_exists]
    constructor
    · rintro ⟨d, hd⟩
      exact ⟨⟨k, d⟩, (h.mem_entries _).mpr ((hm ⟨k, d⟩).mpr hd), rfl⟩
    · rintro ⟨x, hx, rfl⟩
      exact ⟨x.data, (hm x).mp ((h.mem_entries x).mp hx)⟩
  rw [h.count, hkeys, toFinset_card_of_nodup h.nodup, length_map]

end

/-- **The search in a row** finds what the map has. -/
theorem Stores.find (hm : Stores computeHash t rows m) (k : K) :
    ((rows (t.masked (computeHash k))).find? fun x => decide (x.fullkey = k)).map
      HashListElement.data = m.lookup k := by
  cases hf : (rows (t.masked (computeHash k))).find? fun x => decide (x.fullkey = k) with
  | none =>
    cases hl : m.lookup k with
    | none => rfl
    | some d =>
      have hmem := (hm ⟨k, d⟩).mpr hl
      have hne := find?_eq_none.mp hf ⟨k, d⟩ hmem
      exact absurd (decide_eq_true rfl) hne
  | some x =>
    obtain rfl : x.fullkey = k := by simpa using find?_some hf
    exact ((hm x).mp (mem_of_find?_eq_some hf)).symm

theorem Stores.find_isSome (hm : Stores computeHash t rows m) (k : K) :
    ((rows (t.masked (computeHash k))).find? fun x => decide (x.fullkey = k)).isSome = true ↔
      k ∈ m := by
  rw [← lookup_isSome, ← hm.find k, isSome_map]

omit [LinearOrder K] in
theorem entries_update {n : Nat} (hi : i < n) (rows : Nat → List (HashListElement K D))
    (row : List (HashListElement K D)) :
    (entries n (Function.update rows i row)).length + (rows i).length =
      (entries n rows).length + row.length := by
  obtain ⟨a, b, hab⟩ := append_of_mem (mem_range.mpr hi)
  have hnodup := nodup_range (n := n)
  rw [hab] at hnodup
  have hna : i ∉ a := fun hia =>
    (nodup_append.mp hnodup).2.2 i hia i mem_cons_self rfl
  have hnb : i ∉ b := (nodup_cons.mp (nodup_append.mp hnodup).2.1).1
  have hsame : ∀ c : List Nat, i ∉ c → c.flatMap (Function.update rows i row) = c.flatMap rows := by
    intro c hc
    refine flatMap_congr fun j hj => ?_
    exact update_of_ne (fun e => hc (by rw [← e]; exact hj)) _ _
  rw [entries, entries, hab, flatMap_append, flatMap_append, flatMap_cons,
    flatMap_cons, hsame a hna, hsame b hnb, update_self]
  simp only [length_append]
  omega

/-- A row replaced, in its bucket and in the count. -/
theorem Tabulates.update (h : Tabulates computeHash t rows)
    (hi : i < t.hashTableSize.toNat) {b : SortedList (HashListElement K D)}
    {row : List (HashListElement K D)} {n : Int} (hb : Holds b row) (ha : Ascends row)
    (hp : ∀ x ∈ row, t.masked (computeHash x.fullkey) = i)
    (hn : n + (rows i).length = t.numElements + row.length) :
    Tabulates computeHash { t.setBucket i b with numElements := n } (Function.update rows i row) := by
  refine ⟨h.mask, fun j => ?_, fun j => ?_, fun j => ?_, ?_⟩
  · show Holds (Function.update t.hashTable i b j) _
    by_cases hj : j = i
    · subst hj
      rw [update_self, update_self]
      exact hb
    · rw [update_of_ne hj, update_of_ne hj]
      exact h.held j
  · by_cases hj : j = i
    · subst hj
      rw [update_self]
      exact ha
    · rw [update_of_ne hj]
      exact h.ascends j
  · by_cases hj : j = i
    · subst hj
      rw [update_self]
      exact hp
    · rw [update_of_ne hj]
      exact h.placed j
  · have hlen := entries_update hi rows row
    have hcount := h.count
    show n = ((entries t.hashTableSize.toNat (Function.update rows i row)).length : Int)
    omega

end Table

/-! ## 4. The calls -/

section Calls

variable {computeHash : K → UInt32} {t t' : HashTable K D} {m : Finmap fun _ : K => D}
  {rows : Nat → List (HashListElement K D)} {k : K}

theorem getElement_represents (h : Tabulates computeHash t rows) (hm : Stores computeHash t rows m)
    (k : K) : t.getElement (computeHash k) k = some (m.lookup k) := by
  rw [HashTable.getElement, h.bucket]
  simp only [bind_eq_bind, bind_some, keyLoop_eq (h.held _) (h.ascends _)]
  exact congrArg some (hm.find k)

theorem isUnique_represents (h : Tabulates computeHash t rows) (hm : Stores computeHash t rows m)
    (k : K) : t.isUnique computeHash k = some (if k ∈ m then 0 else 1) := by
  rw [HashTable.isUnique, h.bucket]
  simp only [bind_eq_bind, bind_some, uniqueLoop_eq (h.held _), hm.find_isSome k]
  rfl

theorem Stores.insert (hm : Stores computeHash t rows m) {l r : List (HashListElement K D)}
    (hrow : rows (t.masked (computeHash k)) = l ++ r) (hk : k ∉ m) (d : D) {b : Nat → _} {n : Int} :
    Stores computeHash { t with hashTable := b, numElements := n }
      (Function.update rows (t.masked (computeHash k)) (l ++ ⟨k, d⟩ :: r)) (m.insert k d) := by
  intro x
  show x ∈ Function.update rows (t.masked (computeHash k)) _ (t.masked (computeHash x.fullkey)) ↔ _
  have hmem := hm x
  by_cases hx : x.fullkey = k
  · have hnot : x ∉ l ++ r := by
      rw [← hrow, ← hx, hmem, lookup_eq_none.mpr (by rw [hx]; exact hk)]
      exact (some_ne_none _).symm
    rw [hx, update_self, Finmap.lookup_insert, mem_append, mem_cons,
      some.injEq]
    rw [mem_append] at hnot
    constructor
    · rintro (hl | rfl | hr)
      · exact absurd (.inl hl) hnot
      · rfl
      · exact absurd (.inr hr) hnot
    · rintro rfl
      exact .inr (.inl (by rw [← hx]))
  · rw [Finmap.lookup_insert_of_ne _ hx, ← hmem]
    by_cases hi : t.masked (computeHash x.fullkey) = t.masked (computeHash k)
    · rw [hi, update_self, hrow, mem_append, mem_append, mem_cons]
      refine or_congr_right (or_iff_right ?_)
      rintro rfl
      exact hx rfl
    · rw [update_of_ne hi]

/-- The rows of a map without one of its keys. -/
theorem Stores.erase (hm : Stores computeHash t rows m) {l r : List (HashListElement K D)}
    {x : HashListElement K D} (hrow : rows (t.masked (computeHash x.fullkey)) = l ++ x :: r)
    (ha : Ascends (l ++ x :: r)) {b : Nat → _} {n : Int} :
    Stores computeHash { t with hashTable := b, numElements := n }
      (Function.update rows (t.masked (computeHash x.fullkey)) (l ++ r)) (m.erase x.fullkey) := by
  intro y
  show y ∈ Function.update rows (t.masked (computeHash x.fullkey)) _
    (t.masked (computeHash y.fullkey)) ↔ _
  have hmem := hm y
  by_cases hy : y.fullkey = x.fullkey
  · rw [hy, update_self, lookup_erase]
    refine iff_of_false (fun hin => ?_) (some_ne_none _).symm
    have hin' : y ∈ l ++ x :: r := ((sublist_cons_self x r).append_left l).subset hin
    have hne := ha.eq_of_key hin' hy
    subst hne
    rcases mem_append.mp hin with hl | hr
    · exact absurd rfl (ha.before y hl).ne
    · exact absurd rfl ((pairwise_cons.mp (pairwise_append.mp ha).2.1).1 y hr).ne
  · rw [Finmap.lookup_erase_ne hy, ← hmem]
    by_cases hi : t.masked (computeHash y.fullkey) = t.masked (computeHash x.fullkey)
    · rw [hi, update_self, hrow, mem_append, mem_append, mem_cons]
      refine or_congr_right (or_iff_right ?_).symm
      rintro rfl
      exact hy rfl
    · rw [update_of_ne hi]

/-- The allocator can serve a call: it has a free cell, and the count has room. -/
def serves (computeHash : K → UInt32) (t : HashTable K D) : HashOp K D → Prop
  | .addElement fullkey _ ptr =>
    (t.hashTable (t.masked (computeHash fullkey))).mem ptr = none ∧ t.numElements < 2147483647
  | _ => True

section

variable (h : Tabulates computeHash t rows)
include h

/-- A bucket holds no more than the table. -/
theorem Tabulates.count_le (key : UInt32) :
    (t.hashTable (t.masked key)).numElements ≤ t.numElements := by
  have hlen := entries_update (h.masked_lt key) rows []
  have hb := (h.held (t.masked key)).count
  have hc := h.count
  rw [length_nil] at hlen
  omega

/-- **`add_element`** of a key the map does not have. -/
theorem addElement_represents (hm : Stores computeHash t rows m)
    (hk : k ∉ m) {d : D} {ptr : Nat} (hs : serves computeHash t (.addElement k d ptr)) :
    ∃ t', t.addElement computeHash (computeHash k) k d ptr = some (t', 1) ∧
      Represents computeHash t' (m.insert k d) := by
  obtain ⟨hptr, hroom⟩ := hs
  have hget := getElement_represents h hm k
  rw [lookup_eq_none.mpr hk] at hget
  have ha := h.ascends (t.masked (computeHash k))
  have hnot : ∀ x ∈ rows (t.masked (computeHash k)), x.fullkey ≠ k := by
    rintro x hx rfl
    have hin := (hm x).mp hx
    rw [lookup_eq_none.mpr hk] at hin
    cases hin
  obtain ⟨l, r, hrow, hl, hr⟩ := ha.cut k
  have hr' : ∀ y ∈ r, k < y.fullkey := fun y hy =>
    lt_of_le_of_ne (hr y hy) (Ne.symm (hnot y (by rw [hrow]; exact mem_append_right l hy)))
  have hheld := h.held (t.masked (computeHash k))
  rw [hrow] at hheld ha
  obtain ⟨b, hb, hheld'⟩ := hheld.addElement HashListElement.le (x := ⟨k, d⟩) hptr
    (Int.lt_of_le_of_lt (h.count_le _) hroom)
    (fun y hy => decide_eq_false (not_le.mpr (hl y hy)))
    (fun y hy => decide_eq_true (hr y (mem_of_mem_head? hy)))
  refine ⟨{ t.setBucket (t.masked (computeHash k)) b with numElements := t.numElements + 1 }, ?_,
    _, h.update (h.masked_lt _) hheld' (ha.insert hl hr') ?_ ?_, hm.insert hrow hk d⟩
  · have hup : (t.setBucket (t.masked (computeHash k)) b).countUp =
        some { t.setBucket (t.masked (computeHash k)) b with numElements := t.numElements + 1 } :=
      if_pos hroom
    rw [HashTable.addElement]
    simp only [hget, bind_eq_bind, bind_some, h.bucket, hb, hup]
    rfl
  · intro x hx
    rw [mem_append, mem_cons] at hx
    rcases hx with hx | rfl | hx
    · exact h.placed _ x (by rw [hrow]; exact mem_append_left r hx)
    · rfl
    · exact h.placed _ x (by rw [hrow]; exact mem_append_right l hx)
  · rw [hrow]
    simp only [length_append, length_cons]
    push_cast
    ring

/-- **`remove_element`**. -/
theorem removeElement_represents [BEq D] [ReflBEq D]
    (hm : Stores computeHash t rows m) (k : K) :
    ∃ t', t.removeElement (computeHash k) k = some (t', if k ∈ m then 1 else 0) ∧
      Represents computeHash t' (m.erase k) := by
  have ha := h.ascends (t.masked (computeHash k))
  have hheld := h.held (t.masked (computeHash k))
  have hfound := hm.find_isSome k
  rw [HashTable.removeElement, h.bucket]
  simp only [bind_eq_bind, bind_some, keyLoop_eq hheld ha]
  cases hf : (rows (t.masked (computeHash k))).find? fun x => decide (x.fullkey = k) with
  | none =>
    rw [hf] at hfound
    have hk : k ∉ m := fun hk => Bool.false_ne_true (hfound.mpr hk)
    rw [if_neg hk]
    have herase : m.erase k = m := by
      refine Finmap.ext_lookup fun x => ?_
      by_cases hx : x = k
      · rw [hx, lookup_erase, lookup_eq_none.mpr hk]
      · rw [Finmap.lookup_erase_ne hx]
    exact ⟨t, rfl, rows, h, by rw [herase]; exact hm⟩
  | some x =>
    rw [hf] at hfound
    rw [if_pos (hfound.mp rfl)]
    obtain rfl : x.fullkey = k := by simpa using find?_some hf
    obtain ⟨l, r, hrow⟩ := append_of_mem (mem_of_find?_eq_some hf)
    rw [hrow] at hheld ha
    obtain ⟨b, hb, hheld'⟩ := hheld.removeElement eq
      HashListElement.gt (x := x)
      (fun z hz => ⟨by rw [eq, decide_eq_false (ha.before z hz).ne]; rfl,
        decide_eq_false (not_lt.mpr (ha.before z hz).le)⟩)
      (by rw [eq, decide_eq_true rfl, beq_self_eq_true]; rfl)
    refine ⟨{ t.setBucket (t.masked (computeHash x.fullkey)) b with
      numElements := t.numElements - 1 }, ?_, _,
      h.update (h.masked_lt _) hheld' ha.erase ?_ ?_, hm.erase hrow ha⟩
    · simp only [hb, bind_some]
      rfl
    · intro y hy
      refine h.placed _ y ?_
      rw [hrow]
      exact ((sublist_cons_self x r).append_left l).subset hy
    · rw [hrow]
      simp only [length_append, length_cons]
      push_cast
      ring

/-- The loop of `get_element` by position: from a bucket on, the position among the elements that
    are left is a position in the bucket it ends at. -/
theorem seekBucket_eq {left j : Nat}
    (hj : j + left = t.hashTableSize.toNat)
    (hi : i < ((range' j left).flatMap rows).length) :
    ∃ p q : Nat, t.seekBucket left j i = (p, (q : Int)) ∧ p < t.hashTableSize.toNat ∧
      q < (rows p).length ∧ (rows p)[q]? = ((range' j left).flatMap rows)[i]? := by
  induction left generalizing j i with
  | zero => exact absurd hi (Nat.not_lt_zero i)
  | succ left ih =>
    rw [range'_succ, flatMap_cons, length_append] at hi
    rw [range'_succ, flatMap_cons, HashTable.seekBucket, (h.held j).count]
    rcases Nat.lt_or_ge i (rows j).length with hlt | hge
    · rw [if_pos (by exact_mod_cast hlt), getElem?_append_left hlt]
      exact ⟨j, i, rfl, by omega, hlt, rfl⟩
    · rw [if_neg (by exact_mod_cast Nat.not_lt.mpr hge), getElem?_append_right hge,
        ← Int.ofNat_sub hge]
      exact ih (by omega) (by omega)

/-- **`get_element` by position** goes through the elements row by row. -/
theorem getElementAt_eq (index : Int) :
    t.getElementAt index =
      some (if index < 0 then none else (entries t.hashTableSize.toNat rows)[index.toNat]?) := by
  have hcount := h.count
  unfold HashTable.getElementAt
  by_cases hneg : index < 0
  · rw [if_pos (.inl hneg), if_pos hneg]
  rw [if_neg hneg]
  obtain ⟨i, rfl⟩ := Int.eq_ofNat_of_zero_le (Int.not_lt.mp hneg)
  rw [Int.toNat_natCast]
  rcases Nat.lt_or_ge i (entries t.hashTableSize.toNat rows).length with hi | hi
  · rw [if_neg (by omega)]
    have hentries : entries t.hashTableSize.toNat rows =
        (range' 0 t.hashTableSize.toNat).flatMap rows := by
      rw [entries, range_eq_range']
    rw [hentries] at hi ⊢
    obtain ⟨p, q, hseek, hp, hq, hrow⟩ := seekBucket_eq h (Nat.zero_add _) hi
    rw [hseek]
    dsimp only
    rw [HashTable.bucket, if_pos hp, bind_some, (h.held p).getElement hq, ← hrow,
      getElem?_eq_getElem hq]
  · rw [if_pos (by omega), getElem?_eq_none hi]

end

/-- **One call**: it is defined where the allocator does its part, answers what the map says and
    leaves the table standing for the map it should. -/
theorem hashStep_represents [BEq D] [ReflBEq D] (h : Represents computeHash t m) (op : HashOp K D)
    (hs : ∀ k d ptr, op = .addElement k d ptr → k ∉ m → serves computeHash t op) :
    ∃ t' a m', hashStep computeHash t op = some (t', a) ∧ MapStep computeHash m op a m' ∧
      Represents computeHash t' m' := by
  obtain ⟨rows, ht, hm⟩ := h
  cases op with
  | isUnique key =>
    refine ⟨t, _, m, by rw [hashStep, isUnique_represents ht hm]; rfl, ⟨rfl, rfl⟩, rows, ht, hm⟩
  | addElement fullkey data ptr =>
    by_cases hk : fullkey ∈ m
    · refine ⟨t, ⟨0, none, none, none⟩, m, ?_, ?_, rows, ht, hm⟩
      · rw [hashStep, HashTable.addElement, getElement_represents ht hm]
        simp only [bind_eq_bind, bind_some, lookup_isSome.mpr hk]
        rfl
      · rw [MapStep, if_pos hk]
        exact ⟨rfl, rfl⟩
    · obtain ⟨t', ht', h'⟩ := addElement_represents ht hm hk (hs _ _ _ rfl hk)
      refine ⟨t', ⟨1, none, none, none⟩, _, by rw [hashStep, ht']; rfl, ?_, h'⟩
      rw [MapStep, if_neg hk]
      exact ⟨rfl, rfl⟩
  | removeElement fullkey =>
    obtain ⟨t', ht', h'⟩ := removeElement_represents ht hm fullkey
    exact ⟨t', _, _, by rw [hashStep, ht']; rfl, ⟨rfl, rfl⟩, h'⟩
  | getElement fullkey =>
    refine ⟨t, _, m, by rw [hashStep, getElement_represents ht hm]; rfl, ⟨rfl, ?_⟩, rows, ht, hm⟩
    simp only [lookup_isSome]
  | getElementAt index =>
    refine ⟨t, _, m, by rw [hashStep, getElementAt_eq ht]; rfl, ⟨rfl, ?_⟩, rows, ht, hm⟩
    have hcard := ht.card hm
    have hcount := ht.count
    by_cases hin : 0 ≤ index ∧ index < m.keys.card
    · have hi : index.toNat < (entries t.hashTableSize.toNat rows).length := by omega
      rw [if_pos hin, if_neg (Int.not_lt.mpr hin.1), getElem?_eq_getElem hi]
      have hmem := (ht.mem_entries _).mp (getElem_mem hi)
      exact ⟨_, _, (hm _).mp hmem, rfl⟩
    · rw [if_neg hin]
      split
      · rfl
      · rw [getElem?_eq_none (by omega)]
        rfl
  | getNumElements =>
    exact ⟨t, _, m, rfl, ⟨rfl, by rw [ht.card hm]⟩, rows, ht, hm⟩

end Calls

/-! ## 5. Runs -/

section Runs

variable {computeHash : K → UInt32} {t t' : HashTable K D} {m : Finmap fun _ : K => D}

/-- A call that allocates is defined only where the allocator does its part. -/
theorem serves_of_hashStep [BEq D] (h : Represents computeHash t m) {k : K} {d : D} {ptr : Nat}
    {r : HashTable K D × HashAnswer K D} (hk : k ∉ m)
    (hs : hashStep computeHash t (.addElement k d ptr) = some r) :
    serves computeHash t (.addElement k d ptr) := by
  obtain ⟨rows, ht, hm⟩ := h
  obtain ⟨r, hs, -⟩ := map_eq_some_iff.mp hs
  rw [HashTable.addElement, getElement_represents ht hm, lookup_eq_none.mpr hk] at hs
  simp only [bind_eq_bind, bind_some, ht.bucket] at hs
  obtain ⟨⟨b, code⟩, hb, hs⟩ := bind_eq_some_iff.mp hs
  obtain ⟨t₁, ht₁, -⟩ := bind_eq_some_iff.mp hs
  refine ⟨(ht.held _).fresh_of_addElement hb, ?_⟩
  · unfold HashTable.countUp at ht₁
    split at ht₁
    · assumption
    · cases ht₁

/-- One call of the code, with its answer. -/
def HashStep [BEq D] (computeHash : K → UInt32) (t : HashTable K D)
    (l : HashOp K D × HashAnswer K D) (t' : HashTable K D) : Prop :=
  hashStep computeHash t l.1 = some (t', l.2)

/-- One call on the map, with its answer. -/
def FinmapStep (computeHash : K → UInt32) (m : Finmap fun _ : K => D)
    (l : HashOp K D × HashAnswer K D) (m' : Finmap fun _ : K => D) : Prop :=
  MapStep computeHash m l.1 l.2 m'

theorem hashStep_simulates [BEq D] [ReflBEq D] {l : HashOp K D × HashAnswer K D}
    (h : Represents computeHash t m) (hs : HashStep computeHash t l t') :
    ∃ m', FinmapStep computeHash m l m' ∧ Represents computeHash t' m' := by
  obtain ⟨t₁, a, m', ht₁, hm', h'⟩ := hashStep_represents h l.1 fun k d ptr e hk => by
    rw [HashStep, e] at hs
    rw [e]
    exact serves_of_hashStep h hk hs
  rw [HashStep, ht₁, some.injEq, Prod.mk.injEq] at hs
  obtain ⟨rfl, rfl⟩ := hs
  exact ⟨m', hm', h'⟩

/-- The shifts end before the bits of the number do. -/
theorem countShifts_isSome (fuel : Nat) {k n : Nat} (hn : n < 2 ^ k) (hk : k ≤ fuel) (cnt : Nat) :
    ∃ c, countShifts fuel n cnt = some c ∧ c ≤ cnt + k := by
  induction k generalizing fuel n cnt with
  | zero =>
    obtain rfl : n = 0 := by omega
    unfold countShifts
    exact ⟨cnt, rfl, Nat.le_refl cnt⟩
  | succ k ih =>
    obtain ⟨fuel, rfl⟩ : ∃ f, fuel = f + 1 := ⟨fuel - 1, by omega⟩
    rw [countShifts]
    split
    · exact ⟨cnt, rfl, Nat.le_add_right cnt _⟩
    · have hshift : (n : Int) >>> (1 : Nat) = ((n / 2 : Nat) : Int) := by
        rw [Int.shiftRight_eq_div_pow]
        norm_num
      obtain ⟨c, hc, hle⟩ := ih fuel (n := n / 2) (by omega) (by omega) (cnt + 1)
      exact ⟨c, by rw [hshift, hc], by omega⟩

/-- **The constructor** makes an empty table with a mask that leads to its buckets. -/
theorem init_represents {inHashTableSize : Int} (hpos : 0 < inHashTableSize)
    (hint : inHashTableSize < 2147483648) (computeHash : K → UInt32) :
    ∃ t : HashTable K D, HashTable.init inHashTableSize = some t ∧
      Represents computeHash t (∅ : Finmap fun _ : K => D) := by
  have hempty : ∀ size : UInt32, size ≠ 0 →
      Represents computeHash (⟨fun _ => LinkedList.init, size - 1, size, 0⟩ : HashTable K D) ∅ := by
    intro size hsize
    have hne : size.toNat ≠ 0 := fun e => hsize (UInt32.toNat_inj.mp e)
    refine ⟨fun _ => [], ⟨?_, fun _ => holds_init, fun _ => Pairwise.nil,
      fun _ _ hx => absurd hx not_mem_nil, ?_⟩, fun x => ?_⟩
    · show (size - 1).toNat < size.toNat
      have hlt := size.toNat_lt
      rw [UInt32.toNat_sub_of_le _ _ (UInt32.le_iff_toNat_le.mpr (by
        show 1 ≤ size.toNat
        omega))]
      show size.toNat - 1 < size.toNat
      omega
    · show (0 : Int) = ((entries size.toNat fun _ => []).length : Int)
      rw [entries, flatMap_eq_nil_iff.mpr fun _ _ => rfl]
      rfl
    · rw [Finmap.lookup_empty]
      exact iff_of_false not_mem_nil (some_ne_none _).symm
  obtain ⟨n, rfl⟩ := Int.eq_ofNat_of_zero_le hpos.le
  unfold HashTable.init
  dsimp only
  split
  · have hfits : n < 2 ^ 31 := by omega
    obtain ⟨c, hc, hle⟩ := countShifts_isSome 32 hfits (by decide) 0
    have hall : ∀ c < 32, (1 : UInt32) <<< UInt32.ofNat c ≠ 0 := by decide +kernel
    rw [hc]
    exact ⟨_, rfl, hempty _ (hall c (by omega))⟩
  · refine ⟨_, rfl, hempty _ fun e => ?_⟩
    have hmod : ((n : Int) % 2 ^ 32).toNat = n := by
      rw [Int.emod_eq_of_lt hpos.le (by omega), Int.toNat_natCast]
    have htoNat := congrArg UInt32.toNat e
    rw [UInt32.ofInt, hmod, UInt32.toNat_ofNat_of_lt' (by show n < 2 ^ 32; omega)] at htoNat
    exact hpos.ne' (congrArg Nat.cast htoNat)

/-- **The hash table is a finite map**: a table of any positive size answers every call of every
    run as the map does, each call the allocator can serve is defined, and behind every run the
    count is the number of keys and the positions below it enumerate the elements of the map, each
    key once. -/
theorem hash_table_run [BEq D] [ReflBEq D] (computeHash : K → UInt32) {inHashTableSize : Int}
    (hpos : 0 < inHashTableSize) (hint : inHashTableSize < 2147483648) :
    ∃ t₀ : HashTable K D, HashTable.init inHashTableSize = some t₀ ∧
      ∀ ls t, Run (HashStep computeHash) t₀ ls t →
        ∃ m, Run (FinmapStep computeHash) ∅ ls m ∧ t.numElements = m.keys.card ∧
          (∀ op, serves computeHash t op → (hashStep computeHash t op).isSome) ∧
          ∃ es : List (HashListElement K D), t.numElements = es.length ∧
            (es.map fullkey).Nodup ∧
            (∀ x, x ∈ es ↔ m.lookup x.fullkey = some x.data) ∧
            ∀ i : Nat, i < es.length → hashStep computeHash t (.getElementAt i) =
              some (t, .ofElement computeHash es[i]?) := by
  obtain ⟨t₀, ht₀, h₀⟩ := init_represents (D := D) hpos hint computeHash
  refine ⟨t₀, ht₀, fun ls t hr => ?_⟩
  obtain ⟨m, hm, h⟩ := Run.simulate (A := FinmapStep computeHash) h₀
    (fun _ _ _ _ h hs => hashStep_simulates h hs) hr
  refine ⟨m, hm, ?_⟩
  obtain ⟨rows, ht, hstores⟩ := id h
  refine ⟨ht.card hstores, fun op hs => ?_, entries t.hashTableSize.toNat rows, ht.count, ht.nodup,
    fun x => (ht.mem_entries x).trans (hstores x), fun i _ => ?_⟩
  · obtain ⟨t', a, m', hs', -, -⟩ := hashStep_represents h op fun _ _ _ _ _ => hs
    rw [hs', isSome_some]
  · rw [hashStep, getElementAt_eq ht, if_neg (Int.not_lt.mpr (Int.natCast_nonneg i)),
      Int.toNat_natCast, map_some]

/-- A table of size 3, which is made 4, with three keys in one bucket. -/
theorem hash_table_run_nat : ∃ t₀ t : HashTable Nat Nat, HashTable.init 3 = some t₀ ∧
    ∃ m, Run (FinmapStep fun k : Nat => UInt32.ofNat k) (∅ : Finmap fun _ : Nat => Nat)
        [(.addElement 9 1 10, ⟨1, none, none, none⟩), (.addElement 1 2 20, ⟨1, none, none, none⟩),
          (.addElement 5 3 30, ⟨1, none, none, none⟩), (.addElement 5 4 40, ⟨0, none, none, none⟩),
          (.addElement 2 5 10, ⟨1, none, none, none⟩), (.removeElement 1, ⟨1, none, none, none⟩),
          (.removeElement 3, ⟨0, none, none, none⟩), (.getElement 9, ⟨1, none, none, some 1⟩),
          (.getElementAt 2, ⟨1, some 2, some 2, some 5⟩), (.isUnique 1, ⟨1, none, none, none⟩)] m ∧
      t.numElements = m.keys.card := by
  obtain ⟨t₀, ht₀, hrun⟩ := hash_table_run (D := Nat) (fun k : Nat => UInt32.ofNat k)
    (show (0 : Int) < 3 by decide) (by decide)
  have hsome : ((HashTable.init 3).bind fun t₀ =>
      execAll (answering (hashStep fun k : Nat => UInt32.ofNat k)) t₀
        [(.addElement 9 1 10, ⟨1, none, none, none⟩), (.addElement 1 2 20, ⟨1, none, none, none⟩),
          (.addElement 5 3 30, ⟨1, none, none, none⟩), (.addElement 5 4 40, ⟨0, none, none, none⟩),
          (.addElement 2 5 10, ⟨1, none, none, none⟩), (.removeElement 1, ⟨1, none, none, none⟩),
          (.removeElement 3, ⟨0, none, none, none⟩), (.getElement 9, ⟨1, none, none, some 1⟩),
          (.getElementAt 2, ⟨1, some 2, some 2, some 5⟩),
          (.isUnique 1, ⟨1, none, none, none⟩)]).isSome := by
    decide +kernel
  obtain ⟨t, ht⟩ := isSome_iff_exists.mp hsome
  rw [ht₀, bind_some] at ht
  have hr : Run (HashStep fun k : Nat => UInt32.ofNat k) t₀ _ t :=
    (Run.of_execAll ht).mono fun _ _ _ h => answering_eq_some.mp h
  obtain ⟨m, hm, hcard, -⟩ := hrun _ t hr
  exact ⟨t₀, t, ht₀, m, hm, hcard⟩

end Runs

end OpenCore.GenData
