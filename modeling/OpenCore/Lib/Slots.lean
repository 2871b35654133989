/-
  File:      OpenCore/Lib/Slots.lean
  Subject:   SLOTS OF AN ARRAY: moving a range up by one to put an entry in front of it, and
             closing the gaps that entries leave which are dropped.

  Both loops work in place. Closing the gaps writes a kept entry where the gaps begin and clears
  nothing, so behind the kept entries stands what stood there before (`compacted`). A list of
  pointers of which the first ones are filled is `padded`.

  **Main result**: `shiftUp_set`, `compactLoop_eq`, `compactLoop_stuck`, `compacted_padded`.
-/
import OpenCore.Lib.Splice

namespace OpenCore.Lib

open List Option

variable {α : Type*}

/-! ## 1. The loops -/

/-- One slot is copied to another one. -/
def copySlot (a : List α) (dst src : Nat) : List α := (a[src]?).elim a (a.set dst ·)

/-- Each slot from the top down to the one above `bottom` receives the one below it. -/
def shiftUp (bottom : Nat) : Nat → List α → List α
  | 0, a => a
  | c + 1, a => if bottom < c + 1 then shiftUp bottom c (copySlot a (c + 1) c) else a

/-- So many slots from `c` on are examined, and what is kept is written from `d` on; `none` where
    a slot cannot be examined. -/
def compactLoop (keep : α → Option Bool) : Nat → Nat → Nat → List α → Option (List α)
  | 0, _, _, a => some a
  | n + 1, c, d, a =>
    (a[c]?).bind fun x => (keep x).bind fun k =>
      if k then compactLoop keep n (c + 1) (d + 1) (a.set d x)
      else compactLoop keep n (c + 1) d a

/-- What is kept, and behind it the slots as they were. -/
def compacted (keep : α → Bool) (l : List α) : List α :=
  l.filter keep ++ l.drop (l.filter keep).length

/-! ## 2. Moving up -/

theorem getElem?_append_cons {P T : List α} {x : α} : (P ++ x :: T)[P.length]? = some x := by
  rw [getElem?_append_right le_rfl, Nat.sub_self, getElem?_cons_zero]

theorem set_append_cons {P T : List α} {x y : α} :
    (P ++ x :: T).set P.length y = P ++ y :: T := by
  rw [set_append_right _ _ le_rfl, Nat.sub_self, set_cons_zero]

/-- **Putting an entry in front of a range**: the range moves up, over the slot behind it. -/
theorem shiftUp_set (P R T : List α) (z a : α) :
    (shiftUp P.length (P.length + R.length) (P ++ R ++ z :: T)).set P.length a =
      P ++ a :: (R ++ T) := by
  induction R using reverseRecOn generalizing z T with
  | nil =>
    have hstop : shiftUp P.length P.length (P ++ z :: T) = P ++ z :: T := by
      cases h : P.length with
      | zero => rfl
      | succ n => rw [shiftUp, if_neg (by omega)]
    rw [append_nil, length_nil, Nat.add_zero, hstop, set_append_cons, nil_append]
  | append_singleton R y ih =>
    have hlen : P.length + (R ++ [y]).length = (P ++ R).length + 1 := by
      rw [length_append, length_append, length_singleton]
      omega
    have hcopy : copySlot (P ++ (R ++ [y]) ++ z :: T) ((P ++ R).length + 1) (P ++ R).length =
        P ++ R ++ y :: (y :: T) := by
      have hget : (P ++ (R ++ [y]) ++ z :: T)[(P ++ R).length]? = some y := by
        rw [← append_assoc, append_assoc (P ++ R)]
        exact getElem?_append_cons
      have hset : (P ++ (R ++ [y]) ++ z :: T).set ((P ++ R).length + 1) y =
          P ++ R ++ y :: (y :: T) := by
        have h := @set_append_cons α (P ++ R ++ [y]) T z y
        rw [length_append, length_singleton] at h
        rw [← append_assoc P, h, append_assoc (P ++ R), singleton_append]
      rw [copySlot, hget, elim_some, hset]
    rw [hlen, shiftUp, if_pos (by rw [length_append]; omega), hcopy, length_append,
      ih (y :: T) y, append_assoc R, singleton_append]

/-! ## 3. Closing the gaps -/

variable {keep : α → Option Bool} {p : α → Bool}

/-- The gap `G` lies between what is kept already and what is examined next. -/
theorem compactLoop_gap (P G K T : List α)
    (hk : ∀ x ∈ K, keep x = some (p x)) :
    compactLoop keep K.length (P.length + G.length) P.length (P ++ G ++ K ++ T) =
      some (P ++ K.filter p ++ (G ++ K).drop (K.filter p).length ++ T) := by
  induction K generalizing P G with
  | nil =>
    rw [length_nil, compactLoop, filter_nil, length_nil, drop_zero,
      append_nil, append_nil, append_nil]
  | cons x K ih =>
    have hK : ∀ y ∈ K, keep y = some (p y) := fun y hy => hk y (mem_cons_of_mem x hy)
    have hget : (P ++ G ++ x :: K ++ T)[P.length + G.length]? = some x := by
      rw [← length_append, append_assoc (P ++ G), cons_append]
      exact getElem?_append_cons
    rw [length_cons, compactLoop, hget, bind_some, hk x mem_cons_self,
      bind_some]
    cases hp : p x with
    | false =>
      have hG : P.length + G.length + 1 = P.length + (G ++ [x]).length := by
        rw [length_append, length_singleton, Nat.add_assoc]
      have hlist : P ++ G ++ x :: K ++ T = P ++ (G ++ [x]) ++ K ++ T := by simp
      rw [if_neg Bool.false_ne_true, hG, hlist, ih P (G ++ [x]) hK,
        filter_cons_of_neg (by rw [hp]; exact Bool.false_ne_true), append_assoc G,
        singleton_append]
    | true =>
      rw [if_pos rfl, filter_cons_of_pos hp, length_cons]
      cases G with
      | nil =>
        have hset : (P ++ [] ++ x :: K ++ T).set P.length x = P ++ [x] ++ [] ++ K ++ T := by
          rw [append_nil, append_assoc, cons_append, set_append_cons]
          simp
        have h := ih (P ++ [x]) [] hK
        rw [length_append, length_singleton, length_nil] at h
        rw [hset, length_nil, Nat.add_zero]
        rw [Nat.add_zero] at h
        rw [h, nil_append, nil_append, drop_succ_cons, append_assoc P,
          singleton_append]
      | cons g G =>
        have hset : (P ++ g :: G ++ x :: K ++ T).set P.length x =
            P ++ [x] ++ (G ++ [x]) ++ K ++ T := by
          have hfront : P ++ g :: G ++ x :: K ++ T = P ++ g :: (G ++ x :: K ++ T) := by simp
          rw [hfront, set_append_cons]
          simp
        have hidx : P.length + (g :: G).length + 1 = (P ++ [x]).length + (G ++ [x]).length := by
          simp only [length_append, length_cons, length_nil]
          omega
        have h := ih (P ++ [x]) (G ++ [x]) hK
        rw [hset, hidx]
        rw [length_append, length_singleton] at h ⊢
        rw [h, cons_append, drop_succ_cons, append_assoc P, singleton_append,
          append_assoc G, singleton_append]

/-- **Closing the gaps of a range.** -/
theorem compactLoop_eq (P K T : List α)
    (hk : ∀ x ∈ K, keep x = some (p x)) :
    compactLoop keep K.length P.length P.length (P ++ K ++ T) = some (P ++ compacted p K ++ T) := by
  have h := compactLoop_gap P [] K T hk
  rw [append_nil, length_nil, Nat.add_zero, nil_append] at h
  rw [h, compacted, append_assoc P]

/-- **A slot that cannot be examined** stops the loop. -/
theorem compactLoop_stuck (n c d : Nat) (a : List α) {i : Nat} {x : α}
    (hd : d ≤ c) (hci : c ≤ i) (hi : i < c + n) (hx : a[i]? = some x) (hk : keep x = none) :
    compactLoop keep n c d a = none := by
  induction n generalizing c d a with
  | zero => omega
  | succ n ih =>
    rw [compactLoop]
    by_cases hc : c = i
    · rw [hc, hx, bind_some, hk, bind_none]
    · cases hy : a[c]? with
      | none => rfl
      | some y =>
        cases hb : keep y with
        | none => rw [bind_some, hb, bind_none]
        | some b =>
          rw [bind_some, hb, bind_some]
          cases b with
          | false =>
            rw [if_neg Bool.false_ne_true]
            exact ih (c + 1) d a (by omega) (by omega) (by omega) hx
          | true =>
            rw [if_pos rfl]
            refine ih (c + 1) (d + 1) _ (by omega) (by omega) (by omega) ?_
            rw [getElem?_set_ne (by omega), hx]

theorem compacted_length (p : α → Bool) (l : List α) : (compacted p l).length = l.length := by
  have h := length_filter_le p l
  rw [compacted, length_append, length_drop]
  omega

/-- The kept entries of a front part stay in front. -/
theorem compacted_prefix {s l : List α} (h : s <+: l) :
    s.filter p <+: compacted p l :=
  (h.filter p).trans (prefix_append _ _)

theorem mem_compacted {l : List α} {x : α} (h : x ∈ compacted p l) : x ∈ l := by
  rcases mem_append.mp h with h | h
  · exact mem_of_mem_filter h
  · exact mem_of_mem_drop h

/-! ## 4. Filled slots first -/

/-- The first ones of `n` slots are filled. -/
def padded (X : List α) (n : Nat) : List (Option α) :=
  X.map some ++ List.replicate (n - X.length) none

theorem padded_length {X : List α} {n : Nat} (h : X.length ≤ n) : (padded X n).length = n := by
  rw [padded, length_append, length_map, length_replicate]
  omega

theorem getElem?_padded {X : List α} {n i : Nat} (hi : i < n) :
    (padded X n)[i]? = some X[i]? := by
  rw [padded]
  by_cases h : i < X.length
  · rw [getElem?_append_left (by rw [length_map]; exact h), getElem?_map,
      getElem?_eq_getElem h, map_some]
  · rw [getElem?_append_right (by rw [length_map]; omega), length_map,
      getElem?_replicate, if_pos (by omega), getElem?_eq_none (by omega)]

/-- The filled slots and the empty ones of a front part. -/
theorem take_padded (X : List α) {m n : Nat} (h : m ≤ n) :
    (padded X n).take m = padded (X.take m) m := by
  rw [padded, padded, take_append, map_take, length_map, take_replicate,
    length_take]
  congr 2
  omega

theorem drop_padded (X : List α) (m n : Nat) :
    (padded X n).drop m = padded (X.drop m) (n - m) := by
  rw [padded, padded, drop_append, map_drop, length_map, drop_replicate,
    length_drop]
  congr 2
  omega

/-- The last slot apart from the others. -/
theorem padded_succ {X : List α} {n : Nat} (h : X.length ≤ n + 1) :
    ∃ z, padded X (n + 1) = padded (X.take n) n ++ [z] := by
  have hlen : ((padded X (n + 1)).drop n).length = 1 := by
    rw [length_drop, padded_length h]
    omega
  obtain ⟨z, hz⟩ := length_eq_one_iff.mp hlen
  exact ⟨z, by rw [← take_padded X (Nat.le_succ n), ← hz, take_append_drop]⟩

theorem padded_inj {X Y : List α} {n : Nat} (hX : X.length ≤ n) (hY : Y.length ≤ n) :
    padded X n = padded Y n ↔ X = Y := by
  constructor
  · intro h
    refine ext_getElem? fun i => ?_
    by_cases hi : i < n
    · have hget := congrArg (fun l => l[i]?) h
      simp only [getElem?_padded hi, some.injEq] at hget
      exact hget
    · rw [getElem?_eq_none (by omega), getElem?_eq_none (by omega)]
  · intro h
    rw [h]

/-- **Closing the gaps keeps the filled slots first** where no empty one is kept. -/
theorem compacted_padded {q : Option α → Bool} (X : List α) (n : Nat)
    (hnone : q none = false) (hsome : ∀ x ∈ X, q (some x) = p x) :
    compacted q (padded X n) = padded (compacted p X) n := by
  have hfilter : (padded X n).filter q = (X.filter p).map some := by
    have hempty : (replicate (n - X.length) (none : Option α)).filter q = [] := by
      rw [filter_replicate, if_neg (by rw [hnone]; exact Bool.false_ne_true)]
    have hfill : (X.map some).filter q = (X.filter p).map some := by
      rw [List.filter_map]
      exact congrArg _ (filter_congr hsome)
    rw [padded, filter_append, hempty, hfill, append_nil]
  have hle := length_filter_le p X
  rw [compacted, hfilter, length_map, padded, padded, compacted_length,
    drop_append_of_le_length (by rw [length_map]; exact hle), compacted, map_append,
    map_drop, append_assoc]

/-- Entries that are written into the filled part or right behind it. -/
theorem splice_padded {X B : List α} {k n : Nat} (hk : k ≤ X.length) (hX : X.length ≤ n)
    (hB : k + B.length ≤ n) :
    splice (padded X n) k (B.map some) = padded (X.take k ++ B ++ X.drop (k + B.length)) n := by
  have hfront : (padded X n).take k = (X.take k).map some := by
    rw [take_padded X (hk.trans hX), padded, length_take, Nat.min_eq_left hk, Nat.sub_self,
      replicate_zero, append_nil]
  have hcount : n - (k + B.length) - (X.drop (k + B.length)).length =
      n - (X.take k ++ B ++ X.drop (k + B.length)).length := by
    simp only [length_append, length_take, length_drop]
    omega
  rw [splice, length_map, hfront, drop_padded, padded, padded, hcount, map_append,
    map_append, append_assoc _ _ (replicate _ _)]

end OpenCore.Lib
