/-
  File:      OpenCore/Lib/PrefixCode.lean
  Subject:   Prefix codes: the longest sequence of code words a list begins with.

  Where no code word begins another, all sequences of code words that begin one list are prefixes
  of each other. A reader that takes one word after the other therefore finds the longest one
  (`longest_of_stops`), and of a code that is part of a larger one it finds the same sequence,
  unless a word of the larger code alone comes next (`Longest.eq_iff`).
-/
import Mathlib

namespace OpenCore.Lib

open List

variable {α : Type} {C D : List α → Prop} {limit : Option Nat} {s : List α}

/-! ## 1. Code words -/

/-- No code word is empty, and none begins another. -/
structure PrefixCode (C : List α → Prop) : Prop where
  ne_nil : ∀ {c}, C c → c ≠ []
  free : ∀ {c d}, C c → C d → c <+: d → c = d

/-- `cs` are code words, at most `limit` of them, and one behind the other they begin `s`. -/
structure Begins (C : List α → Prop) (limit : Option Nat) (s : List α) (cs : List (List α)) :
    Prop where
  words : ∀ c ∈ cs, C c
  isPrefix : cs.flatten <+: s
  within : ∀ m, limit = some m → cs.length ≤ m

/-- No other sequence of code words that begins `s` covers more of it. -/
structure Longest (C : List α → Prop) (limit : Option Nat) (s : List α) (cs : List (List α)) :
    Prop extends Begins C limit s cs where
  longest : ∀ ds, Begins C limit s ds → ds.flatten.length ≤ cs.flatten.length

theorem Begins.nil (C : List α → Prop) (limit : Option Nat) (s : List α) : Begins C limit s [] :=
  ⟨nofun, nil_prefix, fun _ _ => Nat.zero_le _⟩

variable {cs : List (List α)}

theorem Begins.mono (hCD : ∀ c, C c → D c) (h : Begins C limit s cs) :
    Begins D limit s cs :=
  ⟨fun c hc => hCD c (h.words c hc), h.isPrefix, h.within⟩

variable {c : List α}

theorem Begins.snoc (h : Begins C limit s cs) (hc : C c)
    (hfollows : cs.flatten ++ c <+: s) (hlimit : limit ≠ some cs.length) :
    Begins C limit s (cs ++ [c]) := by
  refine ⟨fun d hd => ?_, ?_, fun m hm => ?_⟩
  · rcases mem_append.mp hd with hd | hd
    · exact h.words d hd
    · exact mem_singleton.mp hd ▸ hc
  · rw [flatten_append, flatten_singleton]
    exact hfollows
  · have hle := h.within m hm
    have hne : cs.length ≠ m := fun heq => hlimit (heq ▸ hm)
    rw [length_append, length_singleton]
    omega

theorem Begins.cons (hc : C c)
    (h : Begins C (limit.map Nat.pred) s cs) (hlimit : limit ≠ some 0) :
    Begins C limit (c ++ s) (c :: cs) := by
  refine ⟨forall_mem_cons.mpr ⟨hc, h.words⟩, ?_, fun m hm => ?_⟩
  · rw [flatten_cons]
    exact (prefix_append_right_inj c).mpr h.isPrefix
  · have hle := h.within (m - 1) (by rw [hm]; rfl)
    have hpos : m ≠ 0 := fun heq => hlimit (heq ▸ hm)
    rw [length_cons]
    omega

theorem Begins.tail (h : Begins C limit (c ++ s) (c :: cs)) :
    Begins C (limit.map Nat.pred) s cs := by
  refine ⟨fun d hd => h.words d (mem_cons_of_mem c hd), ?_, fun m hm => ?_⟩
  · have hpre := h.isPrefix
    rw [flatten_cons] at hpre
    exact (prefix_append_right_inj c).mp hpre
  · obtain ⟨k, hk, rfl⟩ := Option.map_eq_some_iff.mp hm
    have hle := h.within k hk
    rw [length_cons] at hle
    exact Nat.le_pred_of_lt hle

/-! ## 2. One sequence begins the other -/

namespace PrefixCode

variable (hC : PrefixCode C)
include hC

/-- Two code words that begin one list are the same. -/
theorem eq_of_prefix {d : List α} (hc : C c) (hd : C d) (hcs : c <+: s) (hds : d <+: s) :
    c = d := by
  rcases prefix_or_prefix_of_prefix hcs hds with h | h
  · exact hC.free hc hd h
  · exact (hC.free hd hc h).symm

theorem prefix_of_length_le {ds : List (List α)} : ∀ {s : List α} {cs : List (List α)}
    {limit limit' : Option Nat}, Begins C limit s cs → Begins C limit' s ds →
    ds.length ≤ cs.length → ds <+: cs := by
  induction ds with
  | nil => exact fun _ _ _ => nil_prefix
  | cons d ds ih =>
    intro s cs limit limit' hcs hds hle
    cases cs with
    | nil => exact absurd hle (Nat.not_succ_le_zero _)
    | cons c cs =>
      have hcpre : c <+: s := (prefix_append c cs.flatten).trans hcs.isPrefix
      have hdpre : d <+: s := (prefix_append d ds.flatten).trans hds.isPrefix
      obtain rfl : c = d := hC.eq_of_prefix (hcs.words c mem_cons_self)
        (hds.words d mem_cons_self) hcpre hdpre
      obtain ⟨rest, rfl⟩ := hcpre
      have := ih hcs.tail hds.tail (Nat.le_of_succ_le_succ hle)
      exact (prefix_append_right_inj [c]).mpr this

/-- A sequence with more words covers more. -/
theorem flatten_length_lt {ds : List (List α)} (hwords : ∀ d ∈ ds, C d) (hpre : cs <+: ds)
    (hlt : cs.length < ds.length) : cs.flatten.length < ds.flatten.length := by
  obtain ⟨es, rfl⟩ := hpre
  cases es with
  | nil => rw [append_nil] at hlt; exact absurd hlt (Nat.lt_irrefl _)
  | cons e es =>
    have he : e ≠ [] := hC.ne_nil (hwords e (mem_append_right cs mem_cons_self))
    have hpos : 0 < e.length := length_pos_of_ne_nil he
    rw [flatten_append, flatten_cons, length_append, length_append]
    omega

end PrefixCode

/-! ## 3. The longest sequence -/

section Longest

variable (hC : PrefixCode C)
include hC

/-- **Every sequence of code words that begins the list begins the longest one.** -/
theorem Longest.isInitial {ds : List (List α)} (h : Longest C limit s cs)
    (hds : Begins C limit s ds) : ds <+: cs := by
  rcases Nat.lt_or_ge cs.length ds.length with hlt | hle
  · have hpre : cs <+: ds := hC.prefix_of_length_le hds h.toBegins (Nat.le_of_lt hlt)
    exact absurd (h.longest ds hds) (Nat.not_le.mpr (hC.flatten_length_lt hds.words hpre hlt))
  · exact hC.prefix_of_length_le h.toBegins hds hle

theorem Longest.unique {ds : List (List α)} (h : Longest C limit s cs)
    (hds : Longest C limit s ds) : cs = ds := by
  have h1 := h.isInitial hC hds.toBegins
  have h2 := hds.isInitial hC h.toBegins
  exact h2.eq_of_length (Nat.le_antisymm h2.length_le h1.length_le)

/-- A sequence is the longest one where it cannot go on. -/
theorem longest_of_stops (h : Begins C limit s cs)
    (hstops : limit = some cs.length ∨ ∀ c, C c → ¬ cs.flatten ++ c <+: s) :
    Longest C limit s cs := by
  refine ⟨h, fun ds hds => ?_⟩
  rcases Nat.lt_or_ge cs.length ds.length with hlt | hle
  · obtain ⟨es, rfl⟩ := hC.prefix_of_length_le hds h (Nat.le_of_lt hlt)
    rcases hstops with hlimit | hnone
    · exact absurd (hds.within _ hlimit) (Nat.not_le.mpr hlt)
    · cases es with
      | nil => rw [append_nil] at hlt; exact absurd hlt (Nat.lt_irrefl _)
      | cons e es =>
        have he : C e := hds.words e (mem_append_right cs mem_cons_self)
        have hpre := hds.isPrefix
        rw [flatten_append, flatten_cons, ← append_assoc] at hpre
        exact absurd ((prefix_append _ es.flatten).trans hpre) (hnone e he)
  · obtain ⟨es, rfl⟩ := hC.prefix_of_length_le h hds hle
    rw [flatten_append, length_append]
    exact Nat.le_add_right _ _

/-- The longest sequence cannot go on. -/
theorem Longest.stops (h : Longest C limit s cs) :
    limit = some cs.length ∨ ∀ c, C c → ¬ cs.flatten ++ c <+: s := by
  by_cases hlimit : limit = some cs.length
  · exact Or.inl hlimit
  · refine Or.inr fun c hc hfollows => ?_
    have hle := h.longest _ (h.toBegins.snoc hc hfollows hlimit)
    have hpos : 0 < c.length := length_pos_of_ne_nil (hC.ne_nil hc)
    rw [flatten_append, flatten_singleton, length_append] at hle
    omega

theorem Longest.cons (hc : C c)
    (h : Longest C (limit.map Nat.pred) s cs) (hlimit : limit ≠ some 0) :
    Longest C limit (c ++ s) (c :: cs) := by
  refine longest_of_stops hC (h.toBegins.cons hc hlimit) ?_
  rcases h.stops hC with hreached | hnone
  · left
    obtain ⟨k, hk, hpred⟩ := Option.map_eq_some_iff.mp hreached
    have hpos : k ≠ 0 := fun heq => hlimit (heq ▸ hk)
    rw [hk, length_cons, ← hpred]
    exact congrArg some (Nat.succ_pred hpos).symm
  · refine Or.inr fun d hd hfollows => hnone d hd ?_
    rw [flatten_cons, append_assoc] at hfollows
    exact (prefix_append_right_inj c).mp hfollows

end Longest

/-! ## 4. A code within a larger one -/

section Within

variable (hD : PrefixCode D) (hCD : ∀ c, C c → D c)
include hD hCD

theorem PrefixCode.mono : PrefixCode C :=
  ⟨fun hc => hD.ne_nil (hCD _ hc), fun hc hd => hD.free (hCD _ hc) (hCD _ hd)⟩

/-- The longest sequence of the smaller code is what the longest one of the larger code has of it
    in front. -/
theorem Longest.takeWhile [DecidablePred C] (h : Longest D limit s cs) :
    Longest C limit s (cs.takeWhile fun c => C c) := by
  have hpre : (cs.takeWhile fun c => C c) <+: cs := takeWhile_prefix _
  have hbegins : Begins C limit s (cs.takeWhile fun c => C c) := by
    refine ⟨fun c hc => ?_, ?_, fun m hm => hpre.length_le.trans (h.within m hm)⟩
    · exact of_decide_eq_true (mem_takeWhile_imp (p := fun c => decide (C c)) hc)
    · obtain ⟨rest, hrest⟩ := hpre
      refine IsPrefix.trans ⟨rest.flatten, ?_⟩ h.isPrefix
      rw [← flatten_append, hrest]
  refine longest_of_stops (hD.mono hCD) hbegins ?_
  by_cases hlimit : limit = some (cs.takeWhile fun c => C c).length
  · exact Or.inl hlimit
  · refine Or.inr fun c hc hfollows => ?_
    -- the word that follows is one of the larger code too, so it is the next one of `cs`
    have hnext := h.isInitial hD ((hbegins.mono hCD).snoc (hCD c hc) hfollows hlimit)
    have hall : ∀ d ∈ cs.takeWhile fun c => C c, decide (C d) = true :=
      fun d hd => mem_takeWhile_imp (p := fun c => decide (C c)) hd
    have htake : (cs.takeWhile fun c => C c) ++ [c] <+: cs.takeWhile fun c => C c := by
      obtain ⟨rest, hrest⟩ := hnext
      conv_rhs => rw [← hrest, append_assoc]
      rw [takeWhile_append_of_pos hall,
        singleton_append,
        takeWhile_cons_of_pos (p := fun c => decide (C c)) (decide_eq_true hc)]
      exact ⟨_, append_assoc _ [c] _⟩
    have hle := htake.length_le
    rw [length_append, length_singleton] at hle
    omega

/-- **The two codes agree** on a list exactly where no word of the larger code alone comes next. -/
theorem Longest.eq_iff {ds : List (List α)} (hcs : Longest C limit s cs)
    (hds : Longest D limit s ds) :
    cs = ds ↔ limit = some cs.length ∨ ∀ d, D d → ¬ C d → ¬ cs.flatten ++ d <+: s := by
  constructor
  · rintro rfl
    rcases hds.stops hD with hlimit | hnone
    · exact Or.inl hlimit
    · exact Or.inr fun d hd _ => hnone d hd
  · intro hstops
    refine Longest.unique hD (longest_of_stops hD (hcs.toBegins.mono hCD) ?_) hds
    rcases hstops with hlimit | hnone
    · exact Or.inl hlimit
    · by_cases hlimit : limit = some cs.length
      · exact Or.inl hlimit
      refine Or.inr fun d hd hfollows => ?_
      by_cases hd' : C d
      · rcases hcs.stops (hD.mono hCD) with h | h
        · exact hlimit h
        · exact h d hd' hfollows
      · exact hnone d hd hd' hfollows

end Within

end OpenCore.Lib
