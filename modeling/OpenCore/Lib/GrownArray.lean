/-
  File:      OpenCore/Lib/GrownArray.lean
  Subject:   An array whose first places are part of its object and whose other places are
             allocated when they are first needed.

  Not all of the places are in use: `num` says how many are. What the code has to keep is that the
  second block is there where it is needed and as long as the limit says (`Fits`). Under it reading
  is total: the elements are a list.

  **Main result**: `Fits.get_next`.
-/
import Mathlib

namespace OpenCore.Lib

/-- `front` is part of the object, `back` a block of its own. -/
structure GrownArray (α : Type) where
  max : Nat
  num : Nat
  front : List α
  back : Option (List α)
  deriving DecidableEq

namespace GrownArray

variable {α : Type} (alloc : (n : Nat) → Vector α n)

/-! ## 1. The operations -/

/-- No place in use, and no block. -/
def new (front : List α) (max : Nat) : GrownArray α := ⟨max, 0, front, none⟩

/-- All the places there are. -/
def places (g : GrownArray α) : List α := g.front ++ g.back.getD []

/-- The places in use. -/
def elems (g : GrownArray α) : List α := g.places.take g.num

/-- The block, allocated now where there is none. -/
def backing (g : GrownArray α) : List α :=
  g.back.getD (alloc (g.max - g.front.length)).toList

/-- An element in use, to be read. -/
def read (g : GrownArray α) (index : Nat) : Option α :=
  if g.num ≤ index then none else g.places[index]?

/-- A place to be written, up to the limit. It is in use from now on, and so are those before. -/
def get (g : GrownArray α) (index : Nat) : Option (GrownArray α) :=
  if g.max ≤ index then none
  else
    let num := if g.num ≤ index then index + 1 else g.num
    if index < g.front.length then some { g with num := num }
    else some { g with num := num, back := some (g.backing alloc) }

/-- Writing to a place. -/
def store (g : GrownArray α) (index : Nat) (a : α) : GrownArray α :=
  if index < g.front.length then { g with front := g.front.set index a }
  else { g with back := g.back.map (·.set (index - g.front.length) a) }

/-- A greater limit, and a new block that keeps nothing of the old one. -/
def growDropping (g : GrownArray α) (newMax : Nat) : GrownArray α :=
  if g.back.isSome then
    if g.max < newMax then
      if g.front.length < newMax then
        { g with max := newMax, back := some (alloc (newMax - g.front.length)).toList }
      else { g with max := newMax }
    else g
  else if g.front.length < newMax then
    { g with max := newMax, back := some (alloc (newMax - g.front.length)).toList }
  else g

/-- A greater limit, and a new block that begins with the elements of the old one. -/
def growKeeping (g : GrownArray α) (newMax : Nat) : GrownArray α :=
  if g.max < newMax then
    if g.front.length < newMax then
      let kept := (g.back.getD []).take (g.num - g.front.length)
      let fresh := (alloc (newMax - g.front.length)).toList
      { g with max := newMax, back := some (kept ++ fresh.drop kept.length) }
    else { g with max := newMax }
  else g

/-! ## 2. What every operation keeps -/

/-- The number in use is within the limit, the block as long as the limit says, and there where an
    element in use is in it. -/
structure Fits (g : GrownArray α) : Prop where
  num_le : g.num ≤ g.max
  length_back : ∀ b, g.back = some b → b.length = g.max - g.front.length
  back_isSome : g.front.length < g.num → g.back.isSome

variable {alloc} {g g' : GrownArray α} {index increment newMax : Nat} {a : α}

theorem new_fits (front : List α) (max : Nat) : (new front max).Fits :=
  ⟨Nat.zero_le _, fun b hb => absurd hb (Option.some_ne_none b).symm,
    fun h => absurd h (Nat.not_lt_zero _)⟩

section

variable (hg : g.Fits)
include hg

theorem Fits.length_backing :
    (g.backing alloc).length = g.max - g.front.length := by
  unfold backing
  cases hb : g.back with
  | none => exact (alloc _).length_toList
  | some b => exact hg.length_back b hb

theorem Fits.get (h : g.get alloc index = some g') : g'.Fits := by
  unfold GrownArray.get at h
  split at h
  · cases h
  rename_i hindex
  have hnum : (if g.num ≤ index then index + 1 else g.num) ≤ g.max := by
    have := hg.num_le
    split <;> omega
  dsimp only at h
  split at h
  · rename_i hfront
    cases h
    refine ⟨hnum, hg.length_back, fun hlt => hg.back_isSome ?_⟩
    dsimp only at hlt
    split at hlt
    · omega
    · exact hlt
  · cases h
    refine ⟨hnum, fun b hb => ?_, fun _ => rfl⟩
    cases hb
    exact hg.length_backing

theorem Fits.store : (g.store index a).Fits := by
  unfold GrownArray.store
  split
  · refine ⟨hg.num_le, fun b hb => ?_, fun hlt => hg.back_isSome ?_⟩
    · rw [List.length_set]
      exact hg.length_back b hb
    · rwa [List.length_set] at hlt
  · refine ⟨hg.num_le, fun b hb => ?_, fun hlt => ?_⟩
    · obtain ⟨b', hb', rfl⟩ := Option.map_eq_some_iff.mp hb
      rw [List.length_set]
      exact hg.length_back b' hb'
    · rw [Option.isSome_map]
      exact hg.back_isSome hlt

theorem Fits.growDropping : (g.growDropping alloc newMax).Fits := by
  have hnum := hg.num_le
  unfold GrownArray.growDropping
  split
  · rename_i hback
    split
    · rename_i hmax
      split
      · refine ⟨by dsimp only; omega, fun b hb => ?_, fun _ => rfl⟩
        cases hb
        exact (alloc _).length_toList
      · rename_i hfront
        refine ⟨by dsimp only; omega, fun b hb => ?_, fun _ => hback⟩
        have hlen := hg.length_back b hb
        dsimp only
        omega
    · exact hg
  · rename_i hback
    have hfew : ¬ g.front.length < g.num := fun h => hback (hg.back_isSome h)
    split
    · refine ⟨by dsimp only; omega, fun b hb => ?_, fun _ => rfl⟩
      cases hb
      exact (alloc _).length_toList
    · exact hg

theorem Fits.growKeeping : (g.growKeeping alloc newMax).Fits := by
  have hnum := hg.num_le
  unfold GrownArray.growKeeping
  split
  · rename_i hmax
    split
    · refine ⟨by dsimp only; omega, fun b hb => ?_, fun _ => rfl⟩
      cases hb
      dsimp only
      rw [List.length_append, List.length_drop, Vector.length_toList, List.length_take]
      omega
    · rename_i hfront
      refine ⟨by dsimp only; omega, fun b hb => ?_, fun hlt => hg.back_isSome hlt⟩
      have hlen := hg.length_back b hb
      dsimp only
      omega
  · exact hg

/-! ## 3. Reading -/

theorem Fits.num_le_places : g.num ≤ g.places.length := by
  unfold places
  rw [List.length_append]
  by_cases h : g.front.length < g.num
  · obtain ⟨b, hb⟩ := Option.isSome_iff_exists.mp (hg.back_isSome h)
    have hlen := hg.length_back b hb
    have hnum := hg.num_le
    rw [hb, Option.getD_some]
    omega
  · omega

theorem Fits.length_elems : g.elems.length = g.num := by
  unfold elems
  rw [List.length_take, Nat.min_eq_left hg.num_le_places]

end

theorem read_eq (g : GrownArray α) (index : Nat) : g.read index = g.elems[index]? := by
  unfold read elems
  split
  · rename_i h
    exact (List.getElem?_eq_none ((List.length_take_le _ _).trans h)).symm
  · rename_i h
    rw [List.getElem?_take_of_lt (Nat.lt_of_not_le h)]

/-- **Every element in use is read**, one after the other. -/
theorem Fits.read_all (hg : g.Fits) :
    (List.range g.num).map g.read = g.elems.map some := by
  refine List.ext_getElem? fun i => ?_
  rw [List.getElem?_map, List.getElem?_map]
  by_cases h : i < g.num
  · rw [List.getElem?_range h, Option.map_some, read_eq,
      List.getElem?_eq_getElem (by rw [hg.length_elems]; exact h)]
    rfl
  · rw [List.getElem?_eq_none (by rw [List.length_range]; omega),
      List.getElem?_eq_none (by rw [hg.length_elems]; omega)]
    rfl

/-- A loop that reads the elements by their indices is one over the elements. -/
theorem Fits.forM_read {m : Type → Type} [Monad m] [LawfulMonad m] (hg : g.Fits)
    (f : Option α → m PUnit) :
    (forM (List.range g.num) fun i => f (g.read i)) = forM g.elems fun a => f (some a) := by
  rw [← List.forM_map (g := g.read) (f := f), hg.read_all, List.forM_map]

/-! ## 4. One element more -/

/-- The places behind the elements in use are as new. -/
def Blank (g : GrownArray α) (x : α) : Prop := ∀ y ∈ g.places.drop g.num, y = x

theorem places_store (index : Nat) : (g.store index a).places = g.places.set index a := by
  unfold store places
  split
  · rename_i h
    rw [List.set_append_left _ _ h]
  · rename_i h
    rw [List.set_append_right _ _ (Nat.le_of_not_lt h)]
    cases g.back <;> rfl

theorem num_store (index : Nat) : (g.store index a).num = g.num := by
  unfold store
  split <;> rfl

theorem max_store (index : Nat) : (g.store index a).max = g.max := by
  unfold store
  split <;> rfl

/-- The array with one element more at the end. -/
structure OneMore (g : GrownArray α) (a : α) (g' : GrownArray α) : Prop where
  fits : g'.Fits
  max_eq : g'.max = g.max
  num_eq : g'.num = g.num + 1
  elems_eq : g'.elems = g.elems ++ [a]

variable (alloc) in
/-- A place is handed out with what was in the places before, and new ones behind. -/
theorem get_next_places (h : g.num < g.max) :
    ∃ g', g.get alloc g.num = some g' ∧ g'.max = g.max ∧ g'.num = g.num + 1 ∧
      g.places <+: g'.places ∧
      ∀ x, (∀ n, alloc n = Vector.replicate n x) →
        ∀ y ∈ g'.places.drop g.places.length, y = x := by
  unfold get
  rw [if_neg (Nat.not_le.mpr h), if_pos (Nat.le_refl _)]
  dsimp only
  split
  · refine ⟨_, rfl, rfl, rfl, List.prefix_refl _, fun x _ y hy => ?_⟩
    rw [places, places, List.drop_length] at hy
    cases hy
  · refine ⟨_, rfl, rfl, rfl, ?_, fun x halloc y hy => ?_⟩
    · unfold places backing
      cases g.back with
      | none => exact (List.prefix_append_right_inj _).mpr List.nil_prefix
      | some b => exact List.prefix_refl _
    · unfold places backing at hy
      cases hb : g.back with
      | none =>
        rw [hb, halloc] at hy
        dsimp only [Option.getD] at hy
        rw [List.append_nil, List.drop_left, Vector.toList_replicate] at hy
        exact List.eq_of_mem_replicate hy
      | some b =>
        rw [hb] at hy
        dsimp only [Option.getD] at hy
        rw [List.drop_length] at hy
        cases hy

variable (alloc) in
/-- **The place behind the last element**: it is there, and what is written to it is one more
    element. -/
theorem Fits.get_next (hg : g.Fits) (h : g.num < g.max) :
    ∃ g' y, g.get alloc g.num = some g' ∧ g'.places[g.num]? = some y ∧
      (∀ a, g.OneMore a (g'.store g.num a)) ∧
      (∀ x, (∀ n, alloc n = Vector.replicate n x) → g.Blank x →
        y = x ∧ ∀ a, (g'.store g.num a).Blank x) := by
  obtain ⟨g', hget, hmax, hnum, ⟨new, hnew⟩, hfresh⟩ := get_next_places alloc h
  have hfits := hg.get hget
  have hroom : g.num < g'.places.length := by
    have := hfits.num_le_places
    omega
  refine ⟨g', g'.places[g.num], hget, List.getElem?_eq_getElem hroom, fun a => ?_, ?_⟩
  · have htake : g'.places.take g.num = g.places.take g.num := by
      rw [← hnew, List.take_append_of_le_length hg.num_le_places]
    refine ⟨hfits.store, (max_store _).trans hmax, (num_store _).trans hnum, ?_⟩
    unfold elems
    rw [num_store, hnum, places_store,
      List.take_succ_eq_append_getElem (by rw [List.length_set]; exact hroom),
      List.take_set_of_le (Nat.le_refl _), List.getElem_set_self, htake]
  · intro x halloc hblank
    have hrest : ∀ y ∈ g'.places.drop g.num, y = x := by
      intro y hy
      rw [← hnew, List.drop_append_of_le_length hg.num_le_places] at hy
      rcases List.mem_append.mp hy with hy | hy
      · exact hblank y hy
      · refine hfresh x halloc y ?_
        rw [← hnew, List.drop_left]
        exact hy
    rw [List.drop_eq_getElem_cons hroom] at hrest
    refine ⟨hrest _ List.mem_cons_self, fun a y hy => ?_⟩
    rw [num_store, hnum, places_store, List.drop_set_of_lt (Nat.lt_succ_self _)] at hy
    exact hrest y (List.mem_cons_of_mem _ hy)

/-! ## 5. Room for elements -/

/-- No element in use, and room for some. -/
structure Ready (g : GrownArray α) (room : Nat) : Prop where
  fits : g.Fits
  num_eq : g.num = 0
  room_le : room ≤ g.max

theorem Ready.elems_eq (h : g.Ready newMax) : g.elems = [] := by
  unfold elems
  rw [h.num_eq, List.take_zero]

theorem Ready.room (h : g.Ready newMax) : g.num + newMax ≤ g.max := by
  rw [h.num_eq, Nat.zero_add]
  exact h.room_le

theorem ready_growDropping {x : α} {max : Nat} (h : newMax ≤ max) :
    ((new [x] max).growDropping alloc newMax).Ready newMax := by
  refine ⟨(new_fits [x] max).growDropping, ?_, ?_⟩
  · unfold growDropping
    rw [if_neg (show ¬ (new [x] max).back.isSome = true from Bool.false_ne_true)]
    split <;> rfl
  · unfold growDropping
    rw [if_neg (show ¬ (new [x] max).back.isSome = true from Bool.false_ne_true)]
    split
    · exact Nat.le_refl _
    · exact h

/-- An array that grows before an element is put into it has places as new only. -/
theorem ready_growKeeping {x : α} {max : Nat} (halloc : ∀ n, alloc n = Vector.replicate n x) :
    ((new [x] max).growKeeping alloc newMax).Ready newMax ∧
      ((new [x] max).growKeeping alloc newMax).Blank x := by
  refine ⟨⟨(new_fits [x] max).growKeeping, ?_, ?_⟩, fun y hy => ?_⟩
  · unfold growKeeping
    split
    · split <;> rfl
    · rfl
  · unfold growKeeping
    split
    · split <;> exact Nat.le_refl _
    · rename_i h
      exact Nat.le_of_not_lt h
  · have hy := List.mem_of_mem_drop hy
    unfold growKeeping at hy
    split at hy
    · split at hy
      · rcases List.mem_append.mp hy with hy | hy
        · exact List.mem_singleton.mp hy
        · rw [halloc, Vector.toList_replicate] at hy
          exact List.eq_of_mem_replicate hy
      · rcases List.mem_append.mp hy with hy | hy
        · exact List.mem_singleton.mp hy
        · cases hy
    · rcases List.mem_append.mp hy with hy | hy
      · exact List.mem_singleton.mp hy
      · cases hy

end GrownArray

end OpenCore.Lib
