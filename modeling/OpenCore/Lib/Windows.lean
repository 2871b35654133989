/-
  File:      OpenCore/Lib/Windows.lean
  Subject:   Half-open windows of positions: when two are apart, a sorted list of windows apart from
             each other, and a new window cut down to fit between them.
-/
import Mathlib

namespace OpenCore

/-- The positions from `start` on, `size` of them. -/
structure Window where
  start : Nat
  size : Nat
  deriving DecidableEq, Repr

namespace Window

def range (w : Window) : Set Nat := Set.Ico w.start (w.start + w.size)

/-- No common position. -/
def Apart (v w : Window) : Prop := Disjoint v.range w.range

theorem apart_iff {v w : Window} :
    v.Apart w ↔ min (v.start + v.size) (w.start + w.size) ≤ max v.start w.start :=
  Set.Ico_disjoint_Ico

instance (v w : Window) : Decidable (v.Apart w) := decidable_of_iff _ apart_iff.symm

theorem Apart.symm {v w : Window} (h : v.Apart w) : w.Apart v := Disjoint.symm h

theorem mem_range {w : Window} {pos : Nat} :
    pos ∈ w.range ↔ w.start ≤ pos ∧ pos < w.start + w.size := Iff.rfl

instance (w : Window) (pos : Nat) : Decidable (pos ∈ w.range) := decidable_of_iff _ mem_range.symm

/-- One of the two starts in the other. -/
def Meets (v w : Window) : Prop := w.start ∈ v.range ∨ v.start ∈ w.range

instance (v w : Window) : Decidable (v.Meets w) := inferInstanceAs (Decidable (_ ∨ _))

/-- Windows that do not start in each other are apart. -/
theorem apart_of_not_meets {v w : Window} (h : ¬ v.Meets w) : v.Apart w := by
  rw [Meets, mem_range, mem_range] at h
  rw [apart_iff]
  omega

/-! ## Sorted windows -/

/-- In the order of their starts. -/
def Sorted (ws : List Window) : Prop := ws.Pairwise fun v w => v.start ≤ w.start

/-- A new window in front of the first one that does not start before it. -/
def insertSorted (w : Window) (ws : List Window) : List Window :=
  ws.orderedInsert (fun v w => v.start ≤ w.start) w

theorem insertSorted_perm (w : Window) (ws : List Window) :
    (insertSorted w ws).Perm (w :: ws) := List.perm_orderedInsert _ w ws

theorem Sorted.insertSorted {ws : List Window} (h : Sorted ws) (w : Window) :
    Sorted (insertSorted w ws) :=
  have : Std.Total fun v w : Window => v.start ≤ w.start := ⟨fun _ _ => Nat.le_total _ _⟩
  have : IsTrans Window fun v w => v.start ≤ w.start := ⟨fun _ _ _ => Nat.le_trans⟩
  List.Pairwise.orderedInsert w ws h

/-- Inserting by position is inserting in order. -/
theorem take_cons_drop_findIdx (w : Window) (ws : List Window) :
    ws.take (ws.findIdx fun v => decide (w.start ≤ v.start)) ++
      w :: ws.drop (ws.findIdx fun v => decide (w.start ≤ v.start)) = insertSorted w ws := by
  induction ws with
  | nil => rfl
  | cons v ws ih =>
    rw [List.findIdx_cons, insertSorted, List.orderedInsert_cons]
    by_cases h : w.start ≤ v.start
    · simp [h]
    · simpa [h, insertSorted] using ih

/-! ## A window that fits between the others -/

/-- The size of a window at `pos`, at most `size`, that ends where the next one starts. -/
def clip (pos size : Nat) : List Window → Nat
  | [] => size
  | w :: ws =>
    if pos + size ≤ w.start then size
    else if pos ≤ w.start then w.start - pos
    else clip pos size ws

/-- **Clipping** at a free position gives a window apart from all the others. -/
theorem clip_apart {pos size : Nat} {ws : List Window} (hs : Sorted ws)
    (hfree : ∀ w ∈ ws, pos ∉ w.range) :
    ∀ w ∈ ws, (Window.mk pos (clip pos size ws)).Apart w := by
  induction ws with
  | nil => nofun
  | cons v ws ih =>
    obtain ⟨hv, hs⟩ := List.pairwise_cons.mp hs
    have hpos := hfree v List.mem_cons_self
    rw [mem_range] at hpos
    intro w hw
    rw [clip, apart_iff]
    have hle : w = v ∨ v.start ≤ w.start := (List.mem_cons.mp hw).imp id (hv w)
    split
    · rcases hle with rfl | hle <;> dsimp only <;> omega
    · split
      · rcases hle with rfl | hle <;> dsimp only <;> omega
      · rcases List.mem_cons.mp hw with rfl | hw
        · dsimp only
          omega
        · have := ih hs (fun w hw => hfree w (List.mem_cons_of_mem v hw)) w hw
          rwa [apart_iff] at this

end Window

end OpenCore
