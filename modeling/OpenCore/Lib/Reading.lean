/-
  File:      OpenCore/Lib/Reading.lean
  Subject:   READERS AND WHAT THEY GIVE: a reader that sees an encoding at the front of its input
             gives the value, and sees the rest of the input afterwards.

  A reader is a computation with a state and early exits. `Sees s l` says that the input still to be
  read in state `s` is `l`; the rules put the reading of a sequence together from its parts
  (`Gives.bind`), and the reading of a list from its items (`Gives.readN`). `Ends` says what holds
  where a reader gives a value at all, `StopsWith` what it stops with where it does not.
-/
import Mathlib

namespace OpenCore

open Prod (fst)

/-- A reader with state `σ` that stops with `ε` or gives an `α`. -/
abbrev ReadM (ε σ α : Type) := ExceptT ε (StateM σ) α

/-- The result of a reader and the state behind it. -/
def ReadM.exec {ε σ α : Type} (m : ReadM ε σ α) (s : σ) : Except ε α × σ := m.run.run s

/-- A step of a reader: a value and the next state. -/
def ReadM.step {ε σ α : Type} (f : σ → σ × α) : ReadM ε σ α :=
  ExceptT.mk fun s => (.ok (f s).2, (f s).1)

/-- Read `n` items one after another. -/
def readN {ε σ α : Type} : Nat → ReadM ε σ α → ReadM ε σ (List α)
  | 0, _ => pure []
  | n + 1, m => do
      let a ← m
      let l ← readN n m
      return a :: l

variable {ε σ ι α β : Type}

theorem exec_pure (v : α) (s : σ) : (pure v : ReadM ε σ α).exec s = (.ok v, s) := rfl

theorem exec_throw (x : ε) (s : σ) : (throw x : ReadM ε σ α).exec s = (.error x, s) := rfl

theorem exec_step (f : σ → σ × α) (s : σ) :
    (ReadM.step f : ReadM ε σ α).exec s = (.ok (f s).2, (f s).1) := rfl

theorem exec_get (s : σ) : (get : ReadM ε σ σ).exec s = (.ok s, s) := rfl

theorem exec_set (t s : σ) : (set t : ReadM ε σ PUnit).exec s = (.ok ⟨⟩, t) := rfl

theorem exec_modify (f : σ → σ) (s : σ) :
    (modify f : ReadM ε σ PUnit).exec s = (.ok ⟨⟩, f s) := rfl

theorem exec_bind (m : ReadM ε σ α) (k : α → ReadM ε σ β) (s : σ) :
    (m >>= k).exec s = match m.exec s with
      | (.ok a, s') => (k a).exec s'
      | (.error x, s') => (.error x, s') := by
  unfold ReadM.exec ExceptT.run StateT.run
  simp only [bind, ExceptT.bind, ExceptT.mk, StateT.bind, ExceptT.bindCont]
  cases m s with
  | mk r s' => cases r <;> rfl

variable {Sees : σ → List ι → Prop}

/-- In front of whatever input, the reader takes exactly `enc` and gives `v`. -/
def Gives (Sees : σ → List ι → Prop) (m : ReadM ε σ α) (enc : List ι) (v : α) : Prop :=
  ∀ s rest, Sees s (enc ++ rest) → ∃ s', m.exec s = (.ok v, s') ∧ Sees s' rest

theorem Gives.pure (v : α) : Gives Sees (Pure.pure v : ReadM ε σ α) [] v :=
  fun s _ h => ⟨s, rfl, h⟩

variable {v : α}

variable {m : ReadM ε σ α}

/-- **The rule for sequences.** -/
theorem Gives.bind {k : α → ReadM ε σ β} {e₁ e₂ : List ι} {w : β}
    (h₁ : Gives Sees m e₁ v) (h₂ : Gives Sees (k v) e₂ w) : Gives Sees (m >>= k) (e₁ ++ e₂) w := by
  intro s rest h
  rw [List.append_assoc] at h
  obtain ⟨s₁, hm, hs₁⟩ := h₁ s _ h
  obtain ⟨s₂, hk, hs₂⟩ := h₂ s₁ _ hs₁
  refine ⟨s₂, ?_, hs₂⟩
  rw [exec_bind, hm]
  exact hk

theorem Gives.bind_pure {f : α → β} {e : List ι}
    (h : Gives Sees m e v) : Gives Sees (m >>= fun a => Pure.pure (f a)) e (f v) := by
  have := h.bind (k := fun a => (Pure.pure (f a) : ReadM ε σ β)) (.pure (f v))
  rw [List.append_nil] at this
  exact this

theorem Gives.step {f : σ → σ × α} {enc : List ι} {v : α}
    (h : ∀ s rest, Sees s (enc ++ rest) → (f s).2 = v ∧ Sees (f s).1 rest) :
    Gives Sees (ReadM.step f : ReadM ε σ α) enc v := by
  intro s rest hs
  obtain ⟨hv, hs'⟩ := h s rest hs
  exact ⟨_, by rw [exec_step, hv], hs'⟩

/-- **The rule for lists.** -/
theorem Gives.readN {e : α → List ι} {l : List α}
    (h : ∀ a ∈ l, Gives Sees m (e a) a) :
    Gives Sees (readN l.length m) (l.flatMap e) l := by
  induction l with
  | nil => exact .pure []
  | cons a l ih =>
    exact (h a List.mem_cons_self).bind
      ((ih fun b hb => h b (List.mem_cons_of_mem a hb)).bind_pure)

/-! Partial correctness: what holds where a reader gives a value. -/

/-- When the reader gives a value from `s`, that value and the state behind it satisfy `Q`. -/
def ReadM.Ends (m : ReadM ε σ α) (s : σ) (Q : α → σ → Prop) : Prop :=
  ∀ v s', m.exec s = (.ok v, s') → Q v s'

variable {Q : α → σ → Prop}

namespace ReadM.Ends

variable {m : ReadM ε σ α} {k : α → ReadM ε σ β} {s : σ}

theorem mono {R : α → σ → Prop} (h : m.Ends s Q) (hQR : ∀ v s', Q v s' → R v s') :
    m.Ends s R := fun v s' he => hQR v s' (h v s' he)

theorem pure (h : Q v s) :
    ReadM.Ends (Pure.pure v : ReadM ε σ α) s Q := by
  intro w s' he
  obtain ⟨hv, rfl⟩ := Prod.mk.inj ((exec_pure v s).symm.trans he)
  obtain rfl := Except.ok.inj hv
  exact h

theorem throw (x : ε) :
    ReadM.Ends (MonadExcept.throw x : ReadM ε σ α) s Q := by
  intro w s' he
  have := congrArg fst ((exec_throw x s).symm.trans he)
  cases this

theorem step {f : σ → σ × α} {Q : α → σ → Prop} (h : Q (f s).2 (f s).1) :
    ReadM.Ends (ReadM.step f : ReadM ε σ α) s Q := by
  intro w s' he
  obtain ⟨hv, rfl⟩ := Prod.mk.inj ((exec_step f s).symm.trans he)
  obtain rfl := Except.ok.inj hv
  exact h

/-- **The rule for sequences.** -/
theorem bind {Q : β → σ → Prop} (h : m.Ends s fun a s₁ => (k a).Ends s₁ Q) :
    (m >>= k).Ends s Q := by
  intro w s' he
  rw [exec_bind] at he
  cases hm : m.exec s with
  | mk x s₁ =>
    rw [hm] at he
    cases x with
    | ok a => exact h a s₁ hm w s' he
    | error x => cases congrArg fst he

theorem and {R : α → σ → Prop} (hQ : m.Ends s Q) (hR : m.Ends s R) :
    m.Ends s fun v s' => Q v s' ∧ R v s' := fun v s' he => ⟨hQ v s' he, hR v s' he⟩

theorem imp {P : Prop} (h : P → m.Ends s Q) :
    m.Ends s fun v s' => P → Q v s' := fun v s' he hP => h hP v s' he

/-- What is known of the state only later on. -/
theorem all {κ : Type} {P : κ → Prop} {Q : κ → α → σ → Prop} (h : ∀ i, P i → m.Ends s (Q i)) :
    m.Ends s fun v s' => ∀ i, P i → Q i v s' := fun v s' he i hi => h i hi v s' he

theorem ite {m₁ m₂ : ReadM ε σ α} {p : Prop} [Decidable p]
    (h₁ : p → m₁.Ends s Q) (h₂ : ¬ p → m₂.Ends s Q) : (if p then m₁ else m₂).Ends s Q := by
  by_cases hp : p
  · rw [if_pos hp]
    exact h₁ hp
  · rw [if_neg hp]
    exact h₂ hp

end ReadM.Ends

/-- What gives a value in one way ends with it. -/
theorem Gives.ends {enc rest : List ι} {s : σ}
    (h : Gives Sees m enc v) (hs : Sees s (enc ++ rest)) :
    m.Ends s fun w s' => w = v ∧ Sees s' rest := by
  obtain ⟨s₁, hm, hs₁⟩ := h s rest hs
  intro w s' he
  obtain ⟨hv, rfl⟩ := Prod.mk.inj (hm.symm.trans he)
  obtain rfl := Except.ok.inj hv
  exact ⟨rfl, hs₁⟩

/-! Where a reader gives no value. -/

/-- What the reader stops with, from whatever state, satisfies `P`. -/
def ReadM.StopsWith (m : ReadM ε σ α) (P : ε → Prop) : Prop :=
  ∀ s x s', m.exec s = (.error x, s') → P x

namespace ReadM.StopsWith

variable {m : ReadM ε σ α} {k : α → ReadM ε σ β} {P : ε → Prop}

theorem pure (v : α) : ReadM.StopsWith (Pure.pure v : ReadM ε σ α) P := by
  intro s x s' h
  cases congrArg fst ((exec_pure v s).symm.trans h)

theorem step (f : σ → σ × α) : ReadM.StopsWith (ReadM.step f : ReadM ε σ α) P := by
  intro s x s' h
  cases congrArg fst ((exec_step f s).symm.trans h)

theorem throw {x : ε} (hx : P x) :
    ReadM.StopsWith (MonadExcept.throw x : ReadM ε σ α) P := by
  intro s y s' h
  obtain rfl := Except.error.inj (congrArg fst ((exec_throw x s).symm.trans h))
  exact hx

/-- **The rule for sequences.** -/
theorem bind (hm : m.StopsWith P) (hk : ∀ v, (k v).StopsWith P) : (m >>= k).StopsWith P := by
  intro s x s' h
  rw [exec_bind] at h
  cases hr : m.exec s with
  | mk r s₁ =>
    rw [hr] at h
    cases r with
    | ok v => exact hk v s₁ x s' h
    | error y =>
      obtain rfl := Except.error.inj (congrArg fst h)
      exact hm s y s₁ hr

theorem ite {m₁ m₂ : ReadM ε σ α} {p : Prop} [Decidable p] (h₁ : m₁.StopsWith P)
    (h₂ : m₂.StopsWith P) : (if p then m₁ else m₂).StopsWith P := by
  split
  · exact h₁
  · exact h₂

/-- **The rule for lists.** -/
theorem readN (n : Nat) (hm : m.StopsWith P) : (OpenCore.readN n m).StopsWith P := by
  induction n with
  | zero => exact .pure []
  | succ n ih => exact hm.bind fun _ => ih.bind fun _ => .pure _

end ReadM.StopsWith

end OpenCore
