/-
  File:      OpenCore/Lib/Run.lean
  Subject:   RUNS OF A LABELLED MACHINE, and the two rules every safety result of this
             development goes through.

  A machine is a step relation `step : S → L → S → Prop`. A run is a list of labels with a chain
  of steps. The invariant rule asks for one step only; `Run.restrict` cuts a machine down to the
  steps that meet a side condition, which is how "every step of the run meets C" is said.
-/
import Mathlib

namespace OpenCore

open List Option

variable {S L : Type*}

/-- A run of `step` from a state to a state, with the labels of its steps in order. -/
inductive Run (step : S → L → S → Prop) (s₀ : S) : List L → S → Prop where
  | start : Run step s₀ [] s₀
  | step {ls : List L} {s s' : S} {l : L} (h : Run step s₀ ls s) (hs : step s l s') :
      Run step s₀ (ls ++ [l]) s'

namespace Run

variable {step : S → L → S → Prop} {s₀ : S}

/-- **The invariant rule.** What holds at the start and is kept by one step holds of every state
    a run reaches. -/
theorem invariant {I : S → Prop} (h0 : I s₀) (hstep : ∀ s l s', I s → step s l s' → I s')
    {ls : List L} {s : S} (hr : Run step s₀ ls s) : I s := by
  induction hr with
  | start => exact h0
  | step _ hs ih => exact hstep _ _ _ ih hs

theorem of_concat {ls : List L} {l : L} {s : S} (hr : Run step s₀ (ls ++ [l]) s) :
    ∃ s₁, Run step s₀ ls s₁ ∧ step s₁ l s := by
  generalize h : ls ++ [l] = ls' at hr
  cases hr with
  | start => exact absurd h (append_ne_nil_of_right_ne_nil ls (cons_ne_nil l []))
  | step hr hs =>
    obtain ⟨rfl, h2⟩ := append_inj' h rfl
    cases h2
    exact ⟨_, hr, hs⟩

/-- A run without steps stays where it is. -/
theorem eq_of_nil {s : S} (hr : Run step s₀ [] s) : s = s₀ := by
  generalize h : ([] : List L) = ls at hr
  cases hr with
  | start => rfl
  | step => exact absurd h.symm (append_ne_nil_of_right_ne_nil _ (cons_ne_nil _ []))

/-- A run of a smaller machine is a run of a larger one. -/
theorem mono {step' : S → L → S → Prop} (hm : ∀ s l s', step s l s' → step' s l s')
    {ls : List L} {s : S} (hr : Run step s₀ ls s) : Run step' s₀ ls s := by
  induction hr with
  | start => exact .start
  | step _ hs ih => exact .step ih (hm _ _ _ hs)

/-- **The simulation rule.** Where each step of the concrete machine is matched by an abstract
    step with the same label, each run is matched by an abstract run with the same labels. -/
theorem simulate {S' : Type*} {A : S' → L → S' → Prop} {t : S'} {R : S → S' → Prop}
    (h0 : R s₀ t)
    (hstep : ∀ s l s' t, R s t → step s l s' → ∃ t', A t l t' ∧ R s' t')
    {ls : List L} {s : S} (hr : Run step s₀ ls s) : ∃ t', Run A t ls t' ∧ R s t' := by
  induction hr with
  | start => exact ⟨t, .start, h0⟩
  | step _ hs ih =>
    obtain ⟨u, hru, hR⟩ := ih
    obtain ⟨u', hu, hR'⟩ := hstep _ _ _ _ hR hs
    exact ⟨u', .step hru hu, hR'⟩

end Run

/-- Running a list of labels on a machine that is a partial function. -/
def execAll (f : S → L → Option S) : S → List L → Option S
  | s, [] => some s
  | s, l :: ls => (f s l).bind fun s' => execAll f s' ls

/-- The step relation of a partial function. -/
def stepsOf (f : S → L → Option S) (s : S) (l : L) (s' : S) : Prop := f s l = some s'

variable {ls : List L}

variable {step : S → L → S → Prop}

theorem Run.cons {s₀ s₁ s : S} {l : L}
    (hs : step s₀ l s₁) (hr : Run step s₁ ls s) : Run step s₀ (l :: ls) s := by
  induction hr with
  | start =>
    show Run step s₀ ([] ++ [l]) _
    exact .step .start hs
  | step _ hs' ih => exact .step ih hs'

variable {f : S → L → Option S}

theorem Run.of_execAll {s s' : S}
    (h : execAll f s ls = some s') : Run (stepsOf f) s ls s' := by
  induction ls generalizing s with
  | nil => cases h; exact .start
  | cons l ls ih =>
    obtain ⟨s₁, h1, h2⟩ := bind_eq_some_iff.mp h
    exact .cons h1 (ih h2)

variable {s : S}

theorem execAll_concat {l : L} :
    execAll f s (ls ++ [l]) = (execAll f s ls).bind fun s' => f s' l := by
  induction ls generalizing s with
  | nil =>
    show (f s l).bind (fun s' => some s') = f s l
    exact bind_fun_some _
  | cons k ls ih =>
    rw [cons_append, execAll, execAll, bind_assoc]
    exact congrArg _ (funext fun s' => ih)

theorem Run.execAll_eq {s s' : S}
    (hr : Run (stepsOf f) s ls s') : execAll f s ls = some s' := by
  induction hr with
  | start => rfl
  | step _ hs ih =>
    rw [execAll_concat, ih, bind_some]
    exact hs

/-- The steps of `step` taken where `ok` holds of the state before the step and the label. -/
def onlyWhen (ok : S → L → Prop) (step : S → L → S → Prop) (s : S) (l : L) (s' : S) : Prop :=
  ok s l ∧ step s l s'

variable {ok : S → L → Prop}

/-- Every run of the restricted machine is a run of the machine. -/
theorem Run.of_onlyWhen {s₀ s : S}
    (hr : Run (onlyWhen ok step) s₀ ls s) : Run step s₀ ls s :=
  hr.mono fun _ _ _ h => h.2

/-- A run whose steps are all taken where `ok` holds is a run of the restricted machine. -/
theorem Run.to_onlyWhen {s₀ s : S}
    (hr : Run step s₀ ls s)
    (hok : ∀ pre l post, ls = pre ++ l :: post → ∀ s₁, Run step s₀ pre s₁ → ok s₁ l) :
    Run (onlyWhen ok step) s₀ ls s := by
  induction hr with
  | start => exact .start
  | @step ls s₁ s₂ l hr hs ih =>
    refine .step (ih fun pre l' post e => hok pre l' (post ++ [l]) ?_) ⟨hok ls l [] rfl s₁ hr, hs⟩
    rw [e, append_assoc, cons_append]

/-- `f` where `ok` holds, undefined elsewhere. -/
def guarded (ok : S → L → Prop) [∀ s l, Decidable (ok s l)] (f : S → L → Option S) (s : S)
    (l : L) : Option S :=
  if ok s l then f s l else none

/-- What the guarded function computes is a run of the restricted machine. -/
theorem Run.of_guarded [∀ s l, Decidable (ok s l)]
    {s s' : S} (h : execAll (guarded ok f) s ls = some s') :
    Run (onlyWhen ok (stepsOf f)) s ls s' := by
  refine (Run.of_execAll h).mono fun s l s' hs => ?_
  unfold stepsOf guarded at hs
  split at hs
  · rename_i hok; exact ⟨hok, hs⟩
  · cases hs

/-- A function that answers requests, as a machine whose labels are the requests with their
    answers. -/
def answering {Q A : Type*} [DecidableEq A] (f : S → Q → Option (S × A)) (s : S) (l : Q × A) :
    Option S :=
  (f s l.1).bind fun r => if r.2 = l.2 then some r.1 else none

theorem answering_eq_some {Q A : Type*} [DecidableEq A] {f : S → Q → Option (S × A)} {s s' : S}
    {q : Q} {a : A} : answering f s (q, a) = some s' ↔ f s q = some (s', a) := by
  unfold answering
  cases f s q with
  | none => simp
  | some r =>
    rw [bind_some, ite_none_right_eq_some]
    constructor
    · rintro ⟨rfl, h⟩
      cases h
      rfl
    · rintro h
      cases h
      exact ⟨rfl, rfl⟩

/-! ## What holds all along a run -/

/-- `P` holds at the start and after every call of the list. -/
def AllStates (f : S → L → Option S) (P : S → Prop) : S → List L → Prop
  | s, [] => P s
  | s, l :: ls => P s ∧ ∀ s', f s l = some s' → AllStates f P s' ls

/-- `ok` holds of every call of the list and the state it is made in. -/
def AllSteps (f : S → L → Option S) (ok : S → L → Prop) : S → List L → Prop
  | _, [] => True
  | s, l :: ls => ∀ s', f s l = some s' → ok s l ∧ AllSteps f ok s' ls

theorem AllStates.head {P : S → Prop}
    (h : AllStates f P s ls) : P s := by
  cases ls with
  | nil => exact h
  | cons => exact h.1

theorem AllStates.mono {P Q : S → Prop} (hPQ : ∀ s, P s → Q s)
    (h : AllStates f P s ls) : AllStates f Q s ls := by
  induction ls generalizing s with
  | nil => exact hPQ s h
  | cons l ls ih => exact ⟨hPQ s h.1, fun s' hf => ih (h.2 s' hf)⟩

/-- **The exact-condition rule.** Where a call keeps `P` exactly when it meets `ok` (from states
    with the invariant `I`), `P` holds all along a run exactly when every call meets `ok`. -/
theorem allStates_iff_allSteps {I P : S → Prop}
    (hI : ∀ s l s', I s → f s l = some s' → I s')
    (hP : ∀ s l s', I s → P s → f s l = some s' → (P s' ↔ ok s l))
    (h0 : I s) (hs : P s) (ls : List L) :
    AllStates f P s ls ↔ AllSteps f ok s ls := by
  induction ls generalizing s with
  | nil => exact iff_of_true hs trivial
  | cons l ls ih =>
    constructor
    · intro h s' hf
      have h' := h.2 s' hf
      have hok := (hP s l s' h0 hs hf).mp h'.head
      exact ⟨hok, (ih (hI s l s' h0 hf) h'.head).mp h'⟩
    · intro h
      refine ⟨hs, fun s' hf => ?_⟩
      obtain ⟨hok, hrest⟩ := h s' hf
      exact (ih (hI s l s' h0 hf) ((hP s l s' h0 hs hf).mpr hok)).mpr hrest

/-- An invariant holds all along every run. -/
theorem AllStates.of_invariant {I : S → Prop}
    (hI : ∀ s l s', I s → f s l = some s' → I s') (h0 : I s) (ls : List L) :
    AllStates f I s ls := by
  induction ls generalizing s with
  | nil => exact h0
  | cons l ls ih => exact ⟨h0, fun s' hf => ih (hI s l s' h0 hf)⟩

/-- A machine whose invariant makes every call defined runs every list of calls to its end. -/
theorem execAll_isSome {I : S → Prop}
    (hI : ∀ s l, I s → ∃ s', f s l = some s' ∧ I s') (h0 : I s) (ls : List L) :
    ∃ s', execAll f s ls = some s' ∧ I s' := by
  induction ls generalizing s with
  | nil => exact ⟨s, rfl, h0⟩
  | cons l ls ih =>
    obtain ⟨s₁, h1, hI1⟩ := hI s l h0
    obtain ⟨s', h2, hI2⟩ := ih hI1
    exact ⟨s', by rw [execAll, h1, bind_some, h2], hI2⟩

/-! ## Two machines that answer requests -/

section Answers

variable {T Q A : Type*}

/-- The answers to a list of requests in order, up to the first that is never answered. -/
def answers (f : S → Q → Option (S × A)) : S → List Q → List (Option A)
  | _, [] => []
  | s, q :: qs =>
    match f s q with
    | none => [none]
    | some (s', a) => some a :: answers f s' qs

/-- `ok` holds of every request of the list and the state it is made in. -/
def AllCalls (f : S → Q → Option (S × A)) (ok : S → Q → Prop) : S → List Q → Prop
  | _, [] => True
  | s, q :: qs => ok s q ∧ ∀ s' a, f s q = some (s', a) → AllCalls f ok s' qs

/-- Two requests with the same answer, or both without one, that lead to related states. -/
def SameAnswer (R : S → T → Prop) (x : Option (S × A)) (y : Option (T × A)) : Prop :=
  x.map Prod.snd = y.map Prod.snd ∧ ∀ s a t b, x = some (s, a) → y = some (t, b) → R s t

variable {R : S → T → Prop}

theorem SameAnswer.of_eq_some {s : S} {t : T} {a : A} (h : R s t) :
    SameAnswer R (some (s, a)) (some (t, a)) := by
  refine ⟨rfl, ?_⟩
  intro s' b t' b' hs ht
  cases hs
  cases ht
  exact h

/-- What is computed from the answers and put into the states keeps the answers the same. -/
theorem SameAnswer.map {S' T' A' : Type*} {R' : S' → T' → Prop}
    {x : Option (S × A)} {y : Option (T × A)} (h : SameAnswer R x y) {i : S → S'} {j : T → T'}
    (hR : ∀ s t, R s t → R' (i s) (j t)) (k : A → A') :
    SameAnswer R' (x.map fun r => (i r.1, k r.2)) (y.map fun r => (j r.1, k r.2)) := by
  obtain ⟨hans, hnext⟩ := h
  cases x with
  | none =>
    cases y with
    | none => exact ⟨rfl, fun _ _ _ _ hs => by cases hs⟩
    | some r => cases hans
  | some r =>
    cases y with
    | none => cases hans
    | some r' =>
      obtain ⟨s, a⟩ := r
      obtain ⟨t, b⟩ := r'
      cases hans
      exact .of_eq_some (hR s t (hnext s a t a rfl rfl))

variable {f : S → Q → Option (S × A)}

/-- **The rule for equal answers.** Where related states give the same answer to a request that
    meets `ok`, and are related again behind it, two runs of such requests give the same answers. -/
theorem answers_eq {g : T → Q → Option (T × A)}
    {ok : S → Q → Prop}
    (hsim : ∀ s t q, R s t → ok s q → SameAnswer R (f s q) (g t q))
    {s : S} {t : T} (h : R s t) {qs : List Q} (hok : AllCalls f ok s qs) :
    answers f s qs = answers g t qs := by
  induction qs generalizing s t with
  | nil => rfl
  | cons q qs ih =>
    obtain ⟨hq, hqs⟩ := hok
    obtain ⟨hans, hnext⟩ := hsim s t q h hq
    unfold answers
    cases hf : f s q with
    | none =>
      rw [hf] at hans
      cases hg : g t q with
      | none => rfl
      | some r => rw [hg] at hans; cases hans
    | some r =>
      obtain ⟨s', a⟩ := r
      rw [hf] at hans
      cases hg : g t q with
      | none => rw [hg] at hans; cases hans
      | some r' =>
        obtain ⟨t', b⟩ := r'
        rw [hg] at hans
        cases hans
        exact congrArg (some a :: ·) (ih (hnext s' a t' a hf hg) (hqs s' a hf))

/-- An answered request has its counterpart. -/
theorem SameAnswer.right {x : Option (S × A)} {y : Option (T × A)}
    (h : SameAnswer R x y) {s : S} {a : A} (hx : x = some (s, a)) :
    ∃ t, y = some (t, a) ∧ R s t := by
  obtain ⟨hans, hnext⟩ := h
  subst hx
  cases y with
  | none => cases hans
  | some r =>
    obtain ⟨t, b⟩ := r
    cases hans
    exact ⟨t, rfl, hnext s a t a rfl rfl⟩

/-- A run of such requests ends in related states. -/
theorem execAll_related {g : T → Q → Option (T × A)}
    {ok : Q → Prop}
    (hsim : ∀ s t q, R s t → ok q → SameAnswer R (f s q) (g t q))
    {s : S} {t : T} (h : R s t) {qs : List Q} (hok : ∀ q ∈ qs, ok q) {s' : S}
    (hrun : execAll (fun s q => (f s q).map Prod.fst) s qs = some s') : ∃ t', R s' t' := by
  induction qs generalizing s t with
  | nil =>
    cases hrun
    exact ⟨t, h⟩
  | cons q qs ih =>
    obtain ⟨s₁, h₁, hrest⟩ := bind_eq_some_iff.mp hrun
    obtain ⟨r, hr, rfl⟩ := map_eq_some_iff.mp h₁
    obtain ⟨s₁, a⟩ := r
    obtain ⟨t₁, -, hR⟩ := (hsim s t q h (hok q mem_cons_self)).right hr
    exact ih hR (fun q' hq' => hok q' (mem_cons_of_mem q hq')) hrest

/-- A condition on the requests alone. -/
theorem AllCalls.of_forall {ok : Q → Prop} {qs : List Q}
    (h : ∀ q ∈ qs, ok q) (s : S) : AllCalls f (fun _ q => ok q) s qs := by
  induction qs generalizing s with
  | nil => trivial
  | cons q qs ih =>
    exact ⟨h q mem_cons_self,
      fun s' _ _ => ih (fun q' hq' => h q' (mem_cons_of_mem q hq')) s'⟩

end Answers

end OpenCore
