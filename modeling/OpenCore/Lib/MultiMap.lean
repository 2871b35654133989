/-
  File:      OpenCore/Lib/MultiMap.lean
  Subject:   MAPS FROM KEYS TO LISTS OF VALUES, keys being the same where their forms are.

  A map is the list of its keys, in the order in which they came, each with its values. `form` says
  which keys are the same.
-/
import Mathlib

namespace OpenCore

open List

/-- The keys, each with its values. -/
abbrev MultiMap (K V : Type*) := List (K × List V)

namespace MultiMap

variable {K V C : Type*} [DecidableEq C] (form : K → C)

/-- The values of a key. -/
def values : MultiMap K V → K → List V
  | [], _ => []
  | (k', vs) :: m, k => if form k' = form k then vs else values m k

/-- A value is added to a key, or takes the place of the values it has. -/
def add : MultiMap K V → K → V → Bool → MultiMap K V
  | [], k, v, _ => [(k, [v])]
  | (k', vs) :: m, k, v, replace =>
    if form k' = form k then (k', if replace then [v] else vs ++ [v]) :: m
    else (k', vs) :: add m k v replace

/-- A key is removed, with its values. -/
def remove : MultiMap K V → K → MultiMap K V
  | [], _ => []
  | (k', vs) :: m, k => if form k' = form k then m else (k', vs) :: remove m k

/-- The number of pairs of a key and a value of it. -/
def pairs (m : MultiMap K V) : Nat := (m.map fun e => e.2.length).sum

variable {form} {l m : MultiMap K V} {k : K}

section

variable (h : ∀ e ∈ l, form e.1 ≠ form k)
include h

theorem values_append :
    values form (l ++ m) k = values form m k := by
  induction l with
  | nil => rfl
  | cons e l ih =>
    rw [cons_append, values, if_neg (h e mem_cons_self)]
    exact ih fun e he => h e (mem_cons_of_mem _ he)

theorem values_of_not_mem : values form l k = [] := by
  have happ := values_append (m := []) h
  rwa [append_nil] at happ

theorem values_split {e : K × List V}
    (he : form e.1 = form k) : values form (l ++ e :: m) k = e.2 := by
  rw [values_append h, values, if_pos he]

theorem add_append (v : V) (replace : Bool) :
    add form (l ++ m) k v replace = l ++ add form m k v replace := by
  induction l with
  | nil => rfl
  | cons e l ih =>
    rw [cons_append, add, if_neg (h e mem_cons_self)]
    rw [ih fun e he => h e (mem_cons_of_mem _ he)]
    rfl

theorem add_of_not_mem (v : V) (replace : Bool) :
    add form l k v replace = l ++ [(k, [v])] := by
  have happ := add_append (m := []) h v replace
  rwa [append_nil] at happ

theorem add_split {e : K × List V} (he : form e.1 = form k)
    (v : V) (replace : Bool) : add form (l ++ e :: m) k v replace =
      l ++ (e.1, if replace then [v] else e.2 ++ [v]) :: m := by
  rw [add_append h, add, if_pos he]

theorem remove_append :
    remove form (l ++ m) k = l ++ remove form m k := by
  induction l with
  | nil => rfl
  | cons e l ih =>
    rw [cons_append, remove, if_neg (h e mem_cons_self)]
    rw [ih fun e he => h e (mem_cons_of_mem _ he)]
    rfl

theorem remove_of_not_mem : remove form l k = l := by
  have happ := remove_append (m := []) h
  rwa [append_nil, remove, append_nil] at happ

theorem remove_split {e : K × List V}
    (he : form e.1 = form k) : remove form (l ++ e :: m) k = l ++ m := by
  rw [remove_append h, remove, if_pos he]

end

end MultiMap

end OpenCore
