import Mathlib.Data.Finset.Insert
import Mathlib.Data.Finset.Erase
import Mathlib.Logic.Function.Basic

/-!
# Finite tables

A `Table κ α` is a finite map whose set of keys can be computed, so that "no entry satisfies `p`"
is decidable. Lookups are plain functions; the key set is carried along with a proof that it is
the right one.
-/

/-- A finite map from `κ` to `α`. -/
structure Table (κ α : Type*) where
  /-- The entry of a key. -/
  find : κ → Option α
  /-- The keys that have an entry. -/
  keys : Finset κ
  /-- `keys` is the domain of `find`. -/
  mem_keys : ∀ k, k ∈ keys ↔ (find k).isSome

namespace Table

variable {κ α β : Type*}

/-- A table is determined by its lookups. -/
@[ext]
theorem ext {t u : Table κ α} (h : ∀ k, t.find k = u.find k) : t = u := by
  obtain ⟨find, keys, hkeys⟩ := t
  obtain ⟨find', keys', hkeys'⟩ := u
  obtain rfl : find = find' := funext h
  obtain rfl : keys = keys' := by
    ext k
    rw [hkeys, hkeys']
  rfl

/-- The table without entries. -/
def empty : Table κ α where
  find _ := none
  keys := ∅
  mem_keys := by simp

@[simp]
theorem find_empty (k : κ) : (empty : Table κ α).find k = none := rfl

section Update

variable [DecidableEq κ]

/-- Add or replace an entry. -/
def insert (t : Table κ α) (k : κ) (a : α) : Table κ α where
  find := Function.update t.find k (some a)
  keys := Insert.insert k t.keys
  mem_keys k' := by
    by_cases h : k' = k
    · simp [h]
    · simp [h, t.mem_keys]

/-- Remove an entry. -/
def erase (t : Table κ α) (k : κ) : Table κ α where
  find := Function.update t.find k none
  keys := t.keys.erase k
  mem_keys k' := by
    by_cases h : k' = k
    · simp [h]
    · simp [h, t.mem_keys]

@[simp]
theorem find_insert (t : Table κ α) (k k' : κ) (a : α) :
    (t.insert k a).find k' = if k' = k then some a else t.find k' :=
  Function.update_apply ..

theorem find_insert_self (t : Table κ α) (k : κ) (a : α) : (t.insert k a).find k = some a := by
  rw [find_insert, if_pos rfl]

@[simp]
theorem find_erase (t : Table κ α) (k k' : κ) :
    (t.erase k).find k' = if k' = k then none else t.find k' :=
  Function.update_apply ..

end Update

/-- Apply a function to every entry. -/
def map (f : α → β) (t : Table κ α) : Table κ β where
  find k := (t.find k).map f
  keys := t.keys
  mem_keys k := by rw [t.mem_keys, Option.isSome_map]

@[simp]
theorem find_map (f : α → β) (t : Table κ α) (k : κ) : (t.map f).find k = (t.find k).map f := rfl

theorem map_insert [DecidableEq κ] (f : α → β) (t : Table κ α) (k : κ) (a : α) :
    (t.insert k a).map f = (t.map f).insert k (f a) := by
  ext1 k'
  by_cases h : k' = k <;> simp [h]

theorem map_erase [DecidableEq κ] (f : α → β) (t : Table κ α) (k : κ) :
    (t.erase k).map f = (t.map f).erase k := by
  ext1 k'
  by_cases h : k' = k <;> simp [h]

/-- Whether every entry satisfies `p`. -/
def all (p : α → Bool) (t : Table κ α) : Bool :=
  decide (∀ k ∈ t.keys, (t.find k).all p)

theorem all_eq_true {p : α → Bool} {t : Table κ α} :
    t.all p = true ↔ ∀ k a, t.find k = some a → p a = true := by
  rw [all, decide_eq_true_eq]
  constructor
  · intro h k a hk
    have hmem : k ∈ t.keys := (t.mem_keys k).mpr (by simp [hk])
    simpa [hk] using h k hmem
  · intro h k _
    cases hk : t.find k with
    | none => rfl
    | some a => exact h k a hk

theorem all_map (f : α → β) (p : β → Bool) (t : Table κ α) :
    (t.map f).all p = t.all (p ∘ f) := by
  simp only [all, map, Option.all_map]
  rfl

theorem map_map {γ : Type*} (f : α → β) (g : β → γ) (t : Table κ α) :
    (t.map f).map g = t.map (g ∘ f) := by
  ext1 k
  simp only [find_map, Option.map_map]

end Table
