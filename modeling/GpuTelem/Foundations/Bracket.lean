import Mathlib.Data.List.Infix

/-!
# Acquiring and releasing

A program that acquires what it needs in a fixed order, and gives up what it holds in the opposite
one: a chain of calls with the unwinding that belongs to it. The log is what such a program has
acquired and released so far; what it holds is kept as a stack, the latest first.

## Main definitions

* `Event`: one entry of the log;
* `Taking`: everything acquired is still held;
* `Unwinding`: the latest of what was acquired has been released.

## Main results

* `Taking.acquire`, `Unwinding.release`: what one more event does;
* `Unwinding.mirrored`: at the end the releases are the acquisitions backwards.
-/

namespace Bracket

/-- What a program does with a resource. -/
inductive Event (ρ : Type*)
  | acquire (r : ρ)
  | release (r : ρ)
  deriving DecidableEq

variable {ρ : Type*} {taken held : List ρ} {log : List (Event ρ)} {r : ρ}

/-- What is held has been acquired one after the other, and nothing has been released. -/
def Taking (log : List (Event ρ)) (held : List ρ) : Prop := log = held.reverse.map .acquire

/-- `taken` has been acquired one after the other, and what is not held any more has been released
since, the latest first. -/
def Unwinding (taken : List ρ) (log : List (Event ρ)) (held : List ρ) : Prop :=
  ∃ released, taken.reverse = released ++ held ∧
    log = taken.map .acquire ++ released.map .release

/-- At the beginning nothing is held. -/
theorem Taking.nil : Taking ([] : List (Event ρ)) [] := rfl

/-- The next resource comes on top. -/
theorem Taking.acquire (h : Taking log held) (r : ρ) :
    Taking (log ++ [.acquire r]) (r :: held) := by
  rw [Taking] at h ⊢
  rw [h, List.reverse_cons, List.map_append, List.map_singleton]

/-- A program that holds everything it acquired can begin to unwind. -/
theorem Taking.unwinding (h : Taking log held) : Unwinding held.reverse log held := by
  refine ⟨[], ?_, ?_⟩
  · rw [List.reverse_reverse, List.nil_append]
  · rw [List.map_nil, List.append_nil]
    exact h

/-- The top is released. -/
theorem Unwinding.release (h : Unwinding taken log (r :: held)) :
    Unwinding taken (log ++ [.release r]) held := by
  obtain ⟨released, htaken, rfl⟩ := h
  refine ⟨released ++ [r], ?_, ?_⟩
  · rw [htaken, List.append_assoc, List.singleton_append]
  · rw [List.map_append, List.map_singleton, List.append_assoc]

/-- When nothing is held any more, the releases are the acquisitions backwards. -/
theorem Unwinding.mirrored (h : Unwinding taken log []) :
    log = taken.map .acquire ++ taken.reverse.map .release := by
  obtain ⟨released, htaken, rfl⟩ := h
  rw [htaken, List.append_nil]

end Bracket
