import Mathlib.Data.List.Basic

/-!
# Following a log

A reader keeps a position in a log and what it has read. It may fall behind while the log grows;
reading the rest brings it to the end. What it has read is always the log up to its position, so
nothing is missing and nothing is read twice.
-/

namespace Renoa.Foundation

open List

variable {α : Type} {log log' seen : List α} {position : Nat}

/-- The reader has seen the log up to its position. -/
structure Follows (log : List α) (position : Nat) (seen : List α) : Prop where
  seen_eq : seen = log.take position
  position_le : position ≤ log.length

theorem follows_start (log : List α) : Follows log 0 [] := ⟨rfl, Nat.zero_le _⟩

namespace Follows

section

variable (h : Follows log position seen)

include h

/-- What was seen and the rest are the log. -/
theorem append_drop : seen ++ log.drop position = log := by rw [h.seen_eq, take_append_drop]

theorem isPrefix : seen <+: log := by
  rw [h.seen_eq]
  exact take_prefix _ _

/-- The log grows. -/
theorem grow (hgrow : log <+: log') : Follows log' position seen where
  seen_eq := by
    obtain ⟨rest, rfl⟩ := hgrow
    rw [h.seen_eq, take_append_of_le_length h.position_le]
  position_le := Nat.le_trans h.position_le hgrow.length_le

/-- The reader reads to the end. -/
theorem read : Follows log log.length (seen ++ log.drop position) := by
  rw [h.append_drop]
  exact ⟨take_length.symm, Nat.le_refl _⟩

end

end Follows

end Renoa.Foundation
