import Renoa.Foundation.Fallible

/-!
# Stored forms, checked counters and string maps

A `Codec` is a pair of an encoder and a decoder that reads back what was encoded. `checkedAdd`
is the addition of fixed-width counters that fails on overflow, and `NonZeroU32` a positive
counter. `StringMap` is a map with string keys as the list of its entries.
-/

namespace Renoa.Foundation

/-! ## Codecs -/

/-- A stored form of `α` in `V`. -/
structure Codec (V α : Type) where
  encode : α → V
  decode : V → Except String α
  decode_encode : ∀ a, decode (encode a) = .ok a

/-! ## Counters -/

/-- The sum of two counters, unless it overflows. -/
def checkedAdd (a b : UInt32) : Option UInt32 :=
  if a.toNat + b.toNat < UInt32.size then some (UInt32.ofNat (a.toNat + b.toNat)) else none

theorem checkedAdd_eq_some {a b c : UInt32} (h : checkedAdd a b = some c) :
    c.toNat = a.toNat + b.toNat := by
  unfold checkedAdd at h
  split at h
  next hlt =>
    cases h
    exact UInt32.toNat_ofNat_of_lt hlt
  · cases h

/-- The counter of a number, unless it overflows. -/
def u32TryFrom (n : Nat) : Option UInt32 := if n < UInt32.size then some (UInt32.ofNat n) else none

theorem u32TryFrom_eq_some {n : Nat} {c : UInt32} (h : u32TryFrom n = some c) : c.toNat = n := by
  unfold u32TryFrom at h
  split at h
  next hlt =>
    cases h
    exact UInt32.toNat_ofNat_of_lt hlt
  · cases h

/-- A positive counter. -/
structure NonZeroU32 where
  get : UInt32
  pos : 0 < get.toNat
  deriving DecidableEq, Repr

/-- The least positive counter. -/
def NonZeroU32.min : NonZeroU32 := ⟨1, by decide⟩

/-- The positive counter of a value that is not zero. -/
def NonZeroU32.new (value : UInt32) : Option NonZeroU32 :=
  if h : 0 < value.toNat then some ⟨value, h⟩ else none

theorem NonZeroU32.new_eq_some {value : UInt32} {counter : NonZeroU32}
    (h : NonZeroU32.new value = some counter) : counter.get = value := by
  unfold NonZeroU32.new at h
  split at h
  · cases h
    rfl
  · cases h

/-! ## Maps with string keys -/

/-- A map with string keys, as the list of its entries. -/
abbrev StringMap (α : Type) := List (String × α)

namespace StringMap

variable {α : Type}

/-- The map with a value for the key, in place of the one it had. -/
def insert (m : StringMap α) (key : String) (value : α) : StringMap α :=
  m.filter (fun entry => entry.1 ≠ key) ++ [(key, value)]

theorem insert_eq_append {m : StringMap α} {key : String} {value : α}
    (h : key ∉ m.map Prod.fst) : insert m key value = m ++ [(key, value)] := by
  unfold insert
  rw [List.filter_eq_self.mpr]
  intro entry hentry
  exact decide_eq_true fun heq => h (heq ▸ List.mem_map_of_mem hentry)

end StringMap

end Renoa.Foundation
