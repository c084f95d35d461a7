import Mathlib.Data.List.Forall2

/-!
# Fallible computations

A transaction of a store is an `Except` computation whose failure leaves the store as it was.
`require` and `ensure` are the two ways such a computation fails: a missing row and a failed
check. `bind_ok` and its like invert a computation that succeeded, and `Avoids bad` says that a
computation does not fail with a `bad` error; `avoids_bind` splits that claim at a bind.
-/

namespace Renoa.Foundation

open List

variable {ε α β : Type} {e : ε} {x : Except ε α} {f : α → Except ε β} {a : α} {as : List α}
  {o : Option α} {c : Bool}

/-- The value of `o`, or the error `e`. -/
def require (e : ε) : Option α → Except ε α
  | some a => .ok a
  | none => .error e

/-- Nothing, or the error `e` when the check `c` fails. -/
def ensure (c : Bool) (e : ε) : Except ε Unit := if c then .ok () else .error e

@[simp] theorem require_eq_ok {e : ε} {a : α} : require e o = .ok a ↔ o = some a := by
  cases o <;> simp [require]

@[simp] theorem ensure_eq_ok {e : ε} {u : Unit} : ensure c e = .ok u ↔ c = true := by
  cases c <;> simp [ensure]

theorem ensure_of_eq_true (h : c = true) : ensure c e = .ok () := ensure_eq_ok.mpr h

@[simp] theorem except_bind_ok (a : α) (f : α → Except ε β) : (Except.ok a >>= f) = f a := rfl

@[simp] theorem except_bind_error (e : ε) (f : α → Except ε β) :
    ((Except.error e : Except ε α) >>= f) = .error e := rfl

theorem bind_eq_ok {b : β} : (x >>= f) = .ok b ↔ ∃ a, x = .ok a ∧ f a = .ok b := by
  cases x with
  | error e | ok a => simp

theorem map_eq_ok {f : α → β} {b : β} : f <$> x = .ok b ↔ ∃ a, x = .ok a ∧ f a = b := by
  cases x with
  | error e | ok a => simp

/-! ### What a computation that succeeded did -/

section Ok

variable {o : Option α} {c : Bool} {b : β}

theorem require_ok (h : require e o = .ok a) : o = some a := require_eq_ok.mp h

theorem ensure_ok {u : Unit} (h : ensure c e = .ok u) : c = true := ensure_eq_ok.mp h

theorem bind_ok (h : (x >>= f) = .ok b) : ∃ a, x = .ok a ∧ f a = .ok b := bind_eq_ok.mp h

theorem map_ok {f : α → β} (h : f <$> x = .ok b) : ∃ a, x = .ok a ∧ f a = b := map_eq_ok.mp h

theorem require_bind_ok (h : (require e o >>= f) = .ok b) : ∃ a, o = some a ∧ f a = .ok b := by
  obtain ⟨a, ha, h⟩ := bind_ok h
  exact ⟨a, require_ok ha, h⟩

theorem ensure_bind_ok {f : Unit → Except ε β} (h : (ensure c e >>= f) = .ok b) :
    c = true ∧ f () = .ok b := by
  obtain ⟨_, hc, h⟩ := bind_ok h
  exact ⟨ensure_ok hc, h⟩

/-- A computation that ends early when a check holds. -/
theorem ite_ok {y : Except ε α} {r : α} (h : (if c then pure a else y) = .ok r) :
    c = true ∧ r = a ∨ c = false ∧ y = .ok r := by
  cases c with
  | true => exact .inl ⟨rfl, (Except.ok.inj h).symm⟩
  | false => exact .inr ⟨rfl, h⟩

end Ok

theorem mapError_eq_ok {δ : Type} {f : ε → δ} : x.mapError f = .ok a ↔ x = .ok a := by
  cases x <;> simp [Except.mapError]

/-- A traversal that succeeded, element by element. -/
theorem mapM_eq_ok {bs : List β} (h : as.mapM f = .ok bs) :
    List.Forall₂ (fun a b => f a = .ok b) as bs := by
  induction as generalizing bs with
  | nil =>
    cases h
    exact .nil
  | cons a rest ih =>
    rw [mapM_cons] at h
    obtain ⟨b, hb, h⟩ := bind_ok h
    obtain ⟨bs, hbs, h⟩ := bind_ok h
    cases h
    exact .cons hb (ih hbs)

/-- A sequence succeeds when its first part does and the rest does from its result. -/
theorem exists_bind_eq_ok (hx : x = .ok a) (hf : ∃ b, f a = .ok b) : ∃ b, (x >>= f) = .ok b := by
  obtain ⟨b, hb⟩ := hf
  exact ⟨b, bind_eq_ok.mpr ⟨a, hx, hb⟩⟩

theorem exists_of_forall₂_of_mem {R : α → β → Prop} {bs : List β} (h : List.Forall₂ R as bs)
    (ha : a ∈ as) : ∃ b ∈ bs, R a b := by
  induction h with
  | nil => exact absurd ha not_mem_nil
  | cons hfst _ ih =>
    rcases mem_cons.mp ha with rfl | ha
    · exact ⟨_, mem_cons_self, hfst⟩
    · obtain ⟨b, hb, hR⟩ := ih ha
      exact ⟨b, mem_cons_of_mem _ hb, hR⟩

/-- The computation fails with no error that is `bad`. -/
def Avoids (bad : ε → Prop) (x : Except ε α) : Prop := ∀ e, x = .error e → ¬ bad e

section Avoids

variable {bad : ε → Prop}

@[simp] theorem avoids_ok (a : α) : Avoids bad (.ok a : Except ε α) := by
  intro e h
  cases h

@[simp] theorem avoids_error {e : ε} : Avoids bad (.error e : Except ε α) ↔ ¬ bad e := by
  constructor
  · intro h
    exact h e rfl
  · intro h e' he'
    cases he'
    exact h

theorem avoids_bind (hx : Avoids bad x) (hf : ∀ a, x = .ok a → Avoids bad (f a)) :
    Avoids bad (x >>= f) := by
  cases x with
  | error e => exact avoids_error.mpr (avoids_error.mp hx)
  | ok a => exact hf a rfl

theorem avoids_require (h : bad e → o ≠ none) : Avoids bad (require e o) := by
  cases o with
  | none => exact avoids_error.mpr fun hbad => h hbad rfl
  | some a => exact avoids_ok a

theorem avoids_ensure (h : bad e → c = true) : Avoids bad (ensure c e) := by
  cases c with
  | false => exact avoids_error.mpr fun hbad => absurd (h hbad) (by simp)
  | true => exact avoids_ok ()

theorem avoids_require_bind (h : bad e → o ≠ none) (hf : ∀ a, o = some a → Avoids bad (f a)) :
    Avoids bad (require e o >>= f) :=
  avoids_bind (avoids_require h) fun a ha => hf a (require_eq_ok.mp ha)

theorem avoids_ensure_bind {f : Unit → Except ε β} (h : bad e → c = true)
    (hf : c = true → Avoids bad (f ())) : Avoids bad (ensure c e >>= f) :=
  avoids_bind (avoids_ensure h) fun _ hc => hf (ensure_eq_ok.mp hc)

theorem avoids_mapM (h : ∀ a ∈ as, Avoids bad (f a)) : Avoids bad (as.mapM f) := by
  induction as with
  | nil => exact avoids_ok []
  | cons a rest ih =>
    rw [mapM_cons]
    refine avoids_bind (h a mem_cons_self) fun b _ => ?_
    exact avoids_bind (ih fun c hc => h c (mem_cons_of_mem a hc)) fun bs _ => avoids_ok _

end Avoids

end Renoa.Foundation
