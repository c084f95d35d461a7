import Mathlib.Data.List.Sort
import Mathlib.Logic.Function.Basic
import Mathlib.Tactic.Tauto
import Mathlib.Data.List.Perm.Basic

/-!
# Keyed tables

`Table key` is the list-of-rows reading of a relation with a primary key: the rows stand in
insertion order and no two of them share a key. The writes are those of a relational store:
`insert` fails on a taken key or on a clash with a stored row, `put` replaces the row stored
under the key of its argument, `updateOne` is the guarded write of one row, `upsert` writes or
adds one, `mapRows` rewrites every row and `deleteWhere` removes some. Every write keeps the keys
unique, so a lookup `find?` determines the row.
-/

namespace Renoa.Foundation

open Function

variable {K R : Type} {key : R → K} {r q p : R} {f : R → R} {k : K} {clash : R → Bool}

/-- In a list with different keys, an element and the elements of other keys are all of it. -/
theorem perm_cons_filter_key [DecidableEq K] {rows : List R} (hnd : (rows.map key).Nodup)
    (hr : r ∈ rows) : rows.Perm (r :: rows.filter fun q => key q ≠ key r) := by
  induction rows with
  | nil => cases hr
  | cons q rest ih =>
    rw [List.map_cons, List.nodup_cons] at hnd
    rcases List.mem_cons.mp hr with rfl | hr
    · have hrest : rest.filter (fun q => key q ≠ key r) = rest := by
        rw [List.filter_eq_self]
        intro q hq
        exact decide_eq_true fun heq => hnd.1 (heq ▸ List.mem_map_of_mem hq)
      rw [List.filter_cons_of_neg (by simp), hrest]
    · have hne : key q ≠ key r := fun heq => hnd.1 (heq ▸ List.mem_map_of_mem hr)
      rw [List.filter_cons_of_pos (by simpa using hne)]
      exact ((ih hnd.2 hr).cons q).trans (List.Perm.swap r q _)

/-- Rows that are added for one owner are selected for that owner alone. -/
theorem filter_append_owner [DecidableEq K] {rows new : List R} (hnew : ∀ r ∈ new, key r = k)
    (other : K) : (rows ++ new).filter (fun r => key r = other) =
      rows.filter (fun r => key r = other) ++ if other = k then new else [] := by
  rw [List.filter_append]
  congr 1
  split <;> rename_i hother
  · exact List.filter_eq_self.mpr fun r hr => decide_eq_true ((hnew r hr).trans hother.symm)
  · exact List.filter_eq_nil_iff.mpr fun r hr hsel =>
      hother ((of_decide_eq_true hsel).symm.trans (hnew r hr))

/-- Rewriting one place of a list with different keys leaves the elements of other keys. -/
theorem mem_modify_of_nodup {rows : List R} {i : Nat} (hnd : (rows.map key).Nodup)
    (hr : rows[i]? = some r) (hq : q ∈ rows.modify i f) : q = f r ∨ (q ∈ rows ∧ key q ≠ key r) := by
  obtain ⟨j, hj⟩ := List.mem_iff_getElem?.mp hq
  rw [List.getElem?_modify] at hj
  by_cases hij : i = j
  · subst hij
    rw [hr] at hj
    exact .inl (by simpa using hj.symm)
  · have hj : rows[j]? = some q := by simpa [hij] using hj
    refine .inr ⟨List.mem_of_getElem? hj, fun hkey => hij ?_⟩
    have hkeys : (rows.map key)[i]? = (rows.map key)[j]? := by
      rw [List.getElem?_map, List.getElem?_map, hr, hj, Option.map_some, Option.map_some, hkey]
    have hlt : i < (rows.map key).length := by
      rw [List.length_map]
      exact (List.getElem?_eq_some_iff.mp hr).1
    exact (List.getElem?_inj hlt hnd).mp hkeys

/-- Rows with pairwise different keys, in insertion order. -/
structure Table (key : R → K) where
  rows : List R
  keys_nodup : (rows.map key).Nodup

variable {t t' : Table key}

namespace Table

instance : Membership R (Table key) where
  mem t r := r ∈ t.rows

theorem mem_rows : r ∈ t.rows ↔ r ∈ t := Iff.rfl

/-- The rows of a table with one row added. -/
theorem mem_concat {q : R} (h : t'.rows = t.rows ++ [r]) : q ∈ t' ↔ q ∈ t ∨ q = r := by
  rw [← mem_rows, h, List.mem_append, List.mem_singleton, mem_rows]

theorem ext_rows (h : t.rows = t'.rows) : t = t' := by
  cases t
  cases t'
  simpa using h

/-- The table without rows. -/
def empty : Table key := ⟨[], List.nodup_nil⟩

@[simp] theorem not_mem_empty {r : R} : r ∉ (empty : Table key) := List.not_mem_nil

/-- Rewriting every row by a function that keeps the keys. -/
def mapRows (t : Table key) (f : R → R) (hf : ∀ r, key (f r) = key r) : Table key :=
  ⟨t.rows.map f, by
    have hkeys : (t.rows.map f).map key = t.rows.map key := by
      rw [List.map_map]
      exact List.map_congr_left fun r _ => hf r
    rw [hkeys]
    exact t.keys_nodup⟩

@[simp] theorem mem_mapRows {t : Table key} {f : R → R} {hf : ∀ r, key (f r) = key r} {r : R} :
    r ∈ t.mapRows f hf ↔ ∃ q ∈ t, f q = r := List.mem_map

/-- Copying every row into a table of other rows, whose keys are renamed one to one. -/
def copyTo {L S : Type} {key' : S → L} (t : Table key) (f : R → S) (g : K → L)
    (hg : Function.Injective g) (hf : ∀ r, key' (f r) = g (key r)) : Table key' :=
  ⟨t.rows.map f, by
    have hkeys : (t.rows.map f).map key' = (t.rows.map key).map g := by
      rw [List.map_map, List.map_map]
      exact List.map_congr_left fun r _ => hf r
    rw [hkeys]
    exact t.keys_nodup.map hg⟩

/-- Deleting the rows that meet a condition. -/
def deleteWhere (t : Table key) (p : R → Bool) : Table key :=
  ⟨t.rows.filter fun r => !p r, t.keys_nodup.sublist (List.filter_sublist.map key)⟩

@[simp] theorem mem_deleteWhere {t : Table key} {p : R → Bool} {r : R} :
    r ∈ t.deleteWhere p ↔ r ∈ t ∧ p r = false := by
  rw [← mem_rows, ← mem_rows]
  simp [deleteWhere]

theorem rows_deleteWhere (t : Table key) (p : R → Bool) :
    (t.deleteWhere p).rows = t.rows.filter fun r => !p r := rfl

/-- Two stored rows with one key are one row. -/
theorem key_inj (hr : r ∈ t) (hq : q ∈ t) (h : key r = key q) : r = q :=
  List.inj_on_of_nodup_map t.keys_nodup hr hq h

variable [DecidableEq K]

/-- The row stored under a key. -/
def find? (t : Table key) (k : K) : Option R := t.rows.find? fun r => decide (key r = k)

theorem find?_eq_some : t.find? k = some r ↔ r ∈ t ∧ key r = k := by
  constructor
  · intro h
    exact ⟨List.mem_of_find?_eq_some h, by simpa using List.find?_some h⟩
  · rintro ⟨hr, rfl⟩
    cases hq : t.find? (key r) with
    | none =>
      have hno := List.find?_eq_none.mp hq r hr
      simp at hno
    | some q =>
      have hqmem : q ∈ t := List.mem_of_find?_eq_some hq
      have hqkey : key q = key r := by simpa using List.find?_some hq
      rw [key_inj hqmem hr hqkey]

/-- The rows with the key of a stored row are that row alone. -/
theorem filter_key_eq (hr : r ∈ t) : t.rows.filter (fun q => decide (key q = key r)) = [r] := by
  have hnd : (t.rows.filter fun q => decide (key q = key r)).Nodup :=
    (List.Nodup.of_map key t.keys_nodup).filter _
  have hmem : ∀ q, q ∈ t.rows.filter (fun q => decide (key q = key r)) ↔ q ∈ [r] := by
    intro q
    rw [List.mem_filter, decide_eq_true_eq, List.mem_singleton]
    constructor
    · rintro ⟨hq, hkey⟩
      exact key_inj hq hr hkey
    · rintro rfl
      exact ⟨hr, rfl⟩
  exact List.perm_singleton.mp ((List.perm_ext_iff_of_nodup hnd (List.nodup_singleton r)).mpr hmem)

theorem find?_of_mem (h : r ∈ t) : t.find? (key r) = some r := find?_eq_some.mpr ⟨h, rfl⟩

theorem mem_of_find? (h : t.find? k = some r) : r ∈ t := (find?_eq_some.mp h).1

theorem key_of_find? (h : t.find? k = some r) : key r = k := (find?_eq_some.mp h).2

theorem find?_eq_none : t.find? k = none ↔ ∀ r ∈ t, key r ≠ k := by
  simp only [find?, List.find?_eq_none, decide_eq_true_eq, mem_rows]

theorem find?_deleteWhere (t : Table key) (p : R → Bool) (k : K) :
    (t.deleteWhere p).find? k = (t.find? k).filter fun r => !p r := by
  apply Option.ext
  intro r
  rw [find?_eq_some, mem_deleteWhere, Option.filter_eq_some_iff, find?_eq_some]
  simp only [Bool.not_eq_true']
  tauto

/-- Replacing the row stored under the key of `r` by `r`; other rows keep their place. -/
def put (t : Table key) (r : R) : Table key :=
  t.mapRows (fun q => if key q = key r then r else q) fun q => by
    by_cases h : key q = key r
    · rw [if_pos h, h]
    · rw [if_neg h]

theorem mem_put : q ∈ t.put r ↔ (q ∈ t ∧ key q ≠ key r) ∨ (q = r ∧ ∃ p ∈ t, key p = key r) := by
  unfold put
  rw [mem_mapRows]
  constructor
  · rintro ⟨p, hp, hpq⟩
    by_cases h : key p = key r
    · rw [if_pos h] at hpq
      exact .inr ⟨hpq.symm, p, hp, h⟩
    · rw [if_neg h] at hpq
      subst hpq
      exact .inl ⟨hp, h⟩
  · rintro (⟨hq, hne⟩ | ⟨rfl, p, hp, h⟩)
    · exact ⟨q, hq, if_neg hne⟩
    · exact ⟨p, hp, if_pos h⟩

theorem rows_put (t : Table key) (r : R) :
    (t.put r).rows = t.rows.map fun q => if key q = key r then r else q := rfl

/-- Writing back a stored row changes nothing. -/
theorem put_eq_self (hr : r ∈ t) : t.put r = t := by
  apply ext_rows
  conv_rhs => rw [← List.map_id t.rows]
  apply List.map_congr_left
  intro q hq
  by_cases h : key q = key r
  · rw [if_pos h, key_inj hq hr h]
    rfl
  · rw [if_neg h]
    rfl

/-- The last of two writes under one key stands. -/
theorem put_put (h : key r = key q) : (t.put r).put q = t.put q := by
  apply ext_rows
  rw [rows_put, rows_put, rows_put, List.map_map]
  apply List.map_congr_left
  intro p _
  show (if key (if key p = key r then r else p) = key q then q
    else if key p = key r then r else p) = if key p = key q then q else p
  by_cases hp : key p = key r
  · rw [if_pos hp, if_pos h, if_pos (hp.trans h)]
  · rw [if_neg hp]

theorem mem_put_self (hp : p ∈ t) (h : key p = key r) : r ∈ t.put r :=
  mem_put.mpr (.inr ⟨rfl, p, hp, h⟩)

/-- A row of the table after a `put` is the new row or an old row under another key. -/
theorem mem_put_cases (h : q ∈ t.put r) : q = r ∨ (q ∈ t ∧ key q ≠ key r) := by
  rcases mem_put.mp h with hold | hnew
  · exact .inr hold
  · exact .inl hnew.1

theorem mem_put_of_ne (hq : q ∈ t) (h : key q ≠ key r) : q ∈ t.put r := mem_put.mpr (.inl ⟨hq, h⟩)

/-- The rows after a `put` over the stored row `p`. -/
theorem mem_put_iff (hp : p ∈ t) (h : key r = key p) :
    q ∈ t.put r ↔ q = r ∨ q ∈ t ∧ key q ≠ key p := by
  rw [mem_put, or_comm, h, and_iff_left ⟨p, hp, rfl⟩]

/-- A stored row, or the row that replaced it, is there after a `put`. -/
theorem exists_mem_put {P : R → Prop} (hp : p ∈ t) (h : key r = key p) (hq : q ∈ t)
    (hnew : q = p → P r) (hold : P q) : ∃ q' ∈ t.put r, P q' := by
  by_cases heq : key q = key p
  · exact ⟨r, mem_put_self hp h.symm, hnew (key_inj hq hp heq)⟩
  · exact ⟨q, mem_put_of_ne hq (h ▸ heq), hold⟩

theorem find?_put_self (hp : p ∈ t) (h : key p = key r) : (t.put r).find? (key r) = some r :=
  find?_of_mem (mem_put_self hp h)

theorem find?_put_of_ne (h : k ≠ key r) : (t.put r).find? k = t.find? k := by
  apply Option.ext
  intro q
  rw [find?_eq_some, find?_eq_some]
  constructor
  · rintro ⟨hq, rfl⟩
    rcases mem_put_cases hq with rfl | ⟨hmem, _⟩
    · exact absurd rfl h
    · exact ⟨hmem, rfl⟩
  · rintro ⟨hq, rfl⟩
    exact ⟨mem_put_of_ne hq h, rfl⟩

/-- Writing one row under its key when the stored row meets the guard. The result is `none`
when no row matches, which is a write that changed no row. -/
def updateOne (t : Table key) (k : K) (guard : R → Bool) (f : R → R) : Option (Table key) :=
  match t.find? k with
  | some r => if guard r then some (t.put (f r)) else none
  | none => none

theorem updateOne_eq_some {guard : R → Bool} : t.updateOne k guard f = some t' ↔
      ∃ r, t.find? k = some r ∧ guard r = true ∧ t' = t.put (f r) := by
  unfold updateOne
  cases hr : t.find? k with
  | none => simp
  | some r =>
    by_cases hg : guard r = true
    · simp only [hg, if_true, Option.some.injEq, exists_eq_left', true_and]
      exact eq_comm
    · simp [hg]

theorem updateOne_of_mem {guard : R → Bool} (hr : r ∈ t) :
    t.updateOne (key r) guard f = some t' ↔ guard r = true ∧ t' = t.put (f r) := by
  rw [updateOne_eq_some, find?_of_mem hr]
  simp

/-- A write over a row that was just put stands in its place. -/
theorem updateOne_put {guard : R → Bool} (h : (t.put r).updateOne (key r) guard f = some t')
    (hp : p ∈ t) (hkey : key p = key r) (hf : key (f r) = key r) :
    guard r = true ∧ t' = t.put (f r) := by
  rwa [updateOne_of_mem (mem_put_self hp hkey), put_put hf.symm] at h

/-- A write finds the row it is guarded by. -/
theorem updateOne_ne_none {guard : R → Bool} (hr : r ∈ t) (hg : guard r = true) :
    t.updateOne (key r) guard f ≠ none := by
  rw [Option.ne_none_iff_exists']
  exact ⟨t.put (f r), updateOne_eq_some.mpr ⟨r, find?_of_mem hr, hg, rfl⟩⟩

/-- Adding a row whose key is free and that clashes with no stored row. -/
def insert (t : Table key) (clash : R → Bool) (r : R) : Option (Table key) :=
  if h : (∀ q ∈ t.rows, key q ≠ key r) ∧ ∀ q ∈ t.rows, clash q = false then
    some ⟨t.rows ++ [r], by
      rw [List.map_append, List.nodup_append]
      refine ⟨t.keys_nodup, by simp, ?_⟩
      intro k hk k' hk'
      obtain ⟨q, hq, rfl⟩ := List.mem_map.mp hk
      rw [List.map_singleton, List.mem_singleton] at hk'
      rw [hk']
      exact h.1 q hq⟩
  else none

theorem insert_eq_some (h : t.insert clash r = some t') :
    (∀ q ∈ t, key q ≠ key r) ∧ (∀ q ∈ t, clash q = false) ∧ t'.rows = t.rows ++ [r] := by
  unfold insert at h
  split at h
  next hfree =>
    cases h
    exact ⟨hfree.1, hfree.2, rfl⟩
  · exact absurd h (by simp)

theorem find?_insert (h : t.insert clash r = some t') :
    t'.find? = Function.update t.find? (key r) (some r) := by
  obtain ⟨hfree, _, hrows⟩ := insert_eq_some h
  have hmem : ∀ q, q ∈ t' ↔ q ∈ t ∨ q = r := fun _ => mem_concat hrows
  funext k
  by_cases hk : k = key r
  · rw [hk, update_self]
    exact find?_of_mem ((hmem r).mpr (.inr rfl))
  · rw [update_of_ne hk]
    apply Option.ext
    intro q
    rw [find?_eq_some, find?_eq_some, hmem]
    constructor
    · rintro ⟨hq | rfl, rfl⟩
      · exact ⟨hq, rfl⟩
      · exact absurd rfl hk
    · rintro ⟨hq, rfl⟩
      exact ⟨.inl hq, rfl⟩

theorem find?_put (hp : p ∈ t) (h : key p = key r) :
    (t.put r).find? = Function.update t.find? (key r) (some r) := by
  funext k
  by_cases hk : k = key r
  · rw [hk, update_self]
    exact find?_put_self hp h
  · rw [update_of_ne hk]
    exact find?_put_of_ne hk

/-- An insert under a free key that clashes with no stored row succeeds. -/
theorem exists_insert (hfree : ∀ q ∈ t, key q ≠ key r) (hclash : ∀ q ∈ t, clash q = false) :
    ∃ t', t.insert clash r = some t' := by
  unfold insert
  rw [dif_pos ⟨hfree, hclash⟩]
  exact ⟨_, rfl⟩

/-- Rewriting the row stored under the key of `r`, or adding `r` when there is none. -/
def upsert (t : Table key) (r : R) (f : R → R) : Table key :=
  match t.find? (key r) with
  | some q => t.put (f q)
  | none => (t.insert (fun _ => false) r).getD t

/-- Adding a row unless its key is taken keeps the stored rows. -/
theorem mem_upsert_id : q ∈ t.upsert r id ↔ q ∈ t ∨ (q = r ∧ ∀ p ∈ t, key p ≠ key r) := by
  unfold upsert
  cases hfind : t.find? (key r) with
  | some p =>
    have hp := mem_of_find? hfind
    have hkey := key_of_find? hfind
    show q ∈ t.put p ↔ _
    rw [put_eq_self hp]
    exact ⟨.inl, fun h => h.elim id fun hnew => absurd hkey (hnew.2 p hp)⟩
  | none =>
    have hfree := find?_eq_none.mp hfind
    obtain ⟨t', hins⟩ : ∃ t', t.insert (fun _ => false) r = some t' :=
      exists_insert hfree fun _ _ => rfl
    rw [hins, Option.getD_some, ← mem_rows, (insert_eq_some hins).2.2, List.mem_append,
      List.mem_singleton]
    exact ⟨Or.imp_right fun heq => ⟨heq, hfree⟩, Or.imp_right And.left⟩

end Table

end Renoa.Foundation
