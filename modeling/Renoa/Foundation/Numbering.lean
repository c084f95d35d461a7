import Mathlib.Data.List.Sort
import Mathlib.Data.List.Perm.Basic

/-!
# Gapless numbering

Rows of a store often carry a position that a reader checks to be gapless. `Numbered pos rows n`
says that the positions of `rows` are `0, …, n - 1`, each once, in any order. `orderBy pos` is
the stable sort by position, and `gaplessFrom` is the reader's check: the positions of a list
are `start, start + 1, …`. The check succeeds on ordered numbered rows
(`gaplessFrom_orderBy`).
-/

namespace Renoa.Foundation

open List

open scoped List

variable {R : Type} {pos : R → Nat} {rows : List R} {n : Nat} {r q : R}

/-- The rows in the order of their positions. -/
def orderBy (pos : R → Nat) (rows : List R) : List R := rows.insertionSort fun a b => pos a ≤ pos b

/-- The positions of `rows` are `0, …, n - 1`, each taken once. -/
def Numbered (pos : R → Nat) (rows : List R) (n : Nat) : Prop := (rows.map pos).Perm (List.range n)

/-- The positions of `rows` are `start, start + 1, …` in list order. -/
def gaplessFrom (pos : R → Nat) : Nat → List R → Bool
  | _, [] => true
  | start, r :: rest => decide (pos r = start) && gaplessFrom pos (start + 1) rest

@[simp] theorem mem_orderBy {rows : List R} {r : R} : r ∈ orderBy pos rows ↔ r ∈ rows :=
  mem_insertionSort _

theorem orderBy_perm (pos : R → Nat) (rows : List R) : (orderBy pos rows).Perm rows :=
  perm_insertionSort _ rows

theorem orderBy_sorted (pos : R → Nat) (rows : List R) :
    (orderBy pos rows).Pairwise fun a b => pos a ≤ pos b := by
  exact pairwise_insertionSort _ rows

@[simp] theorem length_orderBy (pos : R → Nat) (rows : List R) :
    (orderBy pos rows).length = rows.length := (orderBy_perm pos rows).length_eq

theorem orderBy_eq_nil : orderBy pos rows = [] ↔ rows = [] := by
  rw [← length_eq_zero_iff, length_orderBy, length_eq_zero_iff]

theorem numbered_nil (pos : R → Nat) : Numbered pos [] 0 := List.Perm.refl _

theorem Numbered.lt (h : Numbered pos rows n) (hr : r ∈ rows) : pos r < n :=
  mem_range.mp (h.mem_iff.mp (mem_map_of_mem hr))

theorem Numbered.exists_of_lt {i : Nat} (h : Numbered pos rows n) (hi : i < n) :
    ∃ r ∈ rows, pos r = i :=
  mem_map.mp (h.mem_iff.mpr (mem_range.mpr hi))

theorem Numbered.length_rows (h : Numbered pos rows n) : rows.length = n := by
  have hlen := List.Perm.length_eq h
  rwa [length_map, length_range] at hlen

/-- Numbered rows with one position are one row. -/
theorem Numbered.eq_of_pos_eq (h : Numbered pos rows n) (hr : r ∈ rows) (hq : q ∈ rows)
    (hpos : pos r = pos q) : r = q :=
  inj_on_of_nodup_map (h.nodup_iff.mpr nodup_range) hr hq hpos

/-- Adding the row with the next position. -/
theorem Numbered.concat (h : Numbered pos rows n) (hr : pos r = n) :
    Numbered pos (rows ++ [r]) (n + 1) := by
  unfold Numbered at *
  rw [map_append, map_singleton, range_succ, hr]
  exact h.append_right [n]

/-- Adding rows that carry the next positions in order. -/
theorem Numbered.append {new : List R} {k : Nat} (h : Numbered pos rows n)
    (hnew : new.map pos = List.range' n k) : Numbered pos (rows ++ new) (n + k) := by
  unfold Numbered at *
  have hrange : List.range (n + k) = List.range n ++ List.range' n k := by
    rw [range_eq_range', range_eq_range', range'_append_1 |>.symm, Nat.zero_add]
  rw [map_append, hnew, hrange]
  exact h.append_right _

theorem Numbered.congr {rows' : List R} (h : Numbered pos rows n)
    (hpos : rows'.map pos = rows.map pos) : Numbered pos rows' n := by
  unfold Numbered
  rw [hpos]
  exact h

/-- Selected rows stay numbered under a rewriting that keeps positions and the selection. -/
theorem Numbered.filter_map {p : R → Bool} {f : R → R} (h : Numbered pos (rows.filter p) n)
    (hp : ∀ r ∈ rows, p (f r) = p r) (hpos : ∀ r ∈ rows, pos (f r) = pos r) :
    Numbered pos ((rows.map f).filter p) n := by
  apply h.congr
  rw [List.filter_map, List.map_map]
  have hfilt : rows.filter (p ∘ f) = rows.filter p := filter_congr hp
  rw [hfilt]
  exact map_congr_left fun r hr => hpos r (mem_of_mem_filter hr)

/-- A list whose positions count up from zero is numbered. -/
theorem numbered_of_map_eq (h : rows.map pos = List.range n) : Numbered pos rows n :=
  List.Perm.of_eq h

/-- Ordering rows whose positions are an arrangement of a sorted list gives that list. -/
theorem orderBy_map_of_perm {ps : List Nat} (h : (rows.map pos).Perm ps) (hps : ps.Pairwise (· ≤ ·))
    : (orderBy pos rows).map pos = ps := by
  have hperm : ((orderBy pos rows).map pos).Perm ps := ((orderBy_perm pos rows).map pos).trans h
  exact hperm.eq_of_pairwise (fun a b _ _ => Nat.le_antisymm)
    (pairwise_map.mpr (orderBy_sorted pos rows)) hps

/-- Ordering numbered rows lists the positions in order. -/
theorem orderBy_map_of_numbered (h : Numbered pos rows n) :
    (orderBy pos rows).map pos = List.range n :=
  orderBy_map_of_perm h (pairwise_lt_range.imp Nat.le_of_lt)

/-- Ordering the numbered rows from a position on lists the positions from there. -/
theorem orderBy_map_of_numbered_from {start : Nat} (h : Numbered pos rows n) (hst : start ≤ n) :
    (orderBy pos (rows.filter fun r => start ≤ pos r)).map pos =
      List.range' start (n - start) := by
  refine orderBy_map_of_perm ?_ ((pairwise_lt_range' 1 Nat.one_pos).imp Nat.le_of_lt)
  have hfilt : (rows.filter fun r => start ≤ pos r).map pos =
      (rows.map pos).filter fun p => start ≤ p := by
    rw [filter_map]
    rfl
  have hsplit : List.range n = List.range start ++ List.range' start (n - start) := by
    rw [range_eq_range', range_eq_range']
    conv_lhs => rw [← Nat.add_sub_of_le hst, ← range'_append_1, Nat.zero_add]
  have hlow : (List.range start).filter (fun p => start ≤ p) = [] := by
    rw [filter_eq_nil_iff]
    intro p hp
    simpa using mem_range.mp hp
  have hhigh : (List.range' start (n - start)).filter (fun p => start ≤ p) =
      List.range' start (n - start) := by
    rw [filter_eq_self]
    intro p hp
    exact decide_eq_true (mem_range'_1.mp hp).1
  rw [hfilt]
  refine (List.Perm.filter _ h).trans (List.Perm.of_eq ?_)
  rw [hsplit, filter_append, hlow, hhigh, nil_append]

/-- Rows that stand in the order of their positions stay where they are. -/
theorem orderBy_eq_self (h : (rows.map pos).Pairwise (· ≤ ·)) : orderBy pos rows = rows :=
  (pairwise_map.mp h).insertionSort_eq

/-- The first row in order has the least position. -/
theorem orderBy_head?_le (hr : (orderBy pos rows).head? = some r) (hq : q ∈ rows) :
    pos r ≤ pos q := by
  obtain ⟨rest, hrest⟩ := head?_eq_some_iff.mp hr
  have hsort := orderBy_sorted pos rows
  rw [hrest] at hsort
  have hmem : q ∈ r :: rest := hrest ▸ mem_orderBy.mpr hq
  rcases mem_cons.mp hmem with rfl | hmem
  · exact Nat.le_refl _
  · exact (pairwise_cons.mp hsort).1 q hmem

/-- Of two rows the one with the lower position comes first. -/
theorem pair_sublist_orderBy (hr : r ∈ rows) (hq : q ∈ rows) (hlt : pos r < pos q) :
    [r, q] <+ orderBy pos rows := by
  have hsort := orderBy_sorted pos rows
  have hq : q ∈ orderBy pos rows := mem_orderBy.mpr hq
  obtain ⟨before, after, hsplit⟩ := append_of_mem (mem_orderBy.mpr hr)
  rw [hsplit] at hsort hq ⊢
  have haft : q ∈ after := by
    rcases mem_append.mp hq with hq | hq
    · have hle := (pairwise_append.mp hsort).2.2 q hq r mem_cons_self
      exact absurd hlt (Nat.not_lt.mpr hle)
    · rcases mem_cons.mp hq with rfl | hq
      · exact absurd hlt (Nat.lt_irrefl _)
      · exact hq
  exact ((singleton_sublist.mpr haft).cons_cons r).trans (sublist_append_right _ _)

/-- Rows whose positions allow it keep their order. -/
theorem orderBy_stable (h : [r, q] <+ rows) (hle : pos r ≤ pos q) : [r, q] <+ orderBy pos rows :=
  pair_sublist_insertionSort hle h

/-- Of rows that count up from `first`, those from a position on are the last ones. -/
theorem filter_eq_drop {first : Nat} (start : Nat)
    (h : rows.map pos = List.range' first rows.length) :
    rows.filter (fun r => start ≤ pos r) = rows.drop (start - first) := by
  induction rows generalizing first with
  | nil => simp
  | cons r rest ih =>
    rw [map_cons, length_cons, range'_succ, List.cons.injEq] at h
    by_cases hle : start ≤ first
    · have hlat : start - (first + 1) = 0 := Nat.sub_eq_zero_of_le (Nat.le_succ_of_le hle)
      have hrest := ih h.2
      rw [hlat, drop_zero] at hrest
      simp [h.1, hle, hrest]
    · have hstep : start - first = (start - (first + 1)) + 1 := by omega
      rw [hstep, drop_succ_cons, ← ih h.2]
      simp [h.1, hle]

theorem gaplessFrom_iff {start : Nat} :
    gaplessFrom pos start rows = true ↔ rows.map pos = List.range' start rows.length := by
  induction rows generalizing start with
  | nil => simp [gaplessFrom]
  | cons r rest ih =>
    simp only [gaplessFrom, Bool.and_eq_true, decide_eq_true_eq, ih, map_cons,
      length_cons, range'_succ, List.cons.injEq]

/-- The reader's check succeeds on ordered numbered rows. -/
theorem gaplessFrom_orderBy (h : Numbered pos rows n) :
    gaplessFrom pos 0 (orderBy pos rows) = true := by
  rw [gaplessFrom_iff, orderBy_map_of_numbered h, length_orderBy, h.length_rows, range_eq_range']

end Renoa.Foundation
