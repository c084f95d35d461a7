import Renoa.Loop.Planning
import Mathlib.Data.List.Basic

/-!
# The cut a plan is made for

Two binary searches select the cut of a plan: one for the last summary request that can be
dispatched, one for the first retained tail within the budget. Where the sizes are monotone each
search finds its threshold, so that together they select what a linear scan over the cuts would.
The tail changes its shape where the user message of the operation becomes covered. The messages of
a later cut are still among those of an earlier one.
-/

namespace Renoa.Loop

open Foundation List
open Agent
open Kernel (OperationId)

variable {J : Type} {i j : Nat}

/-! ## Thresholds -/

/-- What holds below a place where it holds has a threshold. -/
theorem exists_threshold {p : Nat → Prop} {n : Nat} (h : ∀ i j, i ≤ j → j < n → p j → p i) :
    ∃ k ≤ n, ∀ i < n, p i ↔ i < k := by
  induction n with
  | zero => exact ⟨0, le_rfl, fun i hi => absurd hi (Nat.not_lt_zero i)⟩
  | succ n ih =>
    by_cases hlast : p n
    · refine ⟨n + 1, le_rfl, fun i hi => ⟨fun _ => hi, fun _ => ?_⟩⟩
      exact h i n (by omega) (by omega) hlast
    · obtain ⟨k, hk, hiff⟩ := ih fun i j hij hj => h i j hij (by omega)
      refine ⟨k, by omega, fun i hi => ?_⟩
      by_cases heq : i = n
      · subst heq
        exact ⟨fun hp => absurd hp hlast, fun hlt => by omega⟩
      · exact hiff i (by omega)

/-- The last place that fits. -/
def LastFitting (fits : Nat → Prop) (n : Nat) : Option Nat → Prop
  | none => ∀ i < n, ¬ fits i
  | some last => last < n ∧ fits last ∧ ∀ i < n, fits i → i ≤ last

/-- The first place that fits with a fitting tail, and the last one that fits if no tail does. -/
def Selected (fits tailFits : Nat → Prop) (n : Nat) : Option Nat → Prop
  | none => ∀ i < n, ¬ fits i
  | some cut => cut < n ∧ fits cut ∧
      ((tailFits cut ∧ ∀ i < cut, ¬ (fits i ∧ tailFits i)) ∨
        ((∀ i < n, ¬ (fits i ∧ tailFits i)) ∧ ∀ i < n, fits i → i ≤ cut))

/-- The first place up to the last fitting one from which the tails fit, or the last fitting one. -/
theorem selected_of_threshold {fits tailFits : Nat → Prop} {n k cut : Nat} (hk : k < n)
    (hfits : ∀ i < n, fits i ↔ i < k + 1) (hle : cut ≤ k) (hbef : ∀ i < cut, ¬ tailFits i)
    (htail : tailFits cut ∨ cut = k) : Selected fits tailFits n (some cut) := by
  refine ⟨by omega, (hfits cut (by omega)).mpr (by omega), ?_⟩
  by_cases hfit : tailFits cut
  · exact .inl ⟨hfit, fun i hi hboth => hbef i hi hboth.2⟩
  · obtain rfl := htail.resolve_left hfit
    refine .inr ⟨fun i hi hboth => ?_, fun i hi hboth => ?_⟩
    · rcases Nat.lt_succ_iff_lt_or_eq.mp ((hfits i hi).mp hboth.1) with hlt | rfl
      · exact hbef i hlt hboth.2
      · exact hfit hboth.2
    · exact Nat.le_of_lt_succ ((hfits i hi).mp hboth)

/-! ## Cuts and tails -/

section Tails

variable {input : ContextInput J} {anchor : ContextEntry J} {entries : List (ContextEntry J)}
  {act : OperationId} {cuts : List Nat} {all : List (ContextEntry J)}

/-- Cuts ascend and are places of the entries. -/
theorem safeCutsFrom_ok {index : Nat} {op : Option OperationId} {pend : StringMap String}
    (h : safeCutsFrom act index op pend entries = .ok cuts) :
    cuts.Pairwise (· < ·) ∧ ∀ cut ∈ cuts, index ≤ cut ∧ cut < index + entries.length := by
  induction entries generalizing index op pend cuts with
  | nil =>
    cases h
    exact ⟨.nil, fun _ hcut => absurd hcut not_mem_nil⟩
  | cons entry rest ih =>
    iterate 3 obtain ⟨_, _, h⟩ := bind_ok h
    obtain ⟨tail, htail, h⟩ := bind_ok h
    obtain ⟨hpair, hbnd⟩ := ih htail
    cases h
    simp only [length_cons]
    split
    · refine ⟨pairwise_cons.mpr ⟨fun cut hcut => (hbnd cut hcut).1, hpair⟩, ?_⟩
      intro cut hcut
      rcases mem_cons.mp hcut with rfl | hmem
      · omega
      · have hplace := hbnd cut hmem
        omega
    · refine ⟨hpair, fun cut hcut => ?_⟩
      have hplace := hbnd cut hcut
      omega

theorem entriesAfterCheckpoint_ok {checkpoint : Option ActivatedCheckpoint}
    (h : entriesAfterCheckpoint all checkpoint = .ok entries) :
    ∃ boundary, entries = all.drop boundary ∧ ∀ cur ∈ checkpoint,
      ∃ last ∈ all.take boundary, last.sequence = cur.coveredThroughSequence := by
  cases checkpoint with
  | none =>
    cases h
    exact ⟨0, rfl, fun _ hmem => by cases hmem⟩
  | some checkpoint =>
    obtain ⟨_, _, h⟩ := bind_ok h
    obtain ⟨boundary, hboundary, h⟩ := require_bind_ok h
    cases h
    obtain ⟨hlt, hseq, -⟩ := findIdx?_eq_some_iff_getElem.mp hboundary
    refine ⟨boundary + 1, rfl, fun cur hcur => ?_⟩
    cases hcur
    refine ⟨all[boundary], ?_, of_decide_eq_true hseq⟩
    exact mem_take_iff_getElem.mpr ⟨boundary, by omega, rfl⟩

/-- An entry in front of the boundary has a lower sequence than those behind it. -/
theorem sequence_lt_of_take {boundary : Nat}
    (hascending : (all.map ContextEntry.sequence).Pairwise (· < ·)) {a b : ContextEntry J}
    (ha : a ∈ all.take boundary) (hb : b ∈ all.drop boundary) : a.sequence < b.sequence := by
  rw [← take_append_drop boundary all, map_append, pairwise_append] at hascending
  exact hascending.2.2 _ (mem_map_of_mem ha) _ (mem_map_of_mem hb)

theorem sequenceAt_eq {i : Nat} (h : i < entries.length) :
    sequenceAt entries i = entries[i].sequence := by
  simp [sequenceAt, h]

theorem sequenceAt_lt (hascending : (entries.map ContextEntry.sequence).Pairwise (· < ·))
    (hij : i < j) (hj : j < entries.length) : sequenceAt entries i < sequenceAt entries j := by
  rw [sequenceAt_eq (hij.trans hj), sequenceAt_eq hj]
  exact pairwise_iff_getElem.mp (pairwise_map.mp hascending) i j (hij.trans hj) hj hij

/-- A later cut keeps fewer messages, also where the user message becomes covered. -/
theorem tailRequest_sublist {boundary : Nat} (hentries : entries = input.entries.drop boundary)
    (hascending : (input.entries.map ContextEntry.sequence).Pairwise (· < ·))
    (hanchor : anchor ∈ input.entries) (hij : i ≤ j) (hj : j < entries.length) :
    (CompactionPlanner.tailRequest input entries anchor j).messages.Sublist
      (CompactionPlanner.tailRequest input entries anchor i).messages := by
  have hsub : (entries.map ContextEntry.sequence).Pairwise (· < ·) := by
    rw [hentries]
    exact hascending.sublist ((drop_sublist _ _).map _)
  have hdrop : (entries.drop (j + 1)).Sublist (entries.drop (i + 1)) :=
    drop_sublist_drop_left _ (by omega)
  refine List.Sublist.map _ ?_
  by_cases hi : anchor.sequence ≤ sequenceAt entries i
  · have hle : sequenceAt entries i ≤ sequenceAt entries j := by
      rcases Nat.eq_or_lt_of_le hij with rfl | hlt
      · exact le_rfl
      · exact (sequenceAt_lt hsub hlt hj).le
    rw [if_pos hi, if_pos (hi.trans hle)]
    exact (List.Sublist.refl _).append (hdrop.map _)
  · rw [if_neg hi, nil_append]
    by_cases hcovered : anchor.sequence ≤ sequenceAt entries j
    · rw [if_pos hcovered]
      -- the user message lies behind the earlier cut and up to the later one
      have hmem : anchor ∈ entries := by
        rw [← take_append_drop boundary input.entries, ← hentries] at hanchor
        refine (mem_append.mp hanchor).resolve_left fun htake => hi ?_
        rw [sequenceAt_eq (hij.trans_lt hj)]
        exact (sequence_lt_of_take hascending htake (hentries ▸ getElem_mem _)).le
      obtain ⟨a, ha, rfl⟩ := mem_iff_getElem.mp hmem
      rw [← sequenceAt_eq ha] at hi hcovered
      have hia : i < a := by
        by_contra hge
        rcases Nat.eq_or_lt_of_le (not_lt.mp hge) with rfl | hlt
        · exact hi le_rfl
        · exact hi (sequenceAt_lt hsub hlt (hij.trans_lt hj)).le
      have haj : a ≤ j := not_lt.mp fun hlt => absurd (sequenceAt_lt hsub hlt ha) (by omega)
      have hkept : (entries[a] :: entries.drop (j + 1)).Sublist (entries.drop (i + 1)) := by
        refine List.Sublist.trans ?_ (drop_sublist_drop_left entries (show i + 1 ≤ a by omega))
        rw [drop_eq_getElem_cons ha]
        exact (drop_sublist_drop_left entries (by omega)).cons_cons _
      exact hkept.map ContextEntry.message
    · rw [if_neg hcovered, nil_append]
      exact hdrop.map _

end Tails

/-! ## The two searches -/

section Searches

variable (planner : CompactionPlanner J) {input : ContextInput J} {anchor : ContextEntry J}
  {entries : List (ContextEntry J)} {cuts : List Nat} {checkpoint : Option ActivatedCheckpoint}
  {size : List (Message J) → Nat}

namespace CompactionPlanner

/-- The summary request of the cut at a position can be dispatched. -/
def Fits (entries : List (ContextEntry J)) (checkpoint : Option ActivatedCheckpoint)
    (cuts : List Nat) (position : Nat) : Prop :=
  planner.estimateInputTokens (planner.summaryAt entries checkpoint (cuts.getD position 0)) ≤
    planner.limits.dispatchLimit

/-- The retained tail of the cut at a position is within the budget. -/
def TailFits (input : ContextInput J) (entries : List (ContextEntry J)) (anchor : ContextEntry J)
    (size : List (Message J) → Nat) (cuts : List Nat) (position : Nat) : Prop :=
  size (tailRequest input entries anchor (cuts.getD position 0)).messages ≤
    planner.limits.tailBudget

/-- What the first search has found when everything below `position` fits. -/
def fittingBelow (entries : List (ContextEntry J)) (checkpoint : Option ActivatedCheckpoint)
    (cuts : List Nat) : Nat → Option (Nat × ModelRequest J)
  | 0 => none
  | position + 1 => some (position, planner.summaryAt entries checkpoint (cuts.getD position 0))

variable {planner}

theorem lastFittingFrom_eq {n k fuel low high : Nat}
    (hfits : ∀ i < n, planner.Fits entries checkpoint cuts i ↔ i < k) (hlow : low ≤ k)
    (hhigh : k ≤ high) (hn : high ≤ n) (hfuel : high - low ≤ fuel) :
    planner.lastFittingFrom entries checkpoint cuts fuel low high
      (planner.fittingBelow entries checkpoint cuts low) =
        planner.fittingBelow entries checkpoint cuts k := by
  induction fuel generalizing low high with
  | zero =>
    have heq : low = k := by omega
    rw [heq, lastFittingFrom]
  | succ fuel ih =>
    rw [lastFittingFrom]
    by_cases hlt : low < high
    · have hpos := hfits (low + (high - low) / 2) (by omega)
      rw [if_pos hlt]
      dsimp only
      split
      · rename_i hle
        exact ih (hpos.mp hle) hhigh hn (by omega)
      · rename_i hnot
        exact ih hlow (not_lt.mp (mt hpos.mpr hnot)) (by omega) (by omega)
    · have heq : low = k := by omega
      rw [if_neg hlt, heq]

theorem firstTailFrom_eq {n m fuel low high : Nat}
    (hprojects : ∀ msgs, ∃ projected, planner.projector.project msgs = .ok projected ∧
      planner.estimateInputTokens ⟨input.systemPrompt, projected, input.tools⟩ = size msgs)
    (htail : ∀ i < n, ¬ planner.TailFits input entries anchor size cuts i ↔ i < m)
    (hlow : low ≤ m) (hhigh : m ≤ high) (hn : high ≤ n) (hfuel : high - low ≤ fuel) :
    planner.firstTailFrom input entries anchor cuts fuel low high = .ok m := by
  induction fuel generalizing low high with
  | zero =>
    have heq : high = m := by omega
    rw [heq, firstTailFrom]
  | succ fuel ih =>
    rw [firstTailFrom]
    by_cases hlt : low < high
    · have hpos := htail (low + (high - low) / 2) (by omega)
      obtain ⟨projected, hproject, hsize⟩ := hprojects
        (tailRequest input entries anchor (cuts.getD (low + (high - low) / 2) 0)).messages
      rw [if_pos hlt]
      dsimp only
      rw [hproject]
      show (if planner.estimateInputTokens ⟨input.systemPrompt, projected, input.tools⟩ ≤ _ then _
        else _) = _
      rw [hsize]
      split
      · rename_i hle
        exact ih hlow (not_lt.mp (mt hpos.mpr (not_not.mpr hle))) (by omega) (by omega)
      · rename_i hnot
        exact ih (hpos.mp hnot) hhigh hn (by omega)
    · have heq : high = m := by omega
      rw [if_neg hlt, heq]

/-! ## The selected plans -/

/-- The plan of the cut at a position. -/
def planAt (planner : CompactionPlanner J) (input : ContextInput J)
    (entries : List (ContextEntry J)) (cuts : List Nat) (position : Nat) : CompactionPlan J :=
  ⟨planner.summaryAt entries input.checkpoint (cuts.getD position 0),
    sequenceAt entries (cuts.getD position 0)⟩

/-- Sizes that do not decrease where a request is extended. `size` is that of a projected tail. -/
structure Monotone (planner : CompactionPlanner J) (input : ContextInput J)
    (size : List (Message J) → Nat) : Prop where
  summary : ∀ {entries entries' : List (ContextEntry J)}, entries <+: entries' →
    planner.estimateInputTokens (summaryRequest planner.format
        (input.checkpoint.map ActivatedCheckpoint.summary) entries) ≤
      planner.estimateInputTokens (summaryRequest planner.format
        (input.checkpoint.map ActivatedCheckpoint.summary) entries')
  projects : ∀ messages, ∃ projected, planner.projector.project messages = .ok projected ∧
    planner.estimateInputTokens ⟨input.systemPrompt, projected, input.tools⟩ = size messages
  tail : ∀ {messages messages' : List (Message J)}, messages.Sublist messages' →
    size messages ≤ size messages'

theorem getD_mem {pos : Nat} (h : pos < cuts.length) : cuts.getD pos 0 ∈ cuts := by
  rw [getD_eq_getElem?_getD, getElem?_eq_getElem h]
  exact getElem_mem _

theorem getD_le (hcuts : cuts.Pairwise (· < ·)) (hij : i ≤ j) (hj : j < cuts.length) :
    cuts.getD i 0 ≤ cuts.getD j 0 := by
  rcases Nat.eq_or_lt_of_le hij with rfl | hlt
  · exact le_rfl
  · have hless := pairwise_iff_getElem.mp hcuts i j (hlt.trans hj) hj hlt
    simpa [hj, hlt.trans hj] using hless.le

/-- The dispatchable cuts are those below a threshold, at which the first search ends. -/
theorem exists_fits (hmono : planner.Monotone input size)
    (entries : List (ContextEntry J)) (hcuts : cuts.Pairwise (· < ·)) :
    ∃ k ≤ cuts.length, (∀ i < cuts.length, planner.Fits entries input.checkpoint cuts i ↔ i < k) ∧
      planner.lastFittingSummary entries input.checkpoint cuts =
        planner.fittingBelow entries input.checkpoint cuts k := by
  obtain ⟨k, hk, hfits⟩ := exists_threshold (n := cuts.length)
    (p := planner.Fits entries input.checkpoint cuts) fun i j hij hj hfits =>
      (hmono.summary (take_prefix_take_left (l := entries)
        (Nat.succ_le_succ (getD_le hcuts hij hj)))).trans hfits
  exact ⟨k, hk, hfits, lastFittingFrom_eq hfits (Nat.zero_le k) hk le_rfl le_rfl⟩

section Plans

variable (hentries : entriesAfterCheckpoint input.entries input.checkpoint = .ok entries)
  (hcuts : safeCutIndices entries input.activeOperationId = .ok cuts)
  (hascending : (input.entries.map ContextEntry.sequence).Pairwise (· < ·))

include hentries hcuts hascending

/-- The boundary of a cut behind the summary is valid. -/
theorem requireCut_planAt (planner : CompactionPlanner J) {pos : Nat}
    (hpos : pos < cuts.length) (msg : String) :
    requireAdvance input (planner.planAt input entries cuts pos) = .ok () ∧
      requireCut input (planner.planAt input entries cuts pos).coveredThroughSequence msg =
        .ok () := by
  have hmem := getD_mem hpos
  have hbnd := ((safeCutsFrom_ok hcuts).2 _ hmem).2
  constructor
  · obtain ⟨boundary, hdrop, hlast⟩ := entriesAfterCheckpoint_ok hentries
    rw [requireAdvance]
    cases hcp : input.checkpoint with
    | none => rfl
    | some cur =>
      obtain ⟨last, hmem, hseq⟩ := hlast cur hcp
      refine ensure_of_eq_true (decide_eq_true ?_)
      rw [← hseq, planAt, sequenceAt_eq (by omega)]
      exact sequence_lt_of_take hascending hmem (hdrop ▸ getElem_mem _)
  · refine bind_eq_ok.mpr ⟨entries, hentries, bind_eq_ok.mpr ⟨cuts, hcuts, ?_⟩⟩
    exact ensure_of_eq_true (any_eq_true.mpr ⟨_, hmem, decide_eq_true rfl⟩)

/-- Where the tails of the dispatchable cuts begin to fit, the second search ends. -/
theorem exists_tail (hmono : planner.Monotone input size)
    (hanchor : activeUserAnchor input.entries input.activeOperationId = .ok anchor) {k : Nat}
    (hk : k < cuts.length) :
    ∃ first, planner.firstTailWithinBudget input entries anchor cuts k = .ok first ∧
      first.getD k ≤ k ∧
      (∀ i < first.getD k, ¬ planner.TailFits input entries anchor size cuts i) ∧
      (planner.TailFits input entries anchor size cuts (first.getD k) ∨ first.getD k = k) := by
  obtain ⟨found, hfnd, h⟩ := require_bind_ok hanchor
  obtain ⟨_, _, h⟩ := bind_ok h
  cases h
  obtain ⟨boundary, hdrop, -⟩ := entriesAfterCheckpoint_ok hentries
  obtain ⟨hpair, hplaces⟩ := safeCutsFrom_ok hcuts
  obtain ⟨m, hm, htail⟩ := exists_threshold (n := k + 1)
    (p := fun i => ¬ planner.TailFits input entries anchor size cuts i)
    fun i j hij hj hlarge hfit =>
      hlarge ((hmono.tail (tailRequest_sublist hdrop hascending
        (mem_of_find?_eq_some hfnd) (getD_le hpair hij (by omega))
        (by have := (hplaces _ (getD_mem (show j < cuts.length by omega))).2; omega))).trans hfit)
  have hsearch : planner.firstTailFrom input entries anchor cuts (k + 1) 0 (k + 1) = .ok m :=
    firstTailFrom_eq hmono.projects htail (Nat.zero_le m) hm le_rfl le_rfl
  refine ⟨if m ≤ k then some m else none, by rw [firstTailWithinBudget, hsearch]; rfl, ?_⟩
  split
  · rename_i hle
    refine ⟨hle, fun i hi => (htail i (by simpa using hi.trans_le hm)).mpr hi, .inl ?_⟩
    exact not_not.mp fun hlarge => absurd ((htail m (by omega)).mp hlarge) (lt_irrefl m)
  · exact ⟨le_rfl, fun i hi => (htail i (Nat.lt_succ_of_lt hi)).mpr (by
      have : i < k := hi
      omega), .inr rfl⟩

/-- **The two searches select what a linear scan selects**, and the plans pass the validation of the
loop. -/
theorem cut_selection_linear (hmonotone : planner.Monotone input size) :
    (∀ anchor, activeUserAnchor input.entries input.activeOperationId = .ok anchor →
      ∃ cut, planner.selectPlan input = .ok (cut.map (planner.planAt input entries cuts)) ∧
        Selected (planner.Fits entries input.checkpoint cuts)
          (planner.TailFits input entries anchor size cuts) cuts.length cut ∧
        ∀ position ∈ cut,
          validatePlan input (planner.planAt input entries cuts position) = .ok ()) ∧
    (requireNoActiveMessages input.entries input.activeOperationId = .ok () →
      ∃ cut, planner.selectExplicitPlan input = .ok (cut.map (planner.planAt input entries cuts)) ∧
        LastFitting (planner.Fits entries input.checkpoint cuts) cuts.length cut ∧
        ∀ position ∈ cut,
          validateExplicitPlan input (planner.planAt input entries cuts position) = .ok ()) := by
  obtain ⟨hpairwise, hplaces⟩ := safeCutsFrom_ok hcuts
  obtain ⟨k, hk, hfits, hlast⟩ := exists_fits hmonotone entries hpairwise
  constructor
  · intro anchor hanchor
    cases k with
    | zero =>
      refine ⟨none, ?_, fun i hi => ?_, fun _ hmem => by cases hmem⟩
      · simp [selectPlan, hanchor, hentries, hcuts, hlast, fittingBelow]
      · simp [hfits i hi]
    | succ k =>
      obtain ⟨first, hfirst, hle, hbefore, htail⟩ :=
        exists_tail hentries hcuts hascending hmonotone hanchor hk
      refine ⟨some (first.getD k), ?_, selected_of_threshold hk hfits hle hbefore htail, ?_⟩
      · simp only [selectPlan, hanchor, hentries, hcuts, hlast, fittingBelow, except_bind_ok,
          hfirst]
        -- the request of the last cut is the one the first search has built
        have hrequest := ite_eq_right_iff.mpr fun heq : first.getD k = k =>
          congrArg (fun i => planner.summaryAt entries input.checkpoint (cuts.getD i 0)) heq.symm
        rw [hrequest]
        rfl
      · rintro position ⟨⟩
        obtain ⟨hadvance, hcut⟩ := requireCut_planAt hentries hcuts hascending planner
          (show first.getD k < cuts.length by omega) "covered boundary is not a safe transcript cut"
        exact bind_eq_ok.mpr ⟨(), rfl, bind_eq_ok.mpr ⟨(), hadvance,
          bind_eq_ok.mpr ⟨anchor, hanchor, hcut⟩⟩⟩
  · intro hinactive
    cases k with
    | zero =>
      refine ⟨none, ?_, fun i hi => ?_, fun _ hmem => by cases hmem⟩
      · simp [selectExplicitPlan, hinactive, hentries, hcuts, hlast, fittingBelow]
      · simp [hfits i hi]
    | succ k =>
      refine ⟨some k, ?_, ⟨hk, (hfits k hk).mpr (Nat.lt_succ_self k), fun i hi hfit => ?_⟩, ?_⟩
      · simp only [selectExplicitPlan, hinactive, hentries, hcuts, hlast, except_bind_ok]
        rfl
      · exact Nat.le_of_lt_succ ((hfits i hi).mp hfit)
      · rintro position ⟨⟩
        obtain ⟨hadvance, hcut⟩ := requireCut_planAt hentries hcuts hascending planner
          hk "covered boundary is not a safe completed-operation cut"
        exact bind_eq_ok.mpr ⟨(), rfl, bind_eq_ok.mpr ⟨(), hadvance,
          bind_eq_ok.mpr ⟨(), hinactive, hcut⟩⟩⟩

end Plans

/-- A planner that counts messages. -/
def countingPlanner : CompactionPlanner Nat where
  limits := ⟨10, 10, 5, 2, 3, by decide, by decide, rfl, by decide, by decide⟩
  estimateInputTokens request := request.messages.length
  projector := ⟨.ok, fun _ => .ok ""⟩
  format := ⟨fun _ => .null, fun _ => "", id, fun _ => ""⟩

/-- Three operations that have ended, and the message of the active one. -/
def fourOperations : ContextInput Nat where
  activeOperationId := ⟨3⟩
  entries := (range 4).map fun n => ⟨⟨n⟩, n, .userText ""⟩
  checkpoint := none
  systemPrompt := ""
  tools := []
  compactionRequired := false

/-- The second cut is the first whose tail has two messages. -/
theorem cut_selection_counting :
    (countingPlanner.selectPlan fourOperations).map
        (Option.map CompactionPlan.coveredThroughSequence) = .ok (some 1) ∧
      ∃ cut, countingPlanner.selectPlan fourOperations = .ok (cut.map
          (countingPlanner.planAt fourOperations fourOperations.entries [0, 1, 2])) ∧
        Selected (countingPlanner.Fits fourOperations.entries none [0, 1, 2])
          (countingPlanner.TailFits fourOperations fourOperations.entries
            ⟨⟨3⟩, 3, .userText ""⟩ List.length [0, 1, 2]) 3 cut := by
  have hmonotone : countingPlanner.Monotone fourOperations List.length :=
    ⟨fun _ => le_rfl, fun messages => ⟨messages, rfl, rfl⟩, fun hsublist => hsublist.length_le⟩
  obtain ⟨cut, hplan, hselected, -⟩ :=
    (cut_selection_linear rfl rfl (by decide) hmonotone).1 _ rfl
  exact ⟨rfl, cut, hplan, hselected⟩

end CompactionPlanner

end Searches

end Renoa.Loop
