import Renoa.Loop.Context

/-!
# Renderings of turn contexts

A turn context is shown to the model as tagged text, between tags that the texts of its entries
could try to write. Every `<` of a rendering is the first character of a tag that was written for
the context or for one of its entries, so no text opens or closes a tag. The parts between the marks
are then determined by the rendering, and with them the entries (`modelContext_faithful`).
-/

namespace Renoa.Loop

open List

/-! ## Marked lists -/

section Marked

variable {α : Type} [DecidableEq α] {x : α} {parts : List (List α)}

/-- The parts one behind the other, each behind a mark. -/
def marked (x : α) (parts : List (List α)) : List α := parts.flatMap (x :: ·)

/-- What stands before the first mark is determined. -/
theorem append_mark_inj {l l' m m' : List α} (hl : x ∉ l) (hl' : x ∉ l')
    (hm : ∀ y ∈ m.head?, y = x) (hm' : ∀ y ∈ m'.head?, y = x) (h : l ++ m = l' ++ m') :
    l = l' ∧ m = m' := by
  have htake : ∀ {l m : List α}, x ∉ l → (∀ y ∈ m.head?, y = x) →
      (l ++ m).takeWhile (· ≠ x) = l := by
    intro l m hl hm
    rw [takeWhile_append_of_pos (by grind)]
    cases m with
    | nil => simp
    | cons y m => simp [hm y rfl]
  have hsame : l = l' := by rw [← htake hl hm, h, htake hl' hm']
  subst hsame
  exact ⟨rfl, append_cancel_left h⟩

omit [DecidableEq α] in
theorem head_marked : ∀ y ∈ (marked x parts).head?, y = x := by
  cases parts with
  | nil => exact fun _ hy => nomatch hy
  | cons part parts =>
    rintro _ ⟨⟩
    rfl

theorem marked_inj {parts' : List (List α)} (h : ∀ part ∈ parts, x ∉ part)
    (h' : ∀ part ∈ parts', x ∉ part) (heq : marked x parts = marked x parts') :
    parts = parts' := by
  induction parts generalizing parts' with
  | nil =>
    cases parts' with
    | nil => rfl
    | cons => cases heq
  | cons part parts ih =>
    cases parts' with
    | nil => cases heq
    | cons part' parts' =>
      obtain ⟨rfl, hrest⟩ := append_mark_inj (h part mem_cons_self)
        (h' part' mem_cons_self) head_marked head_marked (List.cons.inj heq).2
      rw [ih (fun p hp => h p (mem_cons_of_mem _ hp))
        (fun p hp => h' p (mem_cons_of_mem _ hp)) hrest]

omit [DecidableEq α] in
/-- Every mark stands before a part. -/
theorem exists_of_marked_eq (h : ∀ part ∈ parts, x ∉ part) {before after : List α}
    (heq : marked x parts = before ++ x :: after) :
    ∃ written part rest, parts = written ++ part :: rest ∧ before = marked x written := by
  induction parts generalizing before with
  | nil => cases before <;> cases heq
  | cons part parts ih =>
    cases before with
    | nil => exact ⟨[], part, parts, rfl, rfl⟩
    | cons y before =>
      have hparts : part ++ marked x parts = before ++ x :: after := (List.cons.inj heq).2
      -- The mark is not in the part, so it is behind it.
      have hbehind : ∃ more, before = part ++ more ∧ marked x parts = more ++ x :: after := by
        rcases append_eq_append_iff.mp hparts with hbehind | ⟨inside, rfl, hinside⟩
        · exact hbehind
        · cases inside with
          | nil => exact ⟨[], by simp, hinside.symm⟩
          | cons z inside =>
            obtain ⟨rfl, _⟩ := List.cons.inj hinside
            exact absurd (mem_append_right _ mem_cons_self) (h _ mem_cons_self)
      obtain ⟨more, rfl, hmore⟩ := hbehind
      obtain ⟨written, next, rest, rfl, rfl⟩ := ih (fun p hp => h p (mem_cons_of_mem _ hp)) hmore
      exact ⟨part :: written, next, rest, rfl, by rw [← (List.cons.inj heq).1]; rfl⟩

omit [DecidableEq α] in
/-- What a prefix code writes is determined. -/
theorem flatMap_inj {β : Type} {code : α → List β} (hne : ∀ a, code a ≠ [])
    (hcode : ∀ a b rest rest', code a ++ rest = code b ++ rest' → a = b ∧ rest = rest')
    {l l' : List α} (h : l.flatMap code = l'.flatMap code) : l = l' := by
  induction l generalizing l' with
  | nil =>
    cases l' with
    | nil => rfl
    | cons b l' => exact absurd (append_eq_nil_iff.mp h.symm).1 (hne b)
  | cons a l ih =>
    cases l' with
    | nil => exact absurd (append_eq_nil_iff.mp h).1 (hne a)
    | cons b l' =>
      obtain ⟨rfl, hrest⟩ := hcode a b _ _ h
      rw [ih hrest]

end Marked

/-! ## Escaped text -/

/-- The characters an escaped character is written as. -/
def escapeChar (c : Char) : List Char :=
  if c = '&' then "&amp;".toList else if c = '<' then "&lt;".toList
  else if c = '>' then "&gt;".toList else [c]

theorem toList_escape (text : String) : (escape text).toList = text.toList.flatMap escapeChar := by
  rw [escape, String.toList_join, flatMap_map]
  apply flatMap_congr
  intro c _
  unfold escapeChar
  split_ifs
  · rfl
  · rfl
  · rfl
  · exact String.toList_singleton c

theorem mark_notMem_escape (text : String) : '<' ∉ (escape text).toList := by
  rw [toList_escape, mem_flatMap]
  rintro ⟨c, _, hc⟩
  unfold escapeChar at hc
  split_ifs at hc with _ hmark
  · revert hc; decide
  · revert hc; decide
  · revert hc; decide
  · exact hmark (mem_singleton.mp hc).symm

theorem escape_injective {text text' : String} (h : escape text = escape text') : text = text' := by
  rw [← String.toList_inj, toList_escape, toList_escape] at h
  refine String.toList_inj.mp (flatMap_inj ?_ ?_ h)
  · intro c
    unfold escapeChar
    split_ifs <;> simp
  · intro c c' rest rest' heq
    unfold escapeChar at heq
    -- Only an escape starts with an ampersand, and no two escapes go on alike.
    split_ifs at heq <;> grind

/-! ## Tags -/

/-- The tags of a rendering. -/
inductive Tag where
  | openTurn
  | openEntry (source : String)
  | closeEntry
  | closeTurn
  deriving DecidableEq, Repr

/-- The text of a tag behind its mark. -/
def Tag.name : Tag → String
  | .openTurn => "turn_context>"
  | .openEntry source => "context source=\"" ++ source ++ "\">"
  | .closeEntry => "/context>"
  | .closeTurn => "/turn_context>"

theorem Tag.name_openEntry (source : String) :
    (Tag.openEntry source).name = "context source=\"" ++ source ++ "\">" := rfl

/-- The tags written for an entry, each with the text up to the next one. -/
def ContextContribution.pieces (entry : ContextContribution) : List (Tag × String) :=
  [(.openEntry entry.source, "\n" ++ escape entry.text ++ "\n"), (.closeEntry, "\n")]

def TurnContext.pieces (context : TurnContext) : List (Tag × String) :=
  (.openTurn, "\n") :: context.entries.flatMap ContextContribution.pieces ++ [(.closeTurn, "")]

/-- What a piece adds behind its mark. -/
def pieceChars (piece : Tag × String) : List Char := piece.1.name.toList ++ piece.2.toList

def renderPieces (pieces : List (Tag × String)) : List Char := marked '<' (pieces.map pieceChars)

theorem renderPieces_append (first rest : List (Tag × String)) :
    renderPieces (first ++ rest) = renderPieces first ++ renderPieces rest := by
  rw [renderPieces, map_append]
  exact flatMap_append

theorem toList_modelContext (ctx : TurnContext) :
    ctx.modelContext.toList = renderPieces ctx.pieces := by
  -- The line break before a tag belongs to the piece before it.
  have hentries : ∀ (entries : List ContextContribution) (tail : List Char),
      (entries.map fun entry => "\n<context source=\"" ++ entry.source ++ "\">\n" ++
        escape entry.text ++ "\n</context>").flatMap String.toList ++ '\n' :: tail =
      '\n' :: (renderPieces (entries.flatMap ContextContribution.pieces) ++ tail) := by
    intro entries tail
    induction entries with
    | nil => rfl
    | cons entry entries ih =>
      rw [map_cons, flatMap_cons, append_assoc, ih, flatMap_cons, renderPieces_append, append_assoc]
      simp only [renderPieces, marked, ContextContribution.pieces, pieceChars, Tag.name_openEntry,
        map_cons, map_nil, flatMap_cons, flatMap_nil, String.toList_append,
        append_assoc, cons_append, nil_append]
      rfl
  rw [TurnContext.modelContext, String.toList_append, String.toList_append, String.toList_join,
    append_assoc]
  change _ ++ (_ ++ '\n' :: "</turn_context>".toList) = _
  rw [hentries, TurnContext.pieces, renderPieces_append]
  rfl

/-- A source writes neither a mark nor the quotation mark behind it. -/
theorem source_chars {source : String} (h : validSource source = true) :
    '<' ∉ source.toList ∧ '"' ∉ source.toList := by
  unfold validSource at h
  simp only [Bool.or_eq_true, Bool.and_eq_true, decide_eq_true_eq] at h
  rcases h with rfl | ⟨⟨hplugin, _⟩, _, hname⟩
  · decide
  · obtain ⟨name, hsrc⟩ := isPrefixOf_iff_prefix.mp hplugin
    rw [← hsrc] at hname ⊢
    have hchars : ∀ c ∈ name, c ≠ '<' ∧ c ≠ '"' := by
      intro c hc
      have hal := all_eq_true.mp hname c hc
      constructor <;> rintro rfl <;> revert hal <;> decide
    constructor <;> rw [mem_append, not_or]
    · exact ⟨by decide, fun hc => (hchars _ hc).1 rfl⟩
    · exact ⟨by decide, fun hc => (hchars _ hc).2 rfl⟩

theorem mark_notMem_pieces (ctx : TurnContext) :
    ∀ part ∈ ctx.pieces.map pieceChars, '<' ∉ part := by
  intro part hpart
  obtain ⟨piece, hpiece, rfl⟩ := mem_map.mp hpart
  simp only [TurnContext.pieces, ContextContribution.pieces, cons_append, mem_cons,
    mem_append, mem_flatMap, not_mem_nil, or_false] at hpiece
  rcases hpiece with rfl | ⟨entry, _, rfl | rfl⟩ | rfl
  · decide
  · simp only [pieceChars, Tag.name_openEntry, String.toList_append, mem_append, not_or]
    exact ⟨⟨⟨by decide, (source_chars entry.source_valid).1⟩, by decide⟩,
      ⟨by decide, mark_notMem_escape _⟩, by decide⟩
  · decide
  · decide

/-- The tag and the text of an entry determine it. -/
theorem entry_inj {entry entry' : ContextContribution} {rest rest' : List (List Char)}
    (h : entry.pieces.map pieceChars ++ rest = entry'.pieces.map pieceChars ++ rest') :
    entry = entry' ∧ rest = rest' := by
  obtain ⟨h, hcls⟩ := List.cons.inj h
  simp only [pieceChars, Tag.name_openEntry, String.toList_append, append_assoc] at h
  obtain ⟨hsrc, hrest⟩ := append_mark_inj (source_chars entry.source_valid).2
    (source_chars entry'.source_valid).2 (by rintro _ ⟨⟩; rfl) (by rintro _ ⟨⟩; rfl)
    (append_cancel_left h)
  have htext := append_cancel_right (append_cancel_left (append_cancel_left hrest))
  have htext := escape_injective (String.toList_inj.mp htext)
  have hsrc := String.toList_inj.mp hsrc
  refine ⟨?_, (List.cons.inj hcls).2⟩
  cases entry
  cases entry'
  simp_all

theorem pieces_inj {ctx context' : TurnContext}
    (h : ctx.pieces.map pieceChars = context'.pieces.map pieceChars) : ctx = context' := by
  have hents : ctx.entries = context'.entries := by
    simp only [TurnContext.pieces, map_append, map_cons, map_flatMap] at h
    exact flatMap_inj nofun (fun _ _ _ _ => entry_inj) (append_cancel_right (List.cons.inj h).2)
  cases ctx
  cases context'
  cases hents
  rfl

/-! ## Faithful renderings -/

/-- A rendering determines its context. Each of its marks starts a tag written for the context or
for one of its entries. -/
theorem modelContext_faithful :
    (∀ a b : TurnContext, a.modelContext = b.modelContext → a = b) ∧
      ∀ (context : TurnContext) (before after : List Char),
        context.modelContext.toList = before ++ '<' :: after →
        ∃ written piece rest, context.pieces = written ++ piece :: rest ∧
          before = renderPieces written ∧ '<' :: after = renderPieces (piece :: rest) := by
  constructor
  · intro a b h
    rw [← String.toList_inj, toList_modelContext, toList_modelContext] at h
    exact pieces_inj (marked_inj (mark_notMem_pieces a) (mark_notMem_pieces b) h)
  · intro context before after h
    rw [toList_modelContext] at h
    obtain ⟨parts, part, more, hparts, rfl⟩ := exists_of_marked_eq (mark_notMem_pieces context) h
    obtain ⟨written, others, hpieces, rfl, hothers⟩ := map_eq_append_iff.mp hparts
    obtain ⟨piece, rest, rfl, rfl, rfl⟩ := map_eq_cons_iff.mp hothers
    refine ⟨written, piece, rest, hpieces, rfl, ?_⟩
    rw [hpieces, renderPieces_append] at h
    exact (append_cancel_left h).symm

end Renoa.Loop
