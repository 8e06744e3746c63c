import Treewalk.Proofs.Source.Seam

/- The last line: a line feed after a source of one line leaves its tokens and errors as they are, but for what is
found at the end, which it takes one line down. -/

namespace Treewalk

/-- The same token with a line feed before the end: the end lies one line down. -/
def Token.ended (t : Token) : Token := if t.type = .eof then t.shift 1 else t

theorem Token.ended_of_ne {t : Token} (h : t.type ≠ .eof) : t.ended = t := if_neg h

@[simp] theorem Token.ended_type (t : Token) : t.ended.type = t.type := by
  unfold ended
  split <;> rfl

@[simp] theorem Token.ended_literal (t : Token) : t.ended.literal = t.literal := by
  unfold ended
  split <;> rfl

/-- The same error with a line feed before the end: what is open runs on to the end. -/
def LexicalError.ended (e : LexicalError) : LexicalError :=
  match e.cause with
  | .unexpected _ => e
  | .openComment | .openString => { e with line := e.line + 1 }

def ScanItem.line : ScanItem → Nat
  | token t => t.line
  | error e => e.line

/-- The same item with a line feed before the end. -/
def ScanItem.ended : ScanItem → ScanItem
  | token t => token t.ended
  | error e => error e.ended

namespace Piece

/-- What is open takes in a line feed as well. -/
theorem cut_open {c : Char} {rest : List Char} (h : (cut c rest).piece.form.isOpen) :
    cut c (rest ++ ['\n']) =
      ⟨⟨(cut c rest).piece.form, (cut c rest).piece.text ++ ['\n']⟩, [],
        ((cut c rest).piece.text ++ ['\n']).count '\n'⟩ := by
  obtain ⟨hs, ha⟩ := cut_formed c rest
  have he := cut_append c rest
  rw [ha h, List.append_nil] at he
  rw [he] at hs ⊢
  generalize (cut c rest).piece.form = form at h hs
  cases form with
  | openComment =>
      cases hs with
      | @openComment body hb =>
          have hb' : ¬['*', '/'] <:+: body ++ ['\n'] := by
            rw [List.infix_concat_iff]
            rintro (⟨t, ht⟩ | hi)
            · have hl := congrArg List.getLast? ht
              simp at hl
            · exact hb hi
          exact slash_open hb'
  | openString =>
      cases hs with
      | openString hb =>
          have hb' : '"' ∉ rest ++ ['\n'] := by simpa using hb
          exact string_open hb'
  | _ => cases h

theorem line_of_item? {p : Piece} {line : Nat} {item : ScanItem} (h : p.item? line = some item) :
    item.line = line := by
  unfold item? at h
  split at h <;> cases h <;> rfl

theorem lineFeeds_cut {c : Char} {rest : List Char} (h : '\n' ∉ c :: rest) : (cut c rest).piece.lineFeeds = 0 := by
  rw [← cut_append c rest] at h
  exact List.count_eq_zero.2 fun hm => h (List.mem_append_left _ hm)

/-- What gives an item and is not open gives the same item. -/
theorem item?_ended {p : Piece} (hs : Shape p.form p.text) (ho : ¬p.form.isOpen) (line : Nat) :
    (p.item? line).toList.map ScanItem.ended = (p.item? line).toList := by
  obtain ⟨form, text⟩ := p
  cases form with
  | token type =>
      have ht : Token.ended ⟨type, String.ofList text, literal? type text, line⟩ = _ := Token.ended_of_ne hs.type_ne_eof
      exact congrArg (fun t => [ScanItem.token t]) ht
  | openComment | openString => exact absurd rfl ho
  | _ => rfl

end Piece

namespace Scan

theorem items_ended (line : Nat) {cs : List Char} (h : '\n' ∉ cs) :
    items line (pieces (cs ++ ['\n'])) = (items line (pieces cs)).map ScanItem.ended := by
  have hn : pieces ['\n'] = [⟨.blank, ['\n']⟩] := by
    rw [pieces, Piece.cut_blank [] (by decide), pieces]
  fun_induction pieces cs with
  | case1 =>
      rw [List.nil_append, hn]
      rfl
  | case2 c rest ih =>
      have hf := Piece.lineFeeds_cut h
      have hi : items line ((Piece.cut c rest).piece :: pieces (Piece.cut c rest).rest) =
          ((Piece.cut c rest).piece.item? line).toList ++ items line (pieces (Piece.cut c rest).rest) := by
        rw [items, hf, Nat.add_zero]
      rw [hi, List.cons_append, pieces, List.map_append]
      by_cases ho : (Piece.cut c rest).piece.form.isOpen
      · -- The open piece runs to the end, so nothing follows it.
        obtain ⟨hs, ha⟩ := cut_formed c rest
        rw [Piece.cut_open ho, ha ho, pieces, items, items, items]
        generalize hp : (Piece.cut c rest).piece = p at hs ho hf
        obtain ⟨form, text⟩ := p
        have hl : Piece.lineFeeds ⟨form, text ++ ['\n']⟩ = 1 := by
          rw [Piece.lineFeeds, List.count_append, show text.count '\n' = 0 from hf]
          rfl
        rw [hl]
        cases form with
        | openComment | openString => rfl
        | _ => cases ho
      · have hr : '\n' ∉ (Piece.cut c rest).rest := fun hm => h (Piece.cut_append c rest ▸ List.mem_append_right _ hm)
        rw [Piece.cut_seam (by decide) [] ho fun _ => rfl, Piece.followed, items, hf, Nat.add_zero, ih hr,
          Piece.item?_ended (cut_formed c rest).1 ho]

/-- A line feed at the end of a source of one line only takes its end one line down. -/
theorem ofSource_ended {source : String} (h : '\n' ∉ source.toList) :
    ofSource (source ++ "\n") = (ofSource source).map ScanItem.ended := by
  rw [ofSource_eq_items, ofSource_eq_items, String.toList_append]
  exact items_ended 1 h

variable {source : String} (h : '\n' ∉ source.toList)

include h

theorem errors_ended : errors (ofSource (source ++ "\n")) = (errors (ofSource source)).map LexicalError.ended := by
  rw [ofSource_ended h, errors, errors, List.filterMap_map, List.map_filterMap]
  congr 1
  funext item
  cases item <;> rfl

theorem tokens_ended : tokens (ofSource (source ++ "\n")) = (tokens (ofSource source)).map Token.ended := by
  rw [ofSource_ended h, tokens, tokens, List.filterMap_map, List.map_filterMap]
  congr 1
  funext item
  cases item <;> rfl

/-- All of a source without line feeds is on its first line. -/
theorem line_of_mem : (∀ t ∈ tokens (ofSource source), t.line = 1) ∧ ∀ e ∈ errors (ofSource source), e.line = 1 := by
  have hline : ∀ item ∈ ofSource source, item.line = 1 := by
    rw [ofSource_eq_items]
    generalize source.toList = cs at h
    fun_induction pieces cs with
    | case1 => exact List.forall_mem_singleton.2 rfl
    | case2 c rest ih =>
        have hr : '\n' ∉ (Piece.cut c rest).rest := fun hm => h (Piece.cut_append c rest ▸ List.mem_append_right _ hm)
        rw [items, Piece.lineFeeds_cut h, List.forall_mem_append]
        exact ⟨fun item hm => Piece.line_of_item? (Option.mem_toList.1 hm), ih hr⟩
  constructor
  · intro t ht
    obtain ⟨item, hm, he⟩ := List.mem_filterMap.1 ht
    cases item with
    | token u => cases he; exact hline _ hm
    | error e => cases he
  · intro e he
    obtain ⟨item, hm, hd⟩ := List.mem_filterMap.1 he
    cases item with
    | token u => cases hd
    | error e => cases hd; exact hline _ hm

end Scan

end Treewalk
