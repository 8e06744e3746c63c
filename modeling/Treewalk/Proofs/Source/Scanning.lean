import Treewalk.Source.Scan
import Treewalk.Proofs.Source.Splitting

/- A scan gives the tokens and errors of its pieces in order, each on the line its piece ends on. -/

namespace Treewalk

namespace Piece

/-- The token that a piece is, if it ends on `line`. -/
def token? (p : Piece) (line : Nat) : Option Token :=
  match p.form with
  | .token type => some ⟨type, String.ofList p.text, literal? type p.text, line⟩
  | _ => none

def lineFeeds (p : Piece) : Nat := p.text.count '\n'

/-- What is wrong with a piece that ends on `line`. -/
def error? (p : Piece) (line : Nat) : Option LexicalError :=
  match p.form with
  | .unexpected => some ⟨.unexpected (p.text.headD ' '), line⟩
  | .openComment => some ⟨.openComment, line⟩
  | .openString => some ⟨.openString, line⟩
  | _ => none

end Piece

/-- The line the piece at `i` ends on: one more than the line feeds up to its end. -/
def endLine (ps : List Piece) (i : Nat) : Nat := 1 + ((ps.take (i + 1)).flatMap Piece.text).count '\n'

/-- The tokens among pieces, in order. -/
def pieceTokens (ps : List Piece) : List Token := ps.zipIdx.filterMap fun x => x.1.token? (endLine ps x.2)

/-- What is wrong with pieces, in order. -/
def pieceErrors (ps : List Piece) : List LexicalError := ps.zipIdx.filterMap fun x => x.1.error? (endLine ps x.2)

theorem endLine_zero (p : Piece) (ps : List Piece) : endLine (p :: ps) 0 = 1 + p.lineFeeds := by
  simp [endLine, Piece.lineFeeds]

theorem endLine_succ (p : Piece) (ps : List Piece) (i : Nat) :
    endLine (p :: ps) (i + 1) = p.lineFeeds + endLine ps i := by
  simp only [endLine, Piece.lineFeeds, List.take_succ_cons, List.flatMap_cons, List.count_append]
  omega

namespace Scan

variable {scan : List ScanItem} {ps : List Piece}

/-- The items of pieces that start on `line`. -/
def items (line : Nat) : List Piece → List ScanItem
  | [] => [.token (endToken line)]
  | p :: rest => (p.item? (line + p.lineFeeds)).toList ++ items (line + p.lineFeeds) rest

/-- A source gives the items of its pieces: the scanner counts the line feeds of a piece while it cuts it. -/
theorem ofChars_eq_items (line : Nat) (cs : List Char) : ofChars line cs = items line (pieces cs) := by
  fun_induction pieces cs generalizing line with
  | case1 =>
      rw [ofChars]
      rfl
  | case2 c rest ih =>
      have hn : (Piece.cut c rest).feeds = (Piece.cut c rest).piece.lineFeeds := cut_counted c rest
      rw [ofChars, items, ← hn, ih]

theorem ofSource_eq_items (source : String) : ofSource source = items 1 (pieces source.toList) :=
  ofChars_eq_items 1 source.toList

theorem tokens_append (scan scan' : List ScanItem) : tokens (scan ++ scan') = tokens scan ++ tokens scan' :=
  List.filterMap_append ..

theorem errors_append (scan scan' : List ScanItem) : errors (scan ++ scan') = errors scan ++ errors scan' :=
  List.filterMap_append ..

theorem tokens_item? (p : Piece) (line : Nat) : tokens (p.item? line).toList = (p.token? line).toList := by
  unfold Piece.item? Piece.token?
  cases p.form <;> rfl

theorem errors_item? (p : Piece) (line : Nat) : errors (p.item? line).toList = (p.error? line).toList := by
  unfold Piece.item? Piece.error?
  cases p.form <;> rfl

/-- What pieces give one by one, each by its own line, when the first of them starts on `line`. -/
theorem filterMap_cons {α : Type} (f : Piece → Nat → Option α) (k : Nat) (p : Piece) (ps : List Piece) :
    (p :: ps).zipIdx.filterMap (fun x => f x.1 (k + endLine (p :: ps) x.2)) =
      (f p (k + 1 + p.lineFeeds)).toList ++
        ps.zipIdx.filterMap (fun x => f x.1 (k + p.lineFeeds + endLine ps x.2)) := by
  rw [List.zipIdx_cons, List.filterMap_cons, List.zipIdx_succ, List.filterMap_map]
  simp only [Function.comp_def, endLine_zero, endLine_succ, ← Nat.add_assoc]
  cases f p (k + 1 + p.lineFeeds) <;> rfl

theorem tokens_items (k : Nat) (ps : List Piece) :
    tokens (items (k + 1) ps) = ps.zipIdx.filterMap (fun x => x.1.token? (k + endLine ps x.2)) ++
      [endToken (k + 1 + (ps.flatMap Piece.text).count '\n')] := by
  induction ps generalizing k with
  | nil => rfl
  | cons p ps ih =>
      have hk : k + 1 + p.lineFeeds = k + p.lineFeeds + 1 := by omega
      rw [items, tokens_append, tokens_item?, hk, ih, filterMap_cons, hk, List.append_assoc, List.flatMap_cons,
        List.count_append, ← hk, Nat.add_assoc (k + 1)]
      rfl

theorem errors_items (k : Nat) (ps : List Piece) :
    errors (items (k + 1) ps) = ps.zipIdx.filterMap fun x => x.1.error? (k + endLine ps x.2) := by
  induction ps generalizing k with
  | nil => rfl
  | cons p ps ih =>
      have hk : k + 1 + p.lineFeeds = k + p.lineFeeds + 1 := by omega
      rw [items, errors_append, errors_item?, hk, ih, filterMap_cons, hk]

theorem tokens_ofSource (source : String) :
    tokens (ofSource source) = pieceTokens (pieces source.toList) ++ [endToken (1 + source.toList.count '\n')] := by
  have h := tokens_items 0 (pieces source.toList)
  simp only [Nat.zero_add, pieces_flatten] at h
  rw [ofSource_eq_items]
  exact h

theorem errors_ofSource (source : String) : errors (ofSource source) = pieceErrors (pieces source.toList) := by
  have h := errors_items 0 (pieces source.toList)
  simp only [Nat.zero_add] at h
  rw [ofSource_eq_items]
  exact h

/-- What is left of a scan after `n` calls for a token. -/
def after (scan : List ScanItem) : Nat → List ScanItem
  | 0 => scan
  | n + 1 => (next (after scan n)).2.2

theorem next_token (scan : List ScanItem) : (next scan).2.1 = (tokens scan).head? := by
  fun_induction next scan with
  | case1 | case2 => rfl
  | case3 e rest es token after hn ih =>
      rw [hn] at ih
      exact ih

theorem tokens_next (scan : List ScanItem) : tokens (next scan).2.2 = (tokens scan).tail := by
  fun_induction next scan with
  | case1 | case2 => rfl
  | case3 e rest es token after hn ih =>
      rw [hn] at ih
      exact ih

theorem errors_next (scan : List ScanItem) : (next scan).1 ++ errors (next scan).2.2 = errors scan := by
  fun_induction next scan with
  | case1 | case2 => rfl
  | case3 e rest es token after hn ih =>
      rw [hn] at ih
      exact congrArg (e :: ·) ih

theorem tokens_after (scan : List ScanItem) (n : Nat) : tokens (after scan n) = (tokens scan).drop n := by
  induction n with
  | zero => rfl
  | succ n ih => rw [after, tokens_next, ih, List.tail_drop]

theorem errors_after (scan : List ScanItem) (n : Nat) :
    (List.range n).flatMap (fun i => (next (after scan i)).1) ++ errors (after scan n) = errors scan := by
  induction n with
  | zero => rfl
  | succ n ih =>
      rw [List.range_succ, List.flatMap_append, List.append_assoc, List.flatMap_singleton, after, errors_next]
      exact ih

/-- Nothing is left of a scan, or a token ends it. -/
def Ended (scan : List ScanItem) : Prop := scan = [] ∨ ∃ init t, scan = init ++ [.token t]

theorem ended_items (line : Nat) (ps : List Piece) : Ended (items line ps) := by
  refine .inr ?_
  induction ps generalizing line with
  | nil => exact ⟨[], endToken line, rfl⟩
  | cons p ps ih =>
      obtain ⟨init, t, h⟩ := ih (line + p.lineFeeds)
      exact ⟨(p.item? (line + p.lineFeeds)).toList ++ init, t, by rw [items, h, List.append_assoc]⟩

theorem Ended.next (h : Ended scan) : Ended (next scan).2.2 := by
  rcases h with rfl | ⟨init, t, rfl⟩
  · exact .inl rfl
  · induction init with
    | nil => exact .inl rfl
    | cons item init ih =>
        cases item with
        | token u => exact .inr ⟨init, t, rfl⟩
        | error e => exact ih

theorem Ended.after (h : Ended scan) (n : Nat) : Ended (after scan n) := by
  induction n with
  | zero => exact h
  | succ n ih => exact ih.next

theorem Ended.eq_nil (h : Ended scan) (ht : tokens scan = []) : scan = [] := by
  rcases h with rfl | ⟨init, t, rfl⟩
  · rfl
  · rw [tokens_append] at ht
    exact absurd (List.append_eq_nil_iff.1 ht).2 (List.cons_ne_nil t [])

/-- All errors are told by the time the last token is asked for. -/
theorem Ended.errors_eq (h : Ended scan) {n : Nat} (hn : (tokens scan).length ≤ n) :
    (List.range n).flatMap (fun i => (Scan.next (Scan.after scan i)).1) = errors scan := by
  have ht := tokens_after scan n
  rw [List.drop_of_length_le hn] at ht
  have he := errors_after scan n
  rw [(h.after n).eq_nil ht] at he
  exact (List.append_nil _).symm.trans he

end Scan

theorem Shape.type_ne_eof {type : TokenType} {text : List Char} (h : Shape (.token type) text) : type ≠ .eof := by
  cases h with
  | mark hm =>
      have hk : ∀ m ∈ TokenType.marks, m.2 ≠ .eof := by decide
      exact hk _ hm
  | keyword _ _ hm =>
      have hk : ∀ k ∈ TokenType.keywords, k.2 ≠ .eof := by decide
      exact hk _ hm
  | string | whole | decimal | identifier => decide

theorem Splits.shape {source : List Char} {ps : List Piece} (h : Splits source ps) :
    ∀ p ∈ ps, Shape p.form p.text := by
  induction h with
  | nil => exact fun _ hp => absurd hp List.not_mem_nil
  | cons hp _ ih => exact List.forall_mem_cons.2 ⟨hp.shape, ih⟩

theorem type_of_pieceTokens {ps : List Piece} (h : ∀ p ∈ ps, Shape p.form p.text) :
    ∀ t ∈ pieceTokens ps, t.type ≠ .eof := by
  intro t ht
  obtain ⟨⟨p, i⟩, hp, hs⟩ := List.mem_filterMap.1 ht
  have hm : p ∈ ps := List.fst_mem_of_mem_zipIdx hp
  have hf := h p hm
  unfold Piece.token? at hs
  split at hs
  · next type he =>
      rw [he] at hf
      cases hs
      exact hf.type_ne_eof
  · cases hs

/-- A token carries what its text denotes if it is a number or a string, and nothing else. -/
theorem Scan.literal_of_mem {source : String} {t : Token} (ht : t ∈ tokens (ofSource source)) :
    t.literal = Piece.literal? t.type t.lexeme.toList := by
  rw [tokens_ofSource] at ht
  rcases List.mem_append.1 ht with ht | ht
  · obtain ⟨⟨p, i⟩, -, hs⟩ := List.mem_filterMap.1 ht
    unfold Piece.token? at hs
    split at hs
    · cases hs
      rw [String.toList_ofList]
    · cases hs
  · obtain rfl := List.mem_singleton.1 ht
    rfl

/-- The scanner loses nothing and adds nothing: a source splits in one way, its tokens and errors are those of its
pieces in their order, and asking for tokens gives them one by one, the end once, and then none for ever. -/
theorem Scan.ofSource_exact (source : String) :
    ∃ ps : List Piece,
      (∀ qs, Splits source.toList qs ↔ qs = ps) ∧
      ps.flatMap Piece.text = source.toList ∧
      tokens (ofSource source) = pieceTokens ps ++ [endToken (1 + source.toList.count '\n')] ∧
      (∀ t ∈ pieceTokens ps, t.type ≠ .eof) ∧
      errors (ofSource source) = pieceErrors ps ∧
      ∀ n, (next (after (ofSource source) n)).2.1 = (tokens (ofSource source))[n]? ∧
        (List.range n).flatMap (fun i => (next (after (ofSource source) i)).1) <+: errors (ofSource source) ∧
        ((tokens (ofSource source)).length ≤ n →
          (List.range n).flatMap (fun i => (next (after (ofSource source) i)).1) = errors (ofSource source)) := by
  have hs : Splits source.toList (pieces source.toList) := splits_iff.2 rfl
  have hended : Ended (ofSource source) := ofSource_eq_items source ▸ ended_items 1 _
  refine ⟨pieces source.toList, fun qs => splits_iff, pieces_flatten _, tokens_ofSource source,
    type_of_pieceTokens hs.shape, errors_ofSource source, fun n => ⟨?_, ?_, hended.errors_eq⟩⟩
  · rw [next_token, tokens_after, List.head?_drop]
  · exact ⟨_, errors_after _ n⟩

end Treewalk
