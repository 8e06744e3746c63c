import Treewalk.Proofs.Source.Scanning
import Treewalk.Proofs.Syntax.Tokens

/- Seams: after a line feed the scanner starts afresh. A source without lexical errors, a line feed and another source
fall into the pieces of the one, a blank and the pieces of the other. -/

namespace Treewalk

section
variable {α : Type} {p : α → Bool} {b : α}

theorem takeWhile_seam (hb : ¬p b) (as bs : List α) : (as ++ b :: bs).takeWhile p = as.takeWhile p := by
  induction as with
  | nil => rw [List.nil_append, List.takeWhile_cons_of_neg hb, List.takeWhile_nil]
  | cons a as ih =>
      rw [List.cons_append, List.takeWhile_cons, List.takeWhile_cons, ih]

theorem dropWhile_seam (hb : ¬p b) (as bs : List α) : (as ++ b :: bs).dropWhile p = as.dropWhile p ++ b :: bs := by
  induction as with
  | nil => rw [List.nil_append, List.dropWhile_cons_of_neg hb, List.dropWhile_nil, List.nil_append]
  | cons a as ih =>
      rw [List.cons_append, List.dropWhile_cons, List.dropWhile_cons, ih]
      split <;> rfl

end

namespace Piece

/-- The cut where `more` follows the source. -/
def followed (more : List Char) (x : Cut) : Cut := { x with rest := x.rest ++ more }

theorem closeComment_more {n : Nat} {cs body after : List Char} (h : (closeComment n cs).1 = some (body, after))
    (more : List Char) : closeComment n (cs ++ more) = (some (body, after ++ more), (closeComment n cs).2) := by
  fun_induction closeComment n cs generalizing body after with
  | case1 n rest =>
      cases h
      rfl
  | case2 n c rest hn ih =>
      obtain ⟨⟨b, a⟩, hb, he⟩ := Option.map_eq_some_iff.1 h
      cases he
      have hn' : ∀ rest', c = '*' → rest ++ more = '/' :: rest' → False := by
        intro rest' hc hr
        cases rest with
        | nil => cases hb
        | cons d rest =>
            cases hr
            exact hn rest hc rfl
      rw [List.cons_append, closeComment, ih hb]
      · rfl
      · exact hn'
  | case3 => cases h

section
variable {b : Char} (hb : Alphabet.isBlank b) (more : List Char)

include hb

theorem slash_seam {rest : List Char} (ho : ¬(slash rest).piece.form.isOpen)
    (hc : (slash rest).piece.form = .comment → b = '\n') :
    slash (rest ++ b :: more) = followed (b :: more) (slash rest) := by
  fun_cases slash rest with
  | case1 rest =>
      have hn : ¬(b != '\n') = true := by simp [hc rfl]
      rw [List.cons_append, slash, takeWhile_seam (p := (· != '\n')) hn, dropWhile_seam (p := (· != '\n')) hn]
      rfl
  | case2 rest body after n h =>
      simp only [List.cons_append, slash, closeComment_more (congrArg Prod.fst h), h]
      rfl
  | case3 rest n h => simp [slash, h, Form.isOpen] at ho
  | case4 rest hl hr =>
      rw [slash]
      · rfl
      · intro after h
        cases rest with
        | nil => cases h; exact absurd hb (by decide)
        | cons c rest => cases h; exact hl rest rfl
      · intro after h
        cases rest with
        | nil => cases h; exact absurd hb (by decide)
        | cons c rest => cases h; exact hr rest rfl

omit hb in
theorem string_seam {rest : List Char} (ho : ¬(string rest).piece.form.isOpen) :
    string (rest ++ b :: more) = followed (b :: more) (string rest) := by
  cases h : rest.dropWhile (· != '"') with
  | nil => simp [string_eq, h, Form.isOpen] at ho
  | cons quote after =>
      have ht := List.takeWhile_append_dropWhile (p := (· != '"')) (l := rest)
      have hd : (rest ++ b :: more).dropWhile (· != '"') = quote :: (after ++ b :: more) := by
        rw [List.dropWhile_append, h]
        rfl
      have hk : (rest ++ b :: more).takeWhile (· != '"') = rest.takeWhile (· != '"') := by
        rw [List.takeWhile_append, if_neg]
        intro hl
        rw [h] at ht
        have := congrArg List.length ht
        simp only [List.length_append, List.length_cons] at this
        omega
      simp only [string_eq, h, hd, hk]
      rfl

theorem number_seam (c : Char) (rest : List Char) :
    number c (rest ++ b :: more) = followed (b :: more) (number c rest) := by
  have hd : ¬b.isDigit := fun h => (plain_of_class (by decide) h).2 hb
  have hp : b ≠ '.' := by
    rintro rfl
    exact absurd hb (by decide)
  unfold number
  rw [takeWhile_seam hd, dropWhile_seam hd]
  cases rest.dropWhile Char.isDigit with
  | nil => simp [followed, hp]
  | cons d after =>
      by_cases hd' : d = '.'
      · subst hd'
        cases after with
        | nil => simp [followed, hd]
        | cons d after =>
            have hs : d :: (after ++ b :: more) = d :: after ++ b :: more := rfl
            simp only [List.cons_append]
            rw [hs, takeWhile_seam hd, dropWhile_seam hd]
            split <;> rfl
      · simp [followed, hd']

theorem word_seam (c : Char) (rest : List Char) :
    word c (rest ++ b :: more) = followed (b :: more) (word c rest) := by
  have hw : ¬Alphabet.isWordChar b := fun h => (plain_of_class (by decide) h).2 hb
  rw [word, takeWhile_seam hw, dropWhile_seam hw]
  rfl

/-- A blank ends every piece that can end before it; a comment to the end of the line only the end of the line. -/
theorem cut_seam {c : Char} {rest : List Char} (ho : ¬(cut c rest).piece.form.isOpen)
    (hc : (cut c rest).piece.form = .comment → b = '\n') :
    cut c (rest ++ b :: more) = followed (b :: more) (cut c rest) := by
  unfold cut at ho hc ⊢
  cases hs : single? c with
  | some type => rfl
  | none =>
      cases hw : withEqual? c with
      | some types =>
          obtain ⟨alone, doubled⟩ := types
          simp only
          match rest with
          | [] =>
              have he : b ≠ '=' := by
                rintro rfl
                exact absurd hb (by decide)
              simp [followed, he]
          | d :: rest =>
              by_cases he : d = '='
              · subst he
                rfl
              · simp [followed, he]
      | none =>
          simp only [hs, hw] at ho hc ⊢
          split
          · next h =>
              rw [if_pos h] at ho hc
              exact slash_seam hb more ho hc
          · next h =>
              rw [if_neg h] at ho hc
              split
              · next h =>
                  rw [if_pos h] at ho
                  exact string_seam more ho
              · split
                · rfl
                · split
                  · exact number_seam hb more c rest
                  · split
                    · exact word_seam hb more c rest
                    · rfl

end

end Piece

/-- Where no piece of a source is open, a line feed starts the pieces afresh. -/
theorem pieces_seam {cs : List Char} (ho : ∀ p ∈ pieces cs, ¬p.form.isOpen) (ds : List Char) :
    pieces (cs ++ '\n' :: ds) = pieces cs ++ ⟨.blank, ['\n']⟩ :: pieces ds := by
  fun_induction pieces cs with
  | case1 =>
      rw [List.nil_append, pieces, Piece.cut_blank ds (by decide)]
      rfl
  | case2 c rest ih =>
      obtain ⟨hc, hr⟩ := List.forall_mem_cons.1 ho
      rw [List.cons_append, pieces, Piece.cut_seam (by decide) ds hc fun _ => rfl, Piece.followed, ih hr]
      rfl

namespace Scan

theorem not_isOpen_of_errors {line : Nat} {ps : List Piece} (h : errors (items line ps) = []) :
    ∀ p ∈ ps, ¬p.form.isOpen := by
  induction ps generalizing line with
  | nil => exact fun _ hp => absurd hp List.not_mem_nil
  | cons p ps ih =>
      rw [items, errors_append, errors_item?] at h
      obtain ⟨hp, hr⟩ := List.append_eq_nil_iff.1 h
      refine List.forall_mem_cons.2 ⟨?_, ih hr⟩
      unfold Piece.error? at hp
      intro ho
      cases hf : p.form <;> simp [hf, Form.isOpen] at hp ho

theorem exists_items (line : Nat) (ps : List Piece) :
    ∃ init, items line ps = init ++ [.token (endToken (line + (ps.flatMap Piece.text).count '\n'))] := by
  induction ps generalizing line with
  | nil => exact ⟨[], rfl⟩
  | cons p ps ih =>
      obtain ⟨init, h⟩ := ih (line + p.lineFeeds)
      refine ⟨(p.item? (line + p.lineFeeds)).toList ++ init, ?_⟩
      rw [items, h, List.append_assoc, List.flatMap_cons, List.count_append, ← Nat.add_assoc]
      rfl

theorem items_append (line : Nat) (ps qs : List Piece) :
    items line (ps ++ qs) = (items line ps).dropLast ++ items (line + (ps.flatMap Piece.text).count '\n') qs := by
  induction ps generalizing line with
  | nil => rfl
  | cons p ps ih =>
      obtain ⟨init, h⟩ := exists_items (line + p.lineFeeds) ps
      rw [List.cons_append, items, items, ih, List.dropLast_append_of_ne_nil (by simp [h]), List.append_assoc,
        List.flatMap_cons, List.count_append, ← Nat.add_assoc]
      rfl

end Scan

/-- The same item, `k` lines further down. -/
def ScanItem.shift (k : Nat) : ScanItem → ScanItem
  | token t => token (t.shift k)
  | error e => error { e with line := e.line + k }

namespace Scan

theorem items_shift (k line : Nat) (ps : List Piece) :
    items (line + k) ps = (items line ps).map (ScanItem.shift k) := by
  induction ps generalizing line with
  | nil => rfl
  | cons p ps ih =>
      have hi : (p.item? (line + k + p.lineFeeds)).toList =
          (p.item? (line + p.lineFeeds)).toList.map (ScanItem.shift k) := by
        rw [Nat.add_right_comm]
        unfold Piece.item?
        cases p.form <;> rfl
      rw [items, items, List.map_append, hi, Nat.add_right_comm, ih]

/-- The scan of one source, its end left out, and then that of the other, further down. -/
theorem ofSource_join {source : String} (h : errors (ofSource source) = []) (source' : String) :
    ofSource (source ++ "\n" ++ source') =
      (ofSource source).dropLast ++ (ofSource source').map (ScanItem.shift (source.toList.count '\n' + 1)) := by
  have hs : (source ++ "\n" ++ source').toList = source.toList ++ '\n' :: source'.toList := by
    rw [String.toList_append, String.toList_append, List.append_assoc]
    rfl
  have hi : items (1 + source.toList.count '\n') (⟨.blank, ['\n']⟩ :: pieces source'.toList) =
      items (1 + (source.toList.count '\n' + 1)) (pieces source'.toList) := rfl
  rw [ofSource_eq_items] at h
  rw [ofSource_eq_items, ofSource_eq_items, ofSource_eq_items, hs, pieces_seam (not_isOpen_of_errors h), items_append,
    pieces_flatten, hi, items_shift]

theorem tokens_shift (k : Nat) (scan : List ScanItem) :
    tokens (scan.map (ScanItem.shift k)) = (tokens scan).map (Token.shift k) := by
  induction scan with
  | nil => rfl
  | cons item scan ih =>
      cases item with
      | token t => exact congrArg (t.shift k :: ·) ih
      | error e => exact ih

theorem errors_shift (k : Nat) {scan : List ScanItem} (h : errors scan = []) :
    errors (scan.map (ScanItem.shift k)) = [] := by
  induction scan with
  | nil => rfl
  | cons item scan ih =>
      cases item with
      | token t => exact ih h
      | error e => cases h

theorem errors_join {source source' : String} (h : errors (ofSource source) = [])
    (h' : errors (ofSource source') = []) : errors (ofSource (source ++ "\n" ++ source')) = [] := by
  obtain ⟨init, hi⟩ := exists_items 1 (pieces source.toList)
  rw [ofSource_join h, ofSource_eq_items source, hi, List.dropLast_concat, errors_append, errors_shift _ h', List.append_nil]
  rw [ofSource_eq_items, hi, errors_append] at h
  exact (List.append_eq_nil_iff.1 h).1

/-- The tokens of one source and then those of the other, further down. -/
theorem pieceTokens_join {source : String} (h : errors (ofSource source) = []) (source' : String) :
    pieceTokens (pieces (source ++ "\n" ++ source').toList) =
      pieceTokens (pieces source.toList) ++
        (pieceTokens (pieces source'.toList)).map (Token.shift (source.toList.count '\n' + 1)) := by
  obtain ⟨init, hi⟩ := exists_items 1 (pieces source.toList)
  have ht := tokens_ofSource source
  have hj := tokens_ofSource (source ++ "\n" ++ source')
  rw [ofSource_eq_items, hi, tokens_append] at ht
  obtain ⟨hn, -⟩ := List.append_inj' ht rfl
  rw [ofSource_join h, ofSource_eq_items source, hi, List.dropLast_concat, tokens_append, tokens_shift, tokens_ofSource source',
    List.map_append, ← List.append_assoc, hn] at hj
  exact (List.append_inj' hj rfl).1.symm

end Scan

end Treewalk
