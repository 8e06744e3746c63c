import Treewalk.Proofs.Source.Shape

/- Cutting finds the one piece that fits at the start of a source. -/

namespace Treewalk

section Spans

variable {α : Type} {p : α → Bool} {body rest : List α}

theorem takeWhile_run (hb : ∀ a ∈ body, p a) (hr : ∀ a ∈ rest.head?, ¬p a) : (body ++ rest).takeWhile p = body := by
  rw [List.takeWhile_append_of_pos hb]
  cases rest with
  | nil => exact List.append_nil body
  | cons a rest => rw [List.takeWhile_cons_of_neg (hr a rfl), List.append_nil]

theorem dropWhile_run (hb : ∀ a ∈ body, p a) (hr : ∀ a ∈ rest.head?, ¬p a) : (body ++ rest).dropWhile p = rest := by
  rw [List.dropWhile_append_of_pos hb]
  cases rest with
  | nil => rfl
  | cons a rest => exact List.dropWhile_cons_of_neg (hr a rfl)

theorem mem_takeWhile {a : α} {as : List α} (h : a ∈ as.takeWhile p) : p a := by
  induction as with
  | nil => cases h
  | cons b as ih =>
      by_cases hb : p b
      · rw [List.takeWhile_cons_of_pos hb] at h
        cases h with
        | head => exact hb
        | tail _ h => exact ih h
      · rw [List.takeWhile_cons_of_neg hb] at h
        cases h

theorem length_le_takeWhile (hb : ∀ a ∈ body, p a) (rest : List α) :
    body.length ≤ ((body ++ rest).takeWhile p).length := by
  rw [List.takeWhile_append_of_pos hb, List.length_append]
  exact Nat.le_add_right _ _

end Spans

namespace Piece

theorem closeComment_eq_none (n : Nat) {cs : List Char} (h : ¬['*', '/'] <:+: cs) : (closeComment n cs).1 = none := by
  fun_induction closeComment n cs with
  | case1 n rest => exact absurd (List.infix_append [] ['*', '/'] rest) h
  | case2 n c rest _ ih => exact congrArg (Option.map _) (ih fun hi => h (List.infix_cons hi))
  | case3 => rfl

theorem closeComment_append_close (n : Nat) {body : List Char} (h : ¬['*', '/'] <:+: body ++ ['*'])
    (after : List Char) : (closeComment n (body ++ '*' :: '/' :: after)).1 = some (body ++ ['*', '/'], after) := by
  induction body generalizing n with
  | nil => rfl
  | cons c body ih =>
      rw [List.cons_append, closeComment]
      · exact congrArg (Option.map _) (ih (passed n c) fun hi => h (List.infix_cons hi))
      · rintro rest rfl he
        -- A slash after this star would close the comment here.
        cases body with
        | nil => cases he
        | cons d body =>
            obtain ⟨rfl, -⟩ := List.cons.inj he
            exact h (List.infix_append [] ['*', '/'] (body ++ ['*']))

theorem not_infix_of_closeComment {n : Nat} {cs : List Char} (h : (closeComment n cs).1 = none) :
    ¬['*', '/'] <:+: cs := by
  fun_induction closeComment n cs with
  | case1 n rest => cases h
  | case2 n c rest hc ih =>
      rw [List.infix_cons_iff]
      rintro (hp | hi)
      · obtain ⟨rfl, t, ht⟩ := List.cons_prefix_cons.1 hp
        exact hc t rfl ht.symm
      · exact ih (Option.map_eq_none_iff.1 h) hi
  | case3 => decide

theorem closeComment_eq_some {n : Nat} {cs text after : List Char} (h : (closeComment n cs).1 = some (text, after)) :
    ∃ body, text = body ++ ['*', '/'] ∧ ¬['*', '/'] <:+: body ++ ['*'] := by
  fun_induction closeComment n cs generalizing text after with
  | case1 n rest =>
      cases h
      exact ⟨[], rfl, by decide⟩
  | case2 n c rest hc ih =>
      obtain ⟨⟨b, a⟩, hb, he⟩ := Option.map_eq_some_iff.1 h
      cases he
      obtain ⟨body, rfl, hn⟩ := ih hb
      refine ⟨c :: body, rfl, fun hi => ?_⟩
      rw [List.cons_append, List.infix_cons_iff] at hi
      refine hi.elim (fun hp => ?_) hn
      -- The star and the slash would have closed the comment before `c`.
      have ha := closeComment_append hb
      obtain ⟨rfl, hs⟩ := List.cons_prefix_cons.1 hp
      cases body with
      | nil => exact absurd hs (by decide)
      | cons d body =>
          obtain ⟨rfl, -⟩ := List.cons_prefix_cons.1 hs
          exact hc _ rfl ha.symm
  | case3 => cases h

/-- The line feeds that were passed are those up to the end of the comment. -/
theorem feeds_of_closed {n : Nat} {cs body after : List Char} (h : (closeComment n cs).1 = some (body, after)) :
    (closeComment n cs).2 = n + body.count '\n' := by
  fun_induction closeComment n cs generalizing body after with
  | case1 n rest =>
      cases h
      rfl
  | case2 n c rest _ ih =>
      obtain ⟨⟨b, a⟩, hb, he⟩ := Option.map_eq_some_iff.1 h
      cases he
      exact (ih hb).trans (passed_add n c b)
  | case3 => cases h

theorem feeds_of_open {n : Nat} {cs : List Char} (h : (closeComment n cs).1 = none) :
    (closeComment n cs).2 = n + cs.count '\n' := by
  fun_induction closeComment n cs with
  | case1 n rest => cases h
  | case2 n c rest _ ih => exact (ih (Option.map_eq_none_iff.1 h)).trans (passed_add n c rest)
  | case3 => rfl

/-- The characters that start a string, a comment or a mark. -/
def special : List Char := '"' :: TokenType.marks.filterMap (·.1.head?)

theorem mem_special_of_single {c : Char} (h : single? c ≠ none) : c ∈ special := by
  unfold single? at h
  split at h <;> first | decide | exact absurd rfl h

theorem mem_special_of_withEqual {c : Char} (h : withEqual? c ≠ none) : c ∈ special := by
  unfold withEqual? at h
  split at h <;> first | decide | exact absurd rfl h

theorem isBlank_iff {c : Char} : Alphabet.isBlank c ↔ c ∈ [' ', '\t', '\r', '\n'] := by
  simp [Alphabet.isBlank, or_assoc]

section Start

variable {c : Char} (rest : List Char)

theorem cut_plain (h : c ∉ special) :
    cut c rest =
      if Alphabet.isBlank c then ⟨⟨.blank, [c]⟩, rest, passed 0 c⟩
      else if c.isDigit then number c rest
      else if Alphabet.isLetter c then word c rest
      else ⟨⟨.unexpected, [c]⟩, rest, 0⟩ := by
  have hs : single? c = none := Decidable.byContradiction fun hs => h (mem_special_of_single hs)
  have hw : withEqual? c = none := Decidable.byContradiction fun hw => h (mem_special_of_withEqual hw)
  have hc : c ≠ '/' := by rintro rfl; exact h (by decide)
  have hq : c ≠ '"' := by rintro rfl; exact h (by decide)
  simp only [cut, hs, hw, hc, hq, if_false]

/-- A class without blanks and special characters. -/
theorem plain_of_class {p : Char → Bool} (hp : ([' ', '\t', '\r', '\n'] ++ special).all (!p ·)) (h : p c) :
    c ∉ special ∧ ¬Alphabet.isBlank c := by
  have hn : ∀ d ∈ [' ', '\t', '\r', '\n'] ++ special, ¬p d := by simpa using hp
  refine ⟨fun hs => hn c (List.mem_append_right _ hs) h, fun hb => ?_⟩
  exact hn c (List.mem_append_left _ (isBlank_iff.1 hb)) h

theorem cut_blank (h : c ∈ [' ', '\t', '\r', '\n']) : cut c rest = ⟨⟨.blank, [c]⟩, rest, passed 0 c⟩ := by
  have hs : special.all (!Alphabet.isBlank ·) := by decide
  have hc : c ∉ special := fun hm => by simpa [isBlank_iff.2 h] using List.all_eq_true.1 hs c hm
  rw [cut_plain rest hc, if_pos (isBlank_iff.2 h)]

theorem cut_digit (h : c.isDigit) : cut c rest = number c rest := by
  obtain ⟨hs, hb⟩ := plain_of_class (by decide) h
  rw [cut_plain rest hs, if_neg hb, if_pos h]

theorem not_isDigit_of_isLetter (h : Alphabet.isLetter c) : ¬c.isDigit := by
  intro hd
  have hlt : c.toNat < 65 := by
    simp only [Char.isDigit, Bool.and_eq_true, decide_eq_true_eq] at hd
    have := UInt32.le_iff_toNat_le.1 hd.2
    exact Nat.lt_of_le_of_lt this (by decide)
  exact Bool.false_ne_true ((if_pos hlt).symm.trans h)

theorem cut_letter (h : Alphabet.isLetter c) : cut c rest = word c rest := by
  obtain ⟨hs, hb⟩ := plain_of_class (by decide) h
  rw [cut_plain rest hs, if_neg hb, if_neg (not_isDigit_of_isLetter h), if_pos h]

end Start

theorem one_le_cut (c : Char) (rest : List Char) : 1 ≤ (cut c rest).piece.text.length :=
  List.length_pos_iff.2 (cut_text_ne_nil c rest)

/-- A mark is one character or ends with the sign that doubles it. -/
theorem mark_cases {text : List Char} {type : TokenType} (h : (text, type) ∈ TokenType.marks) :
    (∃ c, text = [c]) ∨ ∃ c types, text = [c, '='] ∧ single? c = none ∧ withEqual? c = some types := by
  simp only [TokenType.marks, List.mem_cons, Prod.mk.injEq, List.not_mem_nil, or_false] at h
  rcases h with ⟨rfl, -⟩ | ⟨rfl, -⟩ | ⟨rfl, -⟩ | ⟨rfl, -⟩ | ⟨rfl, -⟩ | ⟨rfl, -⟩ | ⟨rfl, -⟩ | ⟨rfl, -⟩ | ⟨rfl, -⟩ |
    ⟨rfl, -⟩ | ⟨rfl, -⟩ | ⟨rfl, -⟩ | ⟨rfl, -⟩ | ⟨rfl, -⟩ | ⟨rfl, -⟩ | ⟨rfl, -⟩ | ⟨rfl, -⟩ | ⟨rfl, -⟩ | ⟨rfl, -⟩ <;>
    first | exact .inl ⟨_, rfl⟩ | exact .inr ⟨_, _, rfl, rfl, rfl⟩

theorem ne_of_not_mem {stop : Char} {body : List Char} (h : stop ∉ body) : ∀ d ∈ body, (d != stop) = true :=
  fun _ hd => bne_iff_ne.2 fun he => h (he ▸ hd)

theorem slash_closed {body : List Char} (h : ¬['*', '/'] <:+: body ++ ['*']) (after : List Char) :
    Piece.slash ('*' :: (body ++ '*' :: '/' :: after)) =
      ⟨⟨.comment, '/' :: '*' :: (body ++ ['*', '/'])⟩, after, (body ++ ['*', '/']).count '\n'⟩ := by
  have hc := closeComment_append_close 0 h after
  have hn := feeds_of_closed hc
  rw [Nat.zero_add] at hn
  have hx : closeComment 0 (body ++ '*' :: '/' :: after) =
      (some (body ++ ['*', '/'], after), (body ++ ['*', '/']).count '\n') := Prod.ext hc hn
  simp only [Piece.slash, hx]

theorem slash_open {body : List Char} (h : ¬['*', '/'] <:+: body) :
    Piece.slash ('*' :: body) = ⟨⟨.openComment, '/' :: '*' :: body⟩, [], body.count '\n'⟩ := by
  have hc := closeComment_eq_none 0 h
  have hn := feeds_of_open hc
  rw [Nat.zero_add] at hn
  have hx : closeComment 0 body = (none, body.count '\n') := Prod.ext hc hn
  simp only [Piece.slash, hx]

theorem string_closed {body : List Char} (h : '"' ∉ body) (after : List Char) :
    Piece.string (body ++ '"' :: after) = ⟨⟨.token .string, '"' :: (body ++ ['"'])⟩, after, body.count '\n'⟩ := by
  have hq : ∀ d ∈ ('"' :: after).head?, ¬(d != '"') = true := by simp
  simp only [string_eq, takeWhile_run (ne_of_not_mem h) hq, dropWhile_run (ne_of_not_mem h) hq, List.cons_append]

theorem string_open {body : List Char} (h : '"' ∉ body) :
    Piece.string body = ⟨⟨.openString, '"' :: body⟩, [], body.count '\n'⟩ := by
  have hq : ∀ d ∈ ([] : List Char).head?, ¬(d != '"') = true := by simp
  have ht := takeWhile_run (ne_of_not_mem h) hq
  have hd := dropWhile_run (ne_of_not_mem h) hq
  rw [List.append_nil] at ht hd
  simp only [string_eq, ht, hd]

theorem number_form (c : Char) (rest : List Char) : (number c rest).piece.form = .token .number := by
  unfold number
  split
  · split <;> rfl
  · rfl

theorem length_le_number (c : Char) {body : List Char} (hb : ∀ d ∈ body, d.isDigit) (after : List Char) :
    body.length + 1 ≤ (number c (body ++ after)).1.text.length := by
  have hl := length_le_takeWhile (p := Char.isDigit) hb after
  unfold number
  split
  · split
    · simp only [List.cons_append, List.length_cons, List.length_append]
      omega
    · exact Nat.succ_le_succ hl
  · exact Nat.succ_le_succ hl

theorem length_le_number_decimal (c : Char) {body fraction : List Char} (hb : ∀ d ∈ body, d.isDigit)
    (hn : fraction ≠ []) (hf : ∀ d ∈ fraction, d.isDigit) (after : List Char) :
    body.length + 1 + (fraction.length + 1) ≤
      (number c (body ++ '.' :: (fraction ++ after))).1.text.length := by
  obtain ⟨d, fraction, rfl⟩ := List.exists_cons_of_ne_nil hn
  have hp : ∀ e ∈ ('.' :: d :: (fraction ++ after)).head?, ¬e.isDigit := by
    rintro e ⟨⟩
    decide
  have hl := length_le_takeWhile (p := Char.isDigit) hf after
  have hd := hf d (List.mem_cons_self ..)
  have hw := takeWhile_run hb hp
  have hr := dropWhile_run hb hp
  rw [List.cons_append] at hl ⊢
  simp only [number, hw, hr, hd, if_true, List.cons_append, List.length_cons, List.length_append] at hl ⊢
  omega

theorem length_le_word (c : Char) {body : List Char} (hb : ∀ d ∈ body, Alphabet.isWordChar d) (after : List Char) :
    body.length + 1 ≤ (word c (body ++ after)).1.text.length :=
  Nat.succ_le_succ (length_le_takeWhile hb after)

end Piece

open Piece

/-- No text of a form that starts a source is longer than the piece that is cut from it. -/
theorem Shape.length_le_cut {form : Form} {text : List Char} (h : Shape form text) {c : Char}
    {rest after : List Char} (he : text ++ after = c :: rest) (ho : form.isOpen → after = []) :
    text.length ≤ (cut c rest).piece.text.length := by
  cases h with
  | blank | unexpected => exact one_le_cut c rest
  | @lineComment body hb =>
      cases he
      exact Nat.succ_le_succ (Nat.succ_le_succ (length_le_takeWhile (ne_of_not_mem hb) after))
  | @blockComment body hb =>
      simp only [List.cons_append, List.append_assoc, List.nil_append] at he
      cases he
      exact Nat.le_of_eq (congrArg (·.piece.text.length) (slash_closed hb after)).symm
  | mark hm =>
      rcases mark_cases hm with ⟨d, rfl⟩ | ⟨d, types, rfl, hs, hw⟩
      · exact one_le_cut c rest
      · cases he
        simp only [cut, hs, hw]
        exact Nat.le_refl _
  | @string body hb =>
      simp only [List.cons_append, List.append_assoc, List.nil_append] at he
      cases he
      exact Nat.le_of_eq (congrArg (·.piece.text.length) (string_closed hb after)).symm
  | whole hn hd =>
      obtain ⟨d, body, rfl⟩ := List.exists_cons_of_ne_nil hn
      obtain ⟨hd, hb⟩ := List.forall_mem_cons.1 hd
      cases he
      rw [cut_digit _ hd]
      exact length_le_number c hb after
  | @decimal _ fraction hn hd hn' hd' =>
      obtain ⟨d, body, rfl⟩ := List.exists_cons_of_ne_nil hn
      obtain ⟨hd, hb⟩ := List.forall_mem_cons.1 hd
      simp only [List.cons_append, List.append_assoc] at he
      cases he
      rw [cut_digit _ hd, List.length_append]
      exact length_le_number_decimal c hb hn' hd' after
  | keyword hc hr | identifier hc hr =>
      cases he
      rw [cut_letter _ hc]
      exact length_le_word _ hr after
  | openComment hb =>
      rw [ho rfl, List.append_nil] at he
      cases he
      exact Nat.le_of_eq (congrArg (·.piece.text.length) (slash_open hb)).symm
  | openString hb =>
      rw [ho rfl, List.append_nil] at he
      cases he
      exact Nat.le_of_eq (congrArg (·.piece.text.length) (string_open hb)).symm

theorem TokenType.ofWord_of_mem {word : String} {type : TokenType} (h : (word, type) ∈ keywords) :
    ofWord word = type := by
  have hk : ∀ k ∈ keywords, ofWord k.1 = k.2 := by decide
  exact hk _ h

theorem TokenType.ofWord_of_not_mem {word : String} (h : ∀ type, (word, type) ∉ keywords) :
    ofWord word = identifier := by
  unfold ofWord
  rw [List.lookup_eq_none_iff.2]
  · rfl
  · intro k hk
    exact bne_iff_ne.2 fun he => h k.2 (he ▸ hk)

theorem TokenType.mem_keywords_of_lookup {word : String} {type : TokenType} (h : keywords.lookup word = some type) :
    (word, type) ∈ keywords := by
  obtain ⟨before, after, he, -⟩ := List.lookup_eq_some_iff.1 h
  rw [he]
  exact List.mem_append_right before (List.mem_cons_self ..)

theorem word_form (c : Char) {rest : List Char} (hr : ∀ d ∈ rest, Alphabet.isWordChar d) :
    (word c rest).piece.form = .token (.ofWord (String.ofList (c :: rest))) := by
  have hq : ∀ d ∈ ([] : List Char).head?, ¬Alphabet.isWordChar d := by simp
  have ht := takeWhile_run hr hq
  rw [List.append_nil] at ht
  simp only [word, ht]

/-- A text has at most one form, the one it is cut with. -/
theorem Shape.form_cut {form : Form} {text : List Char} (h : Shape form text) {c : Char} {rest : List Char}
    (he : text = c :: rest) : (cut c rest).piece.form = form := by
  cases h with
  | blank hc =>
      cases he
      rw [cut_blank _ hc]
  | unexpected hb hm hq hd hl =>
      cases he
      have hs : c ∉ special := by
        intro hs
        rcases List.mem_cons.1 hs with rfl | hs
        · exact hq rfl
        · obtain ⟨m, hm', he⟩ := List.mem_filterMap.1 hs
          exact hm m hm' he
      rw [cut_plain _ hs, if_neg fun h => hb (isBlank_iff.1 h), if_neg hd, if_neg hl]
  | lineComment => cases he; rfl
  | @blockComment body hb =>
      cases he
      have hs := slash_closed hb []
      change (Piece.slash ('*' :: (body ++ ['*', '/']))).1.form = _
      rw [hs]
  | @mark _ type hm =>
      have hk : ∀ m ∈ TokenType.marks, m.1.head?.map (fun d => (cut d m.1.tail).1.form) = some (.token m.2) := by decide
      cases he
      exact Option.some.inj (hk _ hm)
  | @string body hb =>
      cases he
      have hs := string_closed hb []
      change (Piece.string (body ++ ['"'])).1.form = _
      rw [hs]
  | whole hn hd =>
      cases he
      rw [cut_digit _ (hd c (List.mem_cons_self ..)), number_form]
  | decimal hn hd hn' hd' =>
      obtain ⟨d, body, rfl⟩ := List.exists_cons_of_ne_nil hn
      cases he
      rw [cut_digit _ (hd c (List.mem_cons_self ..)), number_form]
  | keyword hc hr hk =>
      cases he
      rw [cut_letter _ hc, word_form c hr, TokenType.ofWord_of_mem hk]
  | identifier hc hr hk =>
      cases he
      rw [cut_letter _ hc, word_form c hr, TokenType.ofWord_of_not_mem hk]
  | @openComment body hb =>
      cases he
      change (Piece.slash ('*' :: body)).1.form = _
      rw [slash_open hb]
  | openString hb =>
      cases he
      change (Piece.string rest).piece.form = _
      rw [string_open hb]

theorem not_mem_takeWhile (stop : Char) (cs : List Char) : stop ∉ cs.takeWhile (· != stop) := by
  intro h
  exact absurd (mem_takeWhile h) (by simp)

theorem TokenType.mem_marks_of_single {c : Char} {type : TokenType} (h : single? c = some type) :
    ([c], type) ∈ marks := by
  unfold single? at h
  split at h <;> cases h <;> decide

theorem TokenType.mem_marks_of_withEqual {c : Char} {alone doubled : TokenType}
    (h : withEqual? c = some (alone, doubled)) : ([c], alone) ∈ marks ∧ ([c, '='], doubled) ∈ marks := by
  unfold withEqual? at h
  split at h <;> cases h <;> exact ⟨by decide, by decide⟩

theorem TokenType.head_ne_of_mem_marks {c : Char} (hs : single? c = none) (hw : withEqual? c = none) (hc : c ≠ '/') :
    ∀ m ∈ marks, m.1.head? ≠ some c := by
  have hk : marks.all fun m => m.1.head?.all fun d => (single? d).isSome || (withEqual? d).isSome || d == '/' := by
    decide
  intro m hm he
  have hd := List.all_eq_true.1 hk m hm
  simp [he, hs, hw, hc] at hd

/-- A piece has a text of its form, and nothing after it if it is open. -/
def Piece.Formed (x : Cut) : Prop := Shape x.piece.form x.piece.text ∧ (x.piece.form.isOpen → x.rest = [])

theorem closed_formed {form : Form} {text : List Char} (h : Shape form text) (hf : form.isOpen = false)
    (after : List Char) (n : Nat) : Formed ⟨⟨form, text⟩, after, n⟩ :=
  ⟨h, fun ho => absurd ho (by rw [hf]; exact Bool.false_ne_true)⟩

theorem slash_formed (rest : List Char) : Formed (Piece.slash rest) := by
  unfold Piece.slash
  split
  · exact closed_formed (.lineComment (not_mem_takeWhile _ _)) rfl _ _
  · split
    · next h =>
        obtain ⟨body, rfl, hb⟩ := closeComment_eq_some (congrArg Prod.fst h)
        exact closed_formed (.blockComment hb) rfl _ _
    · next h => exact ⟨.openComment (not_infix_of_closeComment (congrArg Prod.fst h)), fun _ => rfl⟩
  · exact closed_formed (.mark (by decide)) rfl _ _

theorem string_formed (rest : List Char) : Formed (Piece.string rest) := by
  rw [string_eq]
  split
  · next quote after h =>
      have hq := List.head?_dropWhile_not (· != '"') rest
      rw [h] at hq
      obtain rfl : quote = '"' := by simpa using hq
      exact closed_formed (.string (not_mem_takeWhile _ _)) rfl _ _
  · exact ⟨.openString (not_mem_takeWhile _ _), fun _ => rfl⟩

theorem number_formed {c : Char} (hc : c.isDigit) (rest : List Char) : Formed (number c rest) := by
  have hd : ∀ d ∈ c :: rest.takeWhile Char.isDigit, d.isDigit :=
    List.forall_mem_cons.2 ⟨hc, fun _ => mem_takeWhile⟩
  unfold number
  split
  · next d after h =>
      split
      · next hd' =>
          refine closed_formed (.decimal (List.cons_ne_nil _ _) hd ?_ fun _ => mem_takeWhile) rfl _ _
          rw [List.takeWhile_cons_of_pos hd']
          exact List.cons_ne_nil _ _
      · exact closed_formed (.whole (List.cons_ne_nil _ _) hd) rfl _ _
  · exact closed_formed (.whole (List.cons_ne_nil _ _) hd) rfl _ _

theorem Shape.word {c : Char} {rest : List Char} (hc : Alphabet.isLetter c) (hr : ∀ d ∈ rest, Alphabet.isWordChar d) :
    Shape (.token (.ofWord (String.ofList (c :: rest)))) (c :: rest) := by
  unfold TokenType.ofWord
  cases h : TokenType.keywords.lookup (String.ofList (c :: rest)) with
  | some type => exact .keyword hc hr (TokenType.mem_keywords_of_lookup h)
  | none =>
      refine .identifier hc hr fun type hm => ?_
      exact absurd rfl (bne_iff_ne.1 (List.lookup_eq_none_iff.1 h _ hm))

theorem word_formed {c : Char} (hc : Alphabet.isLetter c) (rest : List Char) : Formed (word c rest) :=
  closed_formed (.word hc fun _ => mem_takeWhile) rfl _ _

theorem cut_formed (c : Char) (rest : List Char) : Formed (cut c rest) := by
  unfold cut
  split
  · next type h => exact closed_formed (.mark (TokenType.mem_marks_of_single h)) rfl _ _
  · next hs =>
      split
      · next alone doubled h =>
          obtain ⟨ha, hd⟩ := TokenType.mem_marks_of_withEqual h
          split
          · exact closed_formed (.mark hd) rfl _ _
          · exact closed_formed (.mark ha) rfl _ _
      · next hw =>
          split
          · exact slash_formed rest
          · next hc =>
              split
              · exact string_formed rest
              · next hq =>
                  split
                  · next hb => exact closed_formed (.blank (isBlank_iff.1 hb)) rfl _ _
                  · next hb =>
                      split
                      · next hd => exact number_formed hd rest
                      · next hd =>
                          split
                          · next hl => exact word_formed hl rest
                          · next hl =>
                              have hm := TokenType.head_ne_of_mem_marks hs hw hc
                              exact closed_formed (.unexpected (fun h => hb (isBlank_iff.2 h)) hm hq hd hl) rfl _ _

theorem TokenType.feed_not_mem_marks : ∀ m ∈ marks, '\n' ∉ m.1 := by decide

/-- Only strings span lines. -/
theorem Shape.type_of_lineFeed {type : TokenType} {text : List Char} (h : Shape (.token type) text) (hn : '\n' ∈ text) :
    type = .string := by
  have digit : ∀ {digits : List Char}, (∀ d ∈ digits, d.isDigit) → '\n' ∉ digits :=
    fun hd hm => absurd (hd _ hm) (by decide)
  cases h with
  | mark hm => exact absurd hn (TokenType.feed_not_mem_marks _ hm)
  | string => rfl
  | whole _ hd => exact absurd hn (digit hd)
  | decimal _ hd _ hd' =>
      rcases List.mem_append.1 hn with h | h
      · exact absurd h (digit hd)
      · exact absurd ((List.mem_cons.1 h).resolve_left (by decide)) (digit hd')
  | keyword hc hr | identifier hc hr =>
      rcases List.mem_cons.1 hn with h | h
      · rw [← h] at hc
        exact absurd hc (by decide)
      · exact absurd (hr _ h) (by decide)

/-- The line feeds passed are those of the piece. -/
def Cut.Counted (x : Cut) : Prop := x.feeds = x.piece.text.count '\n'

theorem counted_of_not_mem {form : Form} {text : List Char} (h : '\n' ∉ text) (after : List Char) :
    Cut.Counted ⟨⟨form, text⟩, after, 0⟩ := (List.count_eq_zero.2 h).symm

theorem slash_counted (rest : List Char) : (Piece.slash rest).Counted := by
  unfold Piece.slash
  split
  · exact counted_of_not_mem (by simpa using not_mem_takeWhile _ _) _
  · split
    · next n h =>
        have hn := feeds_of_closed (congrArg Prod.fst h)
        rw [h, Nat.zero_add] at hn
        exact hn
    · next n h =>
        have hn := feeds_of_open (congrArg Prod.fst h)
        rw [h, Nat.zero_add] at hn
        exact hn
  · exact counted_of_not_mem (by decide) _

theorem string_counted (rest : List Char) : (Piece.string rest).Counted := by
  rw [string_eq]
  split
  · next quote after h =>
      have hq := List.head?_dropWhile_not (· != '"') rest
      rw [h] at hq
      obtain rfl : quote = '"' := by simpa using hq
      simp [Cut.Counted]
  · simp [Cut.Counted]

theorem number_counted {c : Char} (hc : c.isDigit) (rest : List Char) : (number c rest).Counted := by
  have hs := (number_formed hc rest).1
  rw [number_form] at hs
  have hn : (number c rest).feeds = 0 := by
    unfold number
    split
    · split <;> rfl
    · rfl
  exact hn.trans (List.count_eq_zero.2 fun hm => absurd (hs.type_of_lineFeed hm) (by decide)).symm

theorem word_counted {c : Char} (hc : Alphabet.isLetter c) (rest : List Char) : (word c rest).Counted := by
  refine counted_of_not_mem ?_ _
  rintro (_ | ⟨_, hm⟩)
  · exact absurd hc (by decide)
  · exact absurd (mem_takeWhile hm) (by decide)

/-- The scanner passes as many line feeds as there are in the piece it cuts. -/
theorem cut_counted (c : Char) (rest : List Char) : (cut c rest).Counted := by
  unfold cut
  split
  · next type h => exact counted_of_not_mem (TokenType.feed_not_mem_marks _ (TokenType.mem_marks_of_single h)) _
  · split
    · next alone doubled h =>
        obtain ⟨ha, hd⟩ := TokenType.mem_marks_of_withEqual h
        split
        · exact counted_of_not_mem (TokenType.feed_not_mem_marks _ hd) _
        · exact counted_of_not_mem (TokenType.feed_not_mem_marks _ ha) _
    · split
      · exact slash_counted rest
      · split
        · exact string_counted rest
        · split
          · exact (passed_add 0 c []).trans (Nat.zero_add _)
          · next hb =>
              split
              · next hd => exact number_counted hd rest
              · split
                · next hl => exact word_counted hl rest
                · refine counted_of_not_mem (fun hm => hb ?_) _
                  rw [← List.mem_singleton.1 hm]
                  decide

end Treewalk
