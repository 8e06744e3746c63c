import Mathlib.Data.List.TakeWhile
import Treewalk.Proofs.Number.Nearest
import Treewalk.Proofs.Session.Proper
import Treewalk.Proofs.Source.Layout
import Treewalk.Proofs.Syntax.Agreement

/- Numerals: digits, maybe with a point and digits after it. The tokens that are numbers have such texts, as long as
the source allows, and denote their decimal values as nearly as numbers can. -/

namespace Treewalk

/-- The texts of numbers and their decimal values. -/
inductive Numeral : List Char → ℚ → Prop
  | whole {ds : List Char} (hn : ds ≠ []) (hd : ∀ c ∈ ds, c.isDigit) : Numeral ds (Nat.ofDigitChars 10 ds 0 : Nat)
  | decimal {ds fs : List Char} (hn : ds ≠ []) (hd : ∀ c ∈ ds, c.isDigit) (hn' : fs ≠ []) (hd' : ∀ c ∈ fs, c.isDigit) :
      Numeral (ds ++ '.' :: fs) ((Nat.ofDigitChars 10 ds 0 : Nat) + (Nat.ofDigitChars 10 fs 0 : Nat) / 10 ^ fs.length)

namespace Numeral

theorem shape {text : List Char} {q : ℚ} (h : Numeral text q) : Shape (.token .number) text := by
  cases h with
  | whole hn hd => exact .whole hn hd
  | decimal hn hd hn' hd' => exact .decimal hn hd hn' hd'

/-- The digits before and after a point taken together. -/
theorem decimal_value (ds fs : List Char) :
    ((Nat.ofDigitChars 10 ds 0 : Nat) : ℚ) + (Nat.ofDigitChars 10 fs 0 : Nat) / 10 ^ fs.length =
      (Nat.ofDigitChars 10 (ds ++ fs) 0 : Nat) / 10 ^ fs.length := by
  have hpow : (10 : ℚ) ^ fs.length ≠ 0 := pow_ne_zero _ (by norm_num)
  have hdigits : Nat.ofDigitChars 10 (ds ++ fs) 0 =
      10 ^ fs.length * Nat.ofDigitChars 10 ds 0 + Nat.ofDigitChars 10 fs 0 := by
    rw [Nat.ofDigitChars_append, Nat.ofDigitChars_eq_ofDigitChars_zero]
  rw [hdigits]
  push_cast
  rw [add_div, mul_div_cancel_left₀ _ hpow]

theorem pointed {ds fs : List Char} (hn : ds ≠ []) (hn' : fs ≠ []) (hd : ∀ c ∈ ds ++ fs, c.isDigit) :
    Numeral (ds ++ '.' :: fs) ((Nat.ofDigitChars 10 (ds ++ fs) 0 : Nat) / 10 ^ fs.length) := by
  obtain ⟨hd, hd'⟩ := List.forall_mem_append.1 hd
  rw [← decimal_value]
  exact .decimal hn hd hn' hd'

end Numeral

/-- A numeral is scanned as one number. -/
theorem Numeral.items {text : List Char} {q : ℚ} (h : Numeral text q) :
    Scan.items 1 (pieces text) =
      [.token ⟨.number, String.ofList text, some (.number (.ofDigits text)), 1⟩, .token (endToken 1)] :=
  h.shape.items fun hm => absurd (h.shape.type_of_lineFeed hm) (by decide)

theorem TokenType.number_not_mem : (∀ m ∈ marks, m.2 ≠ number) ∧ ∀ k ∈ keywords, k.2 ≠ number := by decide

theorem Shape.exists_numeral {text : List Char} (h : Shape (.token .number) text) : ∃ q, Numeral text q := by
  cases h with
  | mark hm => exact absurd rfl (TokenType.number_not_mem.1 _ hm)
  | whole hn hd => exact ⟨_, .whole hn hd⟩
  | decimal hn hd hn' hd' => exact ⟨_, .decimal hn hd hn' hd'⟩
  | keyword _ _ hk => exact absurd rfl (TokenType.number_not_mem.2 _ hk)

namespace Number

/-- No point is a digit. -/
theorem ne_point_of_digits {ds : List Char} (hd : ∀ c ∈ ds, c.isDigit) : ∀ c ∈ ds, (c != '.') = true := by
  intro c hc
  refine bne_iff_ne.2 ?_
  rintro rfl
  exact absurd (hd _ hc) (by decide)

theorem ofDigits_whole {ds : List Char} (hd : ∀ c ∈ ds, c.isDigit) :
    ofDigits ds = nearest (Nat.ofDigitChars 10 ds 0) 1 := by
  have hp := ne_point_of_digits hd
  have ht : ds.takeWhile (· != '.') = ds := List.takeWhile_eq_self_iff.2 hp
  have hw : ds.dropWhile (· != '.') = [] := List.dropWhile_eq_nil_iff.2 hp
  simp only [ofDigits, ht, hw, List.drop_nil, List.append_nil]
  rfl

theorem ofDigits_decimal {ds : List Char} (hd : ∀ c ∈ ds, c.isDigit) (fs : List Char) :
    ofDigits (ds ++ '.' :: fs) = nearest (Nat.ofDigitChars 10 (ds ++ fs) 0) (10 ^ fs.length) := by
  have hp : ∀ c ∈ ('.' :: fs).head?, ¬(c != '.') = true := by simp
  have ht := takeWhile_run (ne_point_of_digits hd) hp
  have hw := dropWhile_run (ne_point_of_digits hd) hp
  simp only [ofDigits, ht, hw, List.drop_one, List.tail_cons]
  rfl

/-- A numeral is read as a ratio that is its decimal value. -/
theorem exists_ratio {text : List Char} {q : ℚ} (h : Numeral text q) :
    ∃ n d : Nat, 0 < d ∧ (n : ℚ) / d = q ∧ ofDigits text = nearest n d := by
  cases h with
  | whole _ hd => exact ⟨_, 1, Nat.one_pos, by rw [Nat.cast_one, div_one], ofDigits_whole hd⟩
  | @decimal ds fs _ hd _ _ =>
      refine ⟨_, 10 ^ fs.length, pow_pos (by decide) _, ?_, ofDigits_decimal hd fs⟩
      rw [Numeral.decimal_value, Nat.cast_pow, Nat.cast_ofNat]

/-- A numeral denotes its decimal value, rounded. -/
theorem rounded_ofDigits {text : List Char} {q : ℚ} (h : Numeral text q) : Rounded q (ofDigits text) := by
  obtain ⟨n, d, hd, rfl, he⟩ := exists_ratio h
  rw [he]
  exact rounded_nearest n hd

/-- A numeral denotes a finite number if its value rounds to it. -/
theorem ofDigits_eq_iff {text : List Char} {q : ℚ} (h : Numeral text q) {m : Nat} (hm : m < infinity) :
    ofDigits text = ofMagnitude m ↔ Near (q * 2 ^ 1074) m := by
  obtain ⟨n, d, hd, rfl, he⟩ := exists_ratio h
  rw [he]
  exact nearest_eq_iff n hd hm

/-- What digits denote is a number, without a sign. -/
theorem ofDigits_range (text : List Char) : (ofDigits text).isNegative = false ∧ (ofDigits text).isNaN = false := by
  obtain ⟨hle, hneg⟩ := nearest_range
    (digitsValue (text.takeWhile (· != '.') ++ (text.dropWhile (· != '.')).drop 1))
    (10 ^ ((text.dropWhile (· != '.')).drop 1).length)
  exact ⟨hneg, decide_eq_false (Nat.not_lt.2 hle)⟩

end Number

/-- A piece fits before the pieces after it. -/
theorem Splits.fits {source : List Char} {before after : List Piece} {p : Piece}
    (h : Splits source (before ++ p :: after)) : p.Fits (after.flatMap Piece.text) := by
  induction before generalizing source with
  | nil =>
      cases h with
      | cons hp h =>
          rw [splits_iff.1 h, pieces_flatten]
          exact hp
  | cons _ before ih =>
      cases h with
      | cons _ h => exact ih h

/-- A token is what the scanner makes of its lexeme. -/
structure Token.Spelled (t : Token) : Prop where
  shape : Shape (.token t.type) t.lexeme.toList
  literal : t.literal = Piece.literal? t.type t.lexeme.toList

namespace Scan

/-- A token but for the end is scanned from a piece, after as many tokens as there are before the piece. -/
theorem exists_piece {line i : Nat} {ps : List Piece} {t : Token} (h : (tokens (items line ps))[i]? = some t)
    (ht : t.type ≠ .eof) :
    ∃ before p after, ps = before ++ p :: after ∧ (before.filter Piece.isToken).length = i ∧ From p t := by
  induction ps generalizing line i with
  | nil =>
      obtain rfl := List.mem_singleton.1 (List.mem_of_getElem? h)
      exact absurd rfl ht
  | cons p ps ih =>
      rw [items, tokens_append, tokens_item?] at h
      rcases token?_cases p (line + p.lineFeeds) with ⟨hp, he⟩ | ⟨hp, u, he, hfrom⟩
      · rw [he] at h
        obtain ⟨before, q, after, rfl, hlen, hq⟩ := ih h
        exact ⟨p :: before, q, after, rfl, by rwa [List.filter_cons_of_neg (by simp [hp])], hq⟩
      · rw [he] at h
        cases i with
        | zero =>
            cases h
            exact ⟨[], p, ps, rfl, rfl, hfrom⟩
        | succ i =>
            obtain ⟨before, q, after, rfl, hlen, hq⟩ := ih h
            exact ⟨p :: before, q, after, rfl, by rw [List.filter_cons_of_pos hp, List.length_cons, hlen], hq⟩

/-- The tokens of a source are what the scanner makes of their lexemes. -/
theorem spelled_of_mem {source : String} {t : Token} (ht : t ∈ tokens (ofSource source)) (he : t.type ≠ .eof) :
    t.Spelled := by
  obtain ⟨i, hi⟩ := List.mem_iff_getElem?.1 ht
  rw [ofSource_eq_items] at hi
  obtain ⟨before, p, after, hps, -, hfrom⟩ := exists_piece hi he
  have hsplits : Splits source.toList (pieces source.toList) := splits_iff.2 rfl
  have hshape := hsplits.shape p (by rw [hps]; exact List.mem_append_right _ List.mem_cons_self)
  refine ⟨?_, literal_of_mem ht⟩
  rw [hfrom.lexeme, String.toList_ofList, ← hfrom.form]
  exact hshape

/-- A token with a number for a value is a numeral that denotes it. -/
theorem numeral_of_mem {source : String} {t : Token} (ht : t ∈ tokens (ofSource source)) {x : Number}
    (hx : t.literal = some (.number x)) :
    ∃ q, Numeral t.lexeme.toList q ∧ Number.ofDigits t.lexeme.toList = x := by
  have htype : t.type = .number ∧ Number.ofDigits t.lexeme.toList = x := by
    rw [literal_of_mem ht] at hx
    unfold Piece.literal? at hx
    split at hx
    · cases hx
    · next h =>
        cases hx
        exact ⟨h, rfl⟩
    · cases hx
  have hshape := (spelled_of_mem ht (by rw [htype.1]; decide)).shape
  rw [htype.1] at hshape
  obtain ⟨q, hq⟩ := hshape.exists_numeral
  exact ⟨q, hq, htype.2⟩

/-- Numbers mean their decimal values. Each token of a source that is a number stands for a piece that is a numeral and
would be none with any more of the text after it; its value is the number nearest to the decimal value, of two equally
near ones the even, and infinity from half a step above the largest; it has no sign and is a number. So what is read
from a source agrees with itself. -/
theorem numbers_rounded (source : String) :
    (∀ i t, (tokens (ofSource source))[i]? = some t → t.type = .number →
      ∃ before after q x, pieces source.toList = before ++ ⟨.token .number, t.lexeme.toList⟩ :: after ∧
        (before.filter Piece.isToken).length = i ∧
        Numeral t.lexeme.toList q ∧
        (∀ more q', more ≠ [] → more <+: after.flatMap Piece.text → ¬Numeral (t.lexeme.toList ++ more) q') ∧
        t.literal = some (.number x) ∧ x.Rounded q ∧ x.isNegative = false ∧ x.isNaN = false) ∧
    Program.agrees (Program.ofSource source) (Program.ofSource source) := by
  refine ⟨fun i t hi ht => ?_, Program.agrees_self (fun t ht x hx => ?_) (Program.proper_ofSource source)⟩
  · rw [ofSource_eq_items] at hi
    obtain ⟨before, p, after, hps, hlen, hfrom⟩ := exists_piece hi (by rw [ht]; decide)
    obtain rfl : p = ⟨.token .number, t.lexeme.toList⟩ := by
      obtain ⟨form, text⟩ := p
      rw [hfrom.lexeme, String.toList_ofList, ← ht, ← hfrom.form]
    have hsplits : Splits source.toList (pieces source.toList) := splits_iff.2 rfl
    rw [hps] at hsplits
    have hfits := hsplits.fits
    obtain ⟨q, hq⟩ := hfits.shape.exists_numeral
    obtain ⟨hneg, hnan⟩ := Number.ofDigits_range t.lexeme.toList
    refine ⟨before, after, q, .ofDigits t.lexeme.toList, hps, hlen, hq, fun more q' hmore hpre hq' => ?_,
      by rw [hfrom.literal, ht]; rfl, Number.rounded_ofDigits hq, hneg, hnan⟩
    obtain ⟨rest, hrest⟩ := hpre
    have hle := hfits.longest ⟨.token .number, t.lexeme.toList ++ more⟩ rest hq'.shape nofun
      (by rw [List.append_assoc, hrest])
    have hpos := List.length_pos_iff.2 hmore
    simp only [List.length_append] at hle
    omega
  · obtain ⟨q, -, rfl⟩ := numeral_of_mem ht hx
    exact (Number.ofDigits_range _).2

/-- Halfway between two numbers, at one more than `2 ^ 53`, the even is denoted. -/
theorem numbers_rounded_halfway :
    ∃ t, (tokens (ofSource "9007199254740993"))[0]? = some t ∧ t.type = .number ∧
      ∃ q x, Numeral t.lexeme.toList q ∧ t.literal = some (.number x) ∧ x.Rounded q ∧ x.magnitude = 1076 * 2 ^ 52 := by
  have hn : Numeral "9007199254740993".toList _ := .whole (by decide) (List.all_eq_true.1 rfl)
  have ht : (tokens (ofSource "9007199254740993"))[0]? =
      some ⟨.number, "9007199254740993", some (.number (.ofDigits "9007199254740993".toList)), 1⟩ := by
    rw [ofSource_eq_items, hn.items]
    rfl
  refine ⟨_, ht, rfl, ?_⟩
  obtain ⟨-, -, q, x, -, -, hq, -, hx, hr, -, -⟩ := (numbers_rounded _).1 0 _ ht rfl
  refine ⟨q, x, hq, hx, hr, ?_⟩
  rw [← Literal.number.inj (Option.some.inj hx)]
  decide +kernel

end Scan

end Treewalk
