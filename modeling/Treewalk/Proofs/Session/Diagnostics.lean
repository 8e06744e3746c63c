import Mathlib.Algebra.Ring.Nat
import Treewalk.Proofs.Session.Proper

/- Diagnostics of a source as they are written: each is one line, but for the line feeds in a string that is shown. -/

namespace Treewalk

/-- Texts without line feeds can be told apart where a line feed ends each. -/
theorem splitOn_lines {ls : List (List Char)} (h : ∀ l ∈ ls, '\n' ∉ l) :
    (ls.flatMap (· ++ ['\n'])).splitOn '\n' = ls ++ [[]] := by
  induction ls with
  | nil => rfl
  | cons l ls ih =>
      obtain ⟨hl, hls⟩ := List.forall_mem_cons.1 h
      have hn : ∀ c ∈ l, (c == '\n') = false := fun c hc => beq_false_of_ne fun he => hl (he ▸ hc)
      rw [List.flatMap_cons, List.append_assoc, List.splitOn, List.singleton_append,
        List.splitOnP_append_cons_of_forall_mem hn _ rfl]
      exact congrArg (l :: ·) (ih hls)

theorem count_lines (ls : List (List Char)) :
    (ls.flatMap (· ++ ['\n'])).count '\n' = ls.length + (ls.map (·.count '\n')).sum := by
  induction ls with
  | nil => rfl
  | cons l ls ih =>
      rw [List.flatMap_cons, List.count_append, List.count_append, ih, List.map_cons, List.sum_cons, List.length_cons,
        List.count_singleton_self]
      omega

theorem Fault.not_mem_message (f : Fault) : '\n' ∉ f.message.toList := by
  cases f <;> decide +kernel

theorem LexicalCause.not_mem_message {cause : LexicalCause} (h : cause ≠ .unexpected '\n') :
    '\n' ∉ cause.message.toList := by
  cases cause with
  | openComment | openString => decide +kernel
  | unexpected c =>
      have hc : '\n' ≠ c := fun hc => h (congrArg _ hc.symm)
      have hs : '\n' ∉ "Unexpected character '".toList ∧ '\n' ∉ "'.".toList := by decide +kernel
      change '\n' ∉ ("Unexpected character '" ++ String.singleton c ++ "'.").toList
      simp only [String.toList_append, String.toList_singleton, List.mem_append, List.mem_singleton, hs, hc, or_self,
        not_false_eq_true]

namespace Scan

variable {source : String}

theorem type_of_lineFeed {t : Token} (ht : t ∈ tokens (ofSource source)) (hn : '\n' ∈ t.lexeme.toList) :
    t.type = .string := by
  have hs : Splits source.toList (pieces source.toList) := splits_iff.2 rfl
  rw [tokens_ofSource] at ht
  rcases List.mem_append.1 ht with ht | ht
  · obtain ⟨⟨p, i⟩, hp, ht⟩ := List.mem_filterMap.1 ht
    have hf := hs.shape p (List.fst_mem_of_mem_zipIdx hp)
    unfold Piece.token? at ht
    split at ht
    · next type he =>
        rw [he] at hf
        cases ht
        rw [String.toList_ofList] at hn
        exact hf.type_of_lineFeed hn
    · cases ht
  · obtain rfl := List.mem_singleton.1 ht
    cases hn

theorem message_of_mem {e : LexicalError} (he : e ∈ errors (ofSource source)) : '\n' ∉ e.cause.message.toList := by
  have hs : Splits source.toList (pieces source.toList) := splits_iff.2 rfl
  rw [errors_ofSource] at he
  obtain ⟨⟨p, i⟩, hp, he⟩ := List.mem_filterMap.1 he
  have hf := hs.shape p (List.fst_mem_of_mem_zipIdx hp)
  unfold Piece.error? at he
  split at he
  · next hu =>
      rw [hu] at hf
      cases he
      refine LexicalCause.not_mem_message fun hc => ?_
      generalize p.text = text at hf hc
      cases hf with
      | @unexpected c hb =>
          have hc' : c = '\n' := LexicalCause.unexpected.inj hc
          exact hb (by rw [hc']; decide)
  · cases he
    exact LexicalCause.not_mem_message nofun
  · cases he
    exact LexicalCause.not_mem_message nofun
  · cases he

end Scan

namespace Diagnostic

/-- What is told of a source before it runs: lexical errors, then faults. -/
def ofSource (source : String) : List Diagnostic :=
  (Scan.errors (Scan.ofSource source)).map ofLexical ++
    (Program.read (.ofSource source)).2.reports.map Report.diagnostic

/-- The text of diagnostics one after another, a line feed after each. -/
def told : List Diagnostic → String
  | [] => ""
  | d :: ds => d.text ++ "\n" ++ told ds

/-- Line feeds in the lexeme that is shown. -/
def breaks : Diagnostic → Nat
  | atToken token _ => if token.type = .eof then 0 else token.lexeme.toList.count '\n'
  | _ => 0

/-- The forms of the lines that are told of a source with tokens `ts`. -/
inductive Form (ts : List Token) : String → Prop
  | plain (line : Nat) (message : String) : Form ts ("[" ++ toString line ++ "] Error: " ++ message)
  | atEnd (line : Nat) (message : String) : Form ts ("[" ++ toString line ++ "] Error at end : " ++ message)
  | atToken {t : Token} (ht : t ∈ ts) (message : String) :
      Form ts ("[" ++ toString t.line ++ "] Error at " ++ t.lexeme ++ " : " ++ message)

theorem toList_told (ds : List Diagnostic) :
    (told ds).toList = (ds.map (·.text.toList)).flatMap (· ++ ['\n']) := by
  induction ds with
  | nil => rfl
  | cons d ds ih =>
      rw [told, String.toList_append, String.toList_append, ih]
      rfl

theorem count_line (n : Nat) : (toString n).toList.count '\n' = 0 := by
  refine List.count_eq_zero.2 fun hm => ?_
  rw [Nat.toString_eq_repr, Nat.toList_repr] at hm
  exact absurd (Nat.isDigit_of_mem_toDigits (by decide) (by decide) hm) (by decide)

theorem text_plain (line : Nat) (message : String) :
    (plain line message).text = "[" ++ toString line ++ "] Error: " ++ message := by
  have h : "] Error: " = "] Error" ++ "" ++ ": " := by decide +kernel
  change "[" ++ toString line ++ "] Error" ++ "" ++ ": " ++ message = _
  rw [h]
  simp only [String.append_assoc]

theorem text_atEnd {token : Token} (ht : token.type = .eof) (message : String) :
    (atToken token message).text = "[" ++ toString token.line ++ "] Error at end : " ++ message := by
  have h : "] Error at end : " = "] Error" ++ " at end " ++ ": " := by decide +kernel
  change "[" ++ toString token.line ++ "] Error" ++ (if token.type = .eof then _ else _) ++ ": " ++ message = _
  rw [if_pos ht, h]
  simp only [String.append_assoc]

theorem text_atToken {token : Token} (ht : token.type ≠ .eof) (message : String) :
    (atToken token message).text =
      "[" ++ toString token.line ++ "] Error at " ++ token.lexeme ++ " : " ++ message := by
  have h : "] Error at " = "] Error" ++ " at " ∧ " : " = " " ++ ": " := by decide +kernel
  change "[" ++ toString token.line ++ "] Error" ++ (if token.type = .eof then _ else _) ++ ": " ++ message = _
  rw [if_neg ht, h.1, h.2]
  simp only [String.append_assoc]

variable {source : String} {d : Diagnostic}

/-- What is told of a source is a lexical error of it or a fault at one of its tokens. -/
theorem ofSource_cases (h : d ∈ ofSource source) :
    (∃ e ∈ Scan.errors (Scan.ofSource source), d = .plain e.line e.cause.message) ∨
      ∃ t ∈ Scan.tokens (Scan.ofSource source), ∃ f : Fault, d = .atToken t f.message := by
  rcases List.mem_append.1 h with h | h
  · obtain ⟨e, he, rfl⟩ := List.mem_map.1 h
    exact .inl ⟨e, he, rfl⟩
  · obtain ⟨r, hr, rfl⟩ := List.mem_map.1 h
    exact .inr ⟨r.token, Program.report_mem_ofSource source r hr, r.fault, rfl⟩

/-- A line feed in a text is one in the lexeme that it shows. -/
theorem count_text (h : d ∈ ofSource source) : d.text.toList.count '\n' = d.breaks := by
  have hs : "[".toList.count '\n' = 0 ∧ "] Error: ".toList.count '\n' = 0 ∧
      "] Error at end : ".toList.count '\n' = 0 ∧ "] Error at ".toList.count '\n' = 0 ∧
      " : ".toList.count '\n' = 0 := by
    decide +kernel
  rcases ofSource_cases h with ⟨e, he, rfl⟩ | ⟨t, -, f, rfl⟩
  · have hm := List.count_eq_zero.2 (Scan.message_of_mem he)
    rw [text_plain]
    simp only [String.toList_append, List.count_append, count_line, hs, hm]
    rfl
  · have hm := List.count_eq_zero.2 f.not_mem_message
    by_cases ht : t.type = .eof
    · rw [text_atEnd ht, breaks, if_pos ht]
      simp only [String.toList_append, List.count_append, count_line, hs, hm]
    · rw [text_atToken ht, breaks, if_neg ht]
      simp only [String.toList_append, List.count_append, count_line, hs, hm, Nat.zero_add, Nat.add_zero]

theorem form_text (h : d ∈ ofSource source) : Form (Scan.tokens (Scan.ofSource source)) d.text := by
  rcases ofSource_cases h with ⟨e, -, rfl⟩ | ⟨t, ht, f, rfl⟩
  · rw [text_plain]
    exact .plain e.line _
  · by_cases he : t.type = .eof
    · rw [text_atEnd he]
      exact .atEnd t.line _
    · rw [text_atToken he]
      exact .atToken ht _

/-- Only a string that spans lines breaks a text. -/
theorem string_of_breaks (h : d ∈ ofSource source) (hb : d.breaks ≠ 0) :
    ∃ t ∈ Scan.tokens (Scan.ofSource source), t.type = .string ∧ '\n' ∈ t.lexeme.toList ∧
      ∃ message, d = .atToken t message := by
  rcases ofSource_cases h with ⟨e, -, rfl⟩ | ⟨t, ht, f, rfl⟩
  · exact absurd rfl hb
  · have hn : '\n' ∈ t.lexeme.toList := by
      by_contra hn
      refine hb ?_
      rw [breaks, List.count_eq_zero.2 hn, ite_self]
    exact ⟨t, ht, Scan.type_of_lineFeed ht hn, hn, f.message, rfl⟩

end Diagnostic

namespace Session

theorem errors_report {s : Session} {bytes : Array UInt8} (h : s.errors = some ⟨bytes, none⟩) (d : Diagnostic) :
    (s.report d).errors = some ⟨bytes ++ (d.text ++ "\n").toUTF8.data, none⟩ := by
  have ht : (s.tell d.text).errors = some ⟨bytes ++ (d.text ++ "\n").toUTF8.data, none⟩ := by
    rw [tell, h]
    rfl
  unfold report
  dsimp only
  split <;> exact ht

/-- A sink that takes everything takes all that is told. -/
theorem errors_report_all (ds : List Diagnostic) {s : Session} {bytes : Array UInt8} (h : s.errors = some ⟨bytes, none⟩) :
    (ds.foldl report s).errors = some ⟨bytes ++ (Diagnostic.told ds).toUTF8.data, none⟩ := by
  induction ds generalizing s bytes with
  | nil => exact h.trans (congrArg (fun b => some (Sink.mk b none)) (Array.append_empty ..).symm)
  | cons d ds ih =>
      rw [List.foldl_cons, ih (errors_report h d), Diagnostic.told]
      simp only [String.toUTF8, String.toByteArray_append, ByteArray.data_append, Array.append_assoc]

/-- Loading a source tells of it and does nothing else. -/
theorem load_told (s : Session) (source : String) :
    (s.load source).2.2 = (Diagnostic.ofSource source).foldl report s := by
  rw [Diagnostic.ofSource, List.foldl_append, List.foldl_map, List.foldl_map]
  rfl

theorem errors_load {s : Session} {sink : Sink} (hs : s.errors = some sink) (hl : sink.limit = none) (source : String) :
    (s.load source).2.2.errors =
      some ⟨sink.bytes ++ (Diagnostic.told (Diagnostic.ofSource source)).toUTF8.data, none⟩ := by
  obtain ⟨bytes, limit⟩ := sink
  obtain rfl : limit = none := hl
  rw [load_told]
  exact errors_report_all _ hs

/-- What is told of a source is one text for each error, in order and in one of three forms, each ended by a line feed.
There are no other line feeds but those in the strings that are shown; without such strings each error is one line, and
the line feeds tell the texts apart. -/
theorem load_lines {s : Session} {sink : Sink} (hs : s.errors = some sink) (hl : sink.limit = none) (source : String) :
    ∃ text : String, (s.load source).2.2.errors = some ⟨sink.bytes ++ text.toUTF8.data, none⟩ ∧
      text.toList = ((Diagnostic.ofSource source).map (·.text.toList)).flatMap (· ++ ['\n']) ∧
      (∀ d ∈ Diagnostic.ofSource source, Diagnostic.Form (Scan.tokens (Scan.ofSource source)) d.text) ∧
      text.toList.count '\n' =
        (Diagnostic.ofSource source).length + ((Diagnostic.ofSource source).map Diagnostic.breaks).sum ∧
      (∀ d ∈ Diagnostic.ofSource source, d.breaks ≠ 0 →
        ∃ t ∈ Scan.tokens (Scan.ofSource source), t.type = .string ∧ '\n' ∈ t.lexeme.toList ∧
          ∃ message, d = .atToken t message) ∧
      ((∀ d ∈ Diagnostic.ofSource source, d.breaks = 0) →
        text.toList.splitOn '\n' = (Diagnostic.ofSource source).map (·.text.toList) ++ [[]]) := by
  refine ⟨_, errors_load hs hl source, Diagnostic.toList_told _, fun d hd => Diagnostic.form_text hd, ?_,
    fun d hd => Diagnostic.string_of_breaks hd, fun h => ?_⟩
  · rw [Diagnostic.toList_told, count_lines, List.length_map, List.map_map]
    exact congrArg (_ + List.sum ·) (List.map_congr_left fun d hd => Diagnostic.count_text hd)
  · rw [Diagnostic.toList_told]
    refine splitOn_lines fun l hl => ?_
    obtain ⟨d, hd, rfl⟩ := List.mem_map.1 hl
    exact List.count_eq_zero.1 ((Diagnostic.count_text hd).trans (h d hd))

end Session

/-- A string where the name of a variable should be, on two lines. -/
def Diagnostic.broken : String := "var \"a\nb\";"

namespace Diagnostic

theorem pieces_broken :
    pieces broken.toList = [⟨.token .varWord, ['v', 'a', 'r']⟩, ⟨.blank, [' ']⟩,
      ⟨.token .string, ['"', 'a', '\n', 'b', '"']⟩, ⟨.token .semicolon, [';']⟩] := by
  have hs : broken.toList = ['v', 'a', 'r', ' ', '"', 'a', '\n', 'b', '"', ';'] := by rfl
  have hv : Piece.cut 'v' ['a', 'r', ' ', '"', 'a', '\n', 'b', '"', ';'] =
      ⟨⟨.token .varWord, ['v', 'a', 'r']⟩, [' ', '"', 'a', '\n', 'b', '"', ';'], 0⟩ := by decide
  have hq : Piece.cut '"' ['a', '\n', 'b', '"', ';'] = ⟨⟨.token .string, ['"', 'a', '\n', 'b', '"']⟩, [';'], 1⟩ := by decide
  rw [hs, pieces, hv, pieces, Piece.cut_blank _ (by decide), pieces, hq]
  simp [pieces, Piece.cut, Piece.single?]

theorem ofSource_broken :
    ofSource broken = [.atToken ⟨.string, "\"a\nb\"", some (.text "a\nb"), 2⟩ "Expect variable name."] := by
  let word : Token := ⟨.varWord, "var", none, 1⟩
  let text : Token := ⟨.string, "\"a\nb\"", some (.text "a\nb"), 2⟩
  let semicolon : Token := ⟨.semicolon, ";", none, 2⟩
  have he : Scan.errors (Scan.ofSource broken) = [] := by
    rw [Scan.ofSource_eq_items, pieces_broken]
    decide
  have hc : Cursor.ofSource broken = ⟨[word, text, semicolon], endToken 2, 0, []⟩ := by
    rw [Cursor.ofSource_eq, pieces_broken]
    rfl
  have hd : (Grammar.declarationRule ⟨[word, text, semicolon], endToken 2, 0, []⟩).result =
      .fault ⟨text, .variableName⟩ ⟨[text, semicolon], endToken 2, 0, []⟩ := by
    rw [Grammar.result_declarationRule]
    change (Grammar.varDeclaration ⟨[text, semicolon], endToken 2, 0, []⟩).result = _
    rw [Grammar.result_varDeclaration]
    rfl
  have hr : (Program.read (.ofSource broken)).2.reports = [⟨text, .variableName⟩] := by
    rw [hc]
    change (Grammar.declarations ⟨[word, text, semicolon], endToken 2, 0, []⟩).2.reports = _
    rw [Grammar.declarations_eq, if_neg (by decide), hd, Grammar.declarations_eq]
    rfl
  rw [ofSource, he, hr]
  rfl

end Diagnostic

/-- The one error of the source is told on two lines. -/
theorem Session.load_lines_broken :
    ∃ (s : Session) (sink : Sink) (text : String), s.errors = some sink ∧ sink.limit = none ∧
      (s.load Diagnostic.broken).2.2.errors = some ⟨sink.bytes ++ text.toUTF8.data, none⟩ ∧
      text.toList.count '\n' = 2 ∧ (Diagnostic.ofSource Diagnostic.broken).length = 1 := by
  let s : Session := { machine := .start (fun _ => .ofNat 0) {}, errors := some {} }
  obtain ⟨text, ht, -, -, hn, -, -⟩ := Session.load_lines (s := s) rfl rfl Diagnostic.broken
  rw [Diagnostic.ofSource_broken] at hn
  refine ⟨s, {}, text, rfl, rfl, ht, hn.trans (by decide +kernel), ?_⟩
  rw [Diagnostic.ofSource_broken]
  rfl

/-- Not every error is told on a line of its own. -/
theorem Session.not_load_one_line :
    ¬∀ (s : Session) (sink : Sink) (source : String), s.errors = some sink → sink.limit = none →
      ∃ lines : List (List Char), lines.length = (Diagnostic.ofSource source).length ∧ (∀ l ∈ lines, '\n' ∉ l) ∧
        (s.load source).2.2.errors =
          some ⟨sink.bytes ++ (String.ofList (lines.flatMap (· ++ ['\n']))).toUTF8.data, none⟩ := by
  intro h
  let s : Session := { machine := .start (fun _ => .ofNat 0) {}, errors := some {} }
  obtain ⟨lines, hlen, hn, he⟩ := h s {} Diagnostic.broken rfl rfl
  rw [Session.errors_load (s := s) rfl rfl] at he
  have hb := congrArg Sink.bytes (Option.some.inj he)
  have ht : Diagnostic.told (Diagnostic.ofSource Diagnostic.broken) = String.ofList (lines.flatMap (· ++ ['\n'])) :=
    String.toByteArray_inj.1 (ByteArray.ext ((Array.append_right_inj _).1 hb))
  have hc : (lines.map (·.count '\n')).sum = 0 := by
    refine List.sum_eq_zero_iff_forall_eq_nat.2 fun n hm => ?_
    obtain ⟨l, hl, rfl⟩ := List.mem_map.1 hm
    exact List.count_eq_zero.2 (hn l hl)
  have hlines := congrArg (fun text : String => text.toList.count '\n') ht
  rw [String.toList_ofList, count_lines, hc, hlen, Diagnostic.ofSource_broken] at hlines
  exact absurd hlines (by decide +kernel)

end Treewalk
