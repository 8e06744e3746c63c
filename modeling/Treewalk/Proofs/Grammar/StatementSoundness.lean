import Treewalk.Proofs.Grammar.ExpressionSoundness

/- Soundness of the rules for statements. A statement that dangles was only left where no `else` follows. -/

namespace Treewalk.Grammar

open Cursor

theorem sound_expression (s : Cursor) :
    Sound s (expression s).result fun ts e _ => DerivesExpr s.depth .expression ts e :=
  expressionSound_holds.expression s trivial

theorem sound_condition (opening closing : Fault) (s : Cursor) :
    Sound s (condition opening closing s).result fun ts e _ =>
      ∃ o cs c, ts = o :: (cs ++ [c]) ∧ o.type = .leftParen ∧ DerivesExpr s.depth .expression cs e ∧
        c.type = .rightParen := by
  rw [result_condition]
  refine (Sound.expected s _ _).bind fun _ t _ hd => (sound_expression t).bind fun e u _ _ => Sound.ended ?_
  rintro c _ hc cs hcs _ ⟨rfl, ho⟩
  rw [hd] at hcs
  exact ⟨_, cs, c, rfl, ho, hcs, hc⟩

theorem sound_expressionStatement (s : Cursor) :
    Sound s (expressionStatement s).result fun ts stmt _ =>
      ∃ us e semicolon, ts = us ++ [semicolon] ∧ stmt = .expression e ∧ DerivesExpr s.depth .expression us e ∧
        semicolon.type = .semicolon := by
  rw [result_expressionStatement]
  refine (sound_expression s).bind fun e t _ _ => Sound.ended ?_
  exact fun semicolon _ hs us hus => ⟨us, e, semicolon, rfl, rfl, hus, hs⟩

theorem sound_printStatement (word : Token) (s : Cursor) :
    Sound s (printStatement word s).result fun ts stmt _ =>
      word.type = .printWord → DerivesStmt s.depth .form ⟨word :: ts, stmt, false⟩ := by
  rw [result_printStatement]
  refine (sound_expression s).bind fun e t _ _ => Sound.ended ?_
  exact fun semicolon _ hs us hus hw => .print hw hus hs

theorem sound_varDeclaration (s : Cursor) :
    Sound s (varDeclaration s).result fun ts stmt _ => DerivesVar s.depth ts stmt := by
  rw [result_varDeclaration]
  refine (Sound.expected s _ _).bind fun name t _ hd => ?_
  split
  · refine Sound.ended ?_
    rintro semicolon _ hs _ ⟨rfl, hn⟩
    exact .bare hn hs
  · next equals u hu =>
      refine Sound.taken hu fun he hd' => (sound_expression u).bind fun e v _ _ => Sound.ended ?_
      rintro semicolon _ hs us hus _ ⟨rfl, hn⟩
      rw [hd', hd] at hus
      exact .init hn (List.mem_singleton.1 he) hus hs

theorem sound_parameters (count : Nat) (s : Cursor) :
    Sound s (parameters count s).result fun ts params _ =>
      Separated (params.map fun p => [p]) ts ∧ (∀ p ∈ params, p.type = .identifier) ∧ params ≠ [] ∧
        count + params.length ≤ maxArguments := by
  rw [result_parameters]
  refine Sound.counted .tooManyParameters ((Sound.expected _ _ _).bind fun name t ht hd => ?_)
  have hs : t.left < (s.counted count .tooManyParameters).left := left_lt_of_expected ht
  split
  · refine Sound.found ?_
    rintro _ ⟨rfl, hn⟩ hc
    exact ⟨.one [name], List.forall_mem_singleton.2 hn, by simp, hc⟩
  · next comma u hu =>
      have ht' := left_lt_of_taken hu
      refine Sound.taken hu fun hm _ => Sound.map ((sound_parameters (count + 1) u).mono ?_)
      rintro us params _ ⟨hsep, hp, hne, hl⟩ _ ⟨rfl, hn⟩ hc
      refine ⟨hsep.cons (by simpa using hne) (List.mem_singleton.1 hm), List.forall_mem_cons.2 ⟨hn, hp⟩, by simp, ?_⟩
      simp only [List.length_cons]
      omega
termination_by s.left
decreasing_by rw [left_counted] at hs; omega

theorem sound_parameterList (s : Cursor) :
    Sound s (parameterList s).result fun ts params _ =>
      ∃ opening ps closing, ts = opening :: (ps ++ [closing]) ∧ opening.type = .leftParen ∧
        Separated (params.map fun p => [p]) ps ∧ (∀ p ∈ params, p.type = .identifier) ∧
        params.length ≤ maxArguments ∧ closing.type = .rightParen := by
  rw [result_parameterList]
  refine (Sound.expected s _ _).bind fun opening t _ _ => ?_
  split
  · next closing u hu =>
      refine Sound.taken hu fun hc _ => Sound.found ?_
      rintro _ ⟨rfl, ho⟩
      exact ⟨opening, [], closing, rfl, ho, .none, by simp, Nat.zero_le _, List.mem_singleton.1 hc⟩
  · refine (sound_parameters 0 t).bind fun params u _ _ => Sound.ended ?_
    rintro closing _ hc ps ⟨hsep, hp, -, hl⟩ _ ⟨rfl, ho⟩
    exact ⟨opening, ps, closing, rfl, ho, hsep, hp, by simpa using hl, hc⟩

theorem sound_initializer (s : Cursor) :
    Sound s (initializer s).result fun ts init _ => DerivesInit s.depth ts init := by
  rw [result_initializer]
  split
  · refine Sound.map ((sound_expressionStatement s).mono ?_)
    rintro _ _ _ ⟨us, e, semicolon, rfl, rfl, he, hs⟩
    exact .expression he hs
  · next word t ht =>
      refine Sound.taken ht fun hm hd => ?_
      split
      · next hs => exact Sound.found (.none hs)
      · next hs =>
          refine Sound.map ((sound_varDeclaration t).mono fun ts stmt _ h => ?_)
          have hw : word.type = .varWord := by simpa [hs] using hm
          exact .var hw (hd ▸ h)

theorem sound_loopCondition (s : Cursor) :
    Sound s (loopCondition s).result fun ts e _ => DerivesCondition s.depth ts e := by
  rw [result_loopCondition]
  split
  · next semicolon t ht =>
      exact Sound.taken ht fun hm _ => Sound.found (.none (List.mem_singleton.1 hm))
  · refine (sound_expression s).bind fun e t _ _ => Sound.ended ?_
    exact fun semicolon _ hs ts hts => .some hts hs

theorem sound_increment (s : Cursor) :
    Sound s (increment s).result fun ts inc _ => DerivesIncrement s.depth ts inc := by
  rw [result_increment]
  split
  · next closing t ht =>
      exact Sound.taken ht fun hm _ => Sound.found (.none (List.mem_singleton.1 hm))
  · refine (sound_expression s).bind fun e t _ _ => Sound.ended ?_
    exact fun closing _ hc ts hts => .some hts hc

/-- A statement that dangles is derived where no `else` follows. -/
def Read (d : Nat) (rank : Rank) (ts : List Token) (stmt : Stmt) (rest : List Token) : Prop :=
  ∃ dangles, DerivesStmt d rank ⟨ts, stmt, dangles⟩ ∧ (dangles = true → Barred [.elseWord] rest)

/-- The rules for statements are sound, those that follow a word together with it. -/
def statementSound : StatementMotive where
  declarationRule s := Sound s (declarationRule s).result (Read s.depth .declaration)
  function s := Sound s (function s).result fun ts stmt _ =>
    ∀ word, word.type = .funWord → DerivesStmt s.depth .declaration ⟨word :: ts, stmt, false⟩
  statement s := Sound s (statement s).result (Read s.depth .statement)
  statementRule s := Sound s (statementRule s).result (Read s.depth .form)
  ifStatement s := Sound s (ifStatement s).result fun ts stmt rest =>
    ∀ word, word.type = .ifWord → Read s.depth .form (word :: ts) stmt rest
  whileStatement s := Sound s (whileStatement s).result fun ts stmt rest =>
    ∀ word, word.type = .whileWord → Read s.depth .form (word :: ts) stmt rest
  forStatement s := Sound s (forStatement s).result fun ts stmt rest =>
    ∀ word, word.type = .forWord → Read s.depth .form (word :: ts) stmt rest
  block s := Sound s (block s).result fun ts body _ =>
    ∃ (parts : List Part) (ending : Token), body = parts.map Part.statement ∧
      ts = (parts.map Part.tokens).flatten ++ [ending] ∧ ending.type = .rightBrace ∧
      ∀ p ∈ parts, DerivesStmt s.depth .declaration p

theorem statementSound_holds : statementSound.Holds fun _ => True := by
  apply StatementMotive.induct
  case function =>
    intro s ih
    change Sound s _ _
    rw [result_function]
    refine (Sound.expected s _ _).bind fun name t ht hd => (sound_parameterList t).bind fun params u hu hd' => ?_
    refine (Sound.expected u _ _).bind fun brace v hv hd'' => Sound.map ((ih.block v ?_).mono ?_)
    · have hs := left_lt_of_expected ht
      have ht' := Reading.left_lt_of_result hu
      have hu' := left_lt_of_expected hv
      omega
    · rintro _ _ _ ⟨parts, ending, rfl, rfl, he, hp⟩ _ ⟨rfl, hb⟩ _ ⟨opening, ps, closing, rfl, ho, hsep, hi, hl, hc⟩
        _ ⟨rfl, hn⟩ word hw
      rw [hd'', hd', hd] at hp
      simpa using DerivesStmt.function hw hn ho hsep hi hl hc hb hp he
  case ifStatement =>
    intro s ih
    change Sound s _ _
    rw [result_ifStatement]
    refine (sound_condition _ _ s).bind fun c t ht hd => ?_
    have hs := Reading.left_lt_of_result ht
    refine (ih.statement t hs).bind fun yes u hu hd' => ?_
    have ht' := Reading.left_lt_of_result hu
    split
    · next hno =>
        refine Sound.found ?_
        rintro ys ⟨dangles, hy, -⟩ _ ⟨opening, cs, closing, rfl, ho, hc, he⟩ word hw
        rw [hd] at hy
        refine ⟨true, by simpa using DerivesStmt.ifThen hw ho hc he hy, fun _ => taken?_eq_none_iff.1 hno⟩
    · next between v hv =>
        have hu' := left_lt_of_taken hv
        refine Sound.taken hv fun hm hd'' => Sound.map ((ih.statement v (by omega)).mono ?_)
        rintro ns no rest ⟨dangles, hn, hr⟩ ys ⟨dangled, hy, hno⟩ _ ⟨opening, cs, closing, rfl, ho, hc, he⟩ word hw
        have hb := List.mem_singleton.1 hm
        have hy' : dangled = false := by
          cases dangled with
          | false => rfl
          | true => exact absurd hm (hno rfl between rfl)
        rw [hd] at hy
        rw [hd'', hd', hd] at hn
        exact ⟨dangles, by simpa using DerivesStmt.ifElse hw ho hc he hy hy' hb hn, hr⟩
  case whileStatement =>
    intro s ih
    change Sound s _ _
    rw [result_whileStatement]
    refine (sound_condition _ _ s).bind fun c t ht hd => ?_
    refine Sound.map ((ih.statement t (Reading.left_lt_of_result ht)).mono ?_)
    rintro bs body rest ⟨dangles, hb, hr⟩ _ ⟨opening, cs, closing, rfl, ho, hc, he⟩ word hw
    rw [hd] at hb
    exact ⟨dangles, by simpa using DerivesStmt.whileLoop hw ho hc he hb, hr⟩
  case forStatement =>
    intro s ih
    change Sound s _ _
    rw [result_forStatement]
    refine (Sound.expected s _ _).bind fun opening t ht hd => (sound_initializer t).bind fun init u hu hd' => ?_
    refine (sound_loopCondition u).bind fun c v hv hd'' => (sound_increment v).bind fun inc w hw hd₃ => ?_
    refine Sound.map ((ih.statement w ?_).mono ?_)
    · have hs := left_lt_of_expected ht
      have ht' := Reading.left_lt_of_result hu
      have hu' := Reading.left_lt_of_result hv
      have hv' := Reading.left_lt_of_result hw
      omega
    · rintro bs body rest ⟨dangles, hb, hr⟩ ns hn cs hc is hi _ ⟨rfl, ho⟩ word hw
      rw [hd₃, hd'', hd', hd] at hb
      rw [hd'', hd', hd] at hn
      rw [hd', hd] at hc
      rw [hd] at hi
      exact ⟨dangles, by simpa using DerivesStmt.forLoop hw ho hi hc hn hb (desugars_iff.2 rfl), hr⟩
  case statementRule =>
    intro s ih
    change Sound s _ _
    rw [result_statementRule]
    split
    · refine (sound_expressionStatement s).mono ?_
      rintro _ _ _ ⟨us, e, semicolon, rfl, rfl, he, hs⟩
      exact ⟨false, .expression he hs, by simp⟩
    · next word t ht =>
        have hs := left_lt_of_taken ht
        refine Sound.taken ht fun hm hd => ?_
        rw [← hd]
        unfold afterWord
        split
        · next hw => exact (ih.ifStatement t hs).mono fun _ _ _ h => h word hw
        · next hw => exact (sound_printStatement word t).mono fun _ _ _ h => ⟨false, h hw, by simp⟩
        · next hw => exact (ih.whileStatement t hs).mono fun _ _ _ h => h word hw
        · next hw => exact (ih.forStatement t hs).mono fun _ _ _ h => h word hw
        · refine Sound.map ((ih.block t hs).mono ?_)
          rintro _ _ _ ⟨parts, ending, rfl, rfl, he, hp⟩
          have hb : word.type = .leftBrace := by simp_all
          exact ⟨false, .block hb hp he, by simp⟩
  case statement =>
    intro s h
    change Sound s _ _
    rw [result_statement]
    refine Sound.level fun hlt => Sound.mono h ?_
    rintro ts stmt rest ⟨dangles, hs, hr⟩
    exact ⟨dangles, .nested hlt hs, hr⟩
  case declarationRule =>
    intro s ih h
    change Sound s _ _
    rw [result_declarationRule]
    split
    · refine Sound.mono h ?_
      rintro ts stmt rest ⟨dangles, hs, hr⟩
      exact ⟨dangles, .statement hs, hr⟩
    · next word t ht =>
        refine Sound.taken ht fun hm hd => ?_
        rw [← hd]
        split
        · next hw => exact (ih.function t (left_lt_of_taken ht)).mono fun _ _ _ h => ⟨false, h word hw, by simp⟩
        · next hw =>
            have hv : word.type = .varWord := by simpa [hw] using hm
            exact (sound_varDeclaration t).mono fun _ _ _ h => ⟨false, .var hv h, by simp⟩
  case block =>
    intro s ih h
    change Sound s _ _
    rw [result_block]
    split
    · next ending t ht =>
        exact Sound.taken ht fun hm _ =>
          Sound.found ⟨[], ending, rfl, rfl, List.mem_singleton.1 hm, by simp⟩
    · split
      · exact Sound.fault
      · next hs =>
          have hb := ih.block _ (left_recovered_lt s hs)
          have hl := leads_declarationRule s
          change Sound s _ _ at h
          -- A declaration at fault reports it, so that a block without reports holds none.
          cases hr : (declarationRule s).result with
          | fault report t =>
              rw [hr] at hb hl
              refine Sound.after_report (Q := fun _ _ _ => True) (Sound.map (hb.mono fun _ _ _ _ => trivial)) ?_ ?_
              · exact Leads.recovered hl
              · exact Leads.reports_ne hl
          | found stmt t =>
              rw [hr] at hb h
              change Sound t _ _ at hb
              refine Sound.bind (f := fun stmt t => (block t).result.map ([stmt] ++ ·)) h fun stmt' t' he hd => ?_
              cases he
              refine Sound.map (hb.mono ?_)
              rintro _ _ _ ⟨parts, ending, rfl, rfl, he, hp⟩ ts ⟨dangles, hs, -⟩
              change ∀ p ∈ parts, DerivesStmt t.depth .declaration p at hp
              rw [hd] at hp
              exact ⟨⟨ts, stmt, dangles⟩ :: parts, ending, rfl, by simp, he, List.forall_mem_cons.2 ⟨hs, hp⟩⟩

/-- Reading goes on to the end of the tokens, whatever faults there are. -/
theorem rest_declarations (s : Cursor) : (declarations s).2.rest = [] := by
  rw [declarations_eq]
  split
  · next h => exact List.isEmpty_iff.1 h
  · next hs =>
      have hlt := left_recovered_lt s hs
      exact rest_declarations _
termination_by s.left

/-- A program read without a fault is derived from all tokens up to the end. -/
theorem derives_declarations (s : Cursor) (h : (declarations s).2.reports = s.reports) :
    ∃ parts : List Part, (∀ p ∈ parts, DerivesStmt s.depth .declaration p) ∧
      s.rest = (parts.map Part.tokens).flatten ∧ (declarations s).1 = parts.map Part.statement := by
  rw [declarations_eq] at h ⊢
  split
  · next hs => exact ⟨[], by simp, List.isEmpty_iff.1 hs, rfl⟩
  · next hs =>
      rw [if_neg hs] at h
      have hlt := left_recovered_lt s hs
      have hl := Leads.recovered (leads_declarationRule s)
      have hl' := leads_declarations (recovered (declarationRule s).result).2
      obtain ⟨hq, hq'⟩ := hl.quiet hl' h
      obtain ⟨parts, hp, hts, hprog⟩ := derives_declarations _ hq'
      cases hr : (declarationRule s).result with
      | fault report t =>
          have ht := leads_declarationRule s
          rw [hr] at ht hq
          exact absurd hq (Leads.reports_ne ht)
      | found stmt t =>
          obtain ⟨ht, hd⟩ := (statementSound_holds.declarationRule s trivial).of_found stmt t hr
          rw [hr] at hq hp hts hprog
          obtain ⟨ts, hts', dangles, hstmt, -⟩ := hd hq
          change s.rest = ts ++ t.rest at hts'
          refine ⟨⟨ts, stmt, dangles⟩ :: parts, List.forall_mem_cons.2 ⟨hstmt, ?_⟩, ?_, ?_⟩
          · rw [← ht.depth]; exact hp
          · rw [hts']; exact congrArg (ts ++ ·) hts
          · rw [hprog]; rfl
termination_by s.left

end Treewalk.Grammar
