import Treewalk.Proofs.Grammar.Derivation
import Treewalk.Proofs.Syntax.Tokens

/- The tokens of derived trees. They are tokens that the tree is derived from; and a derivation looks at no more than
their types and what they denote, so others that agree in both derive the tree with the others in it. -/

namespace Treewalk.Grammar

theorem Separated.map {tss : List (List Token)} {ts : List Token} (h : Separated tss ts) {f : Token → Token}
    (hf : ∀ t, (f t).type = t.type) : Separated (tss.map (List.map f)) (ts.map f) := by
  induction h with
  | none => exact .none
  | one ts => exact .one _
  | more hc _ ih =>
      rw [List.map_append, List.map_cons]
      exact .more ((hf _).trans hc) ih

theorem Separated.mem {tss : List (List Token)} {ts : List Token} (h : Separated tss ts) {us : List Token}
    (hu : us ∈ tss) : us ⊆ ts := by
  induction h with
  | none => exact absurd hu List.not_mem_nil
  | one ts =>
      rw [List.mem_singleton.1 hu]
      exact List.Subset.refl ts
  | more _ _ ih =>
      rcases List.mem_cons.1 hu with rfl | hu
      · exact List.subset_append_left ..
      · exact List.subset_append_of_subset_right _ (List.subset_cons_of_subset _ (ih hu))

theorem forLoop_map (f : Token → Token) (init : Option Stmt) (e : Expr) (inc : Option Expr) (body : Stmt) :
    (forLoop init e inc body).map f =
      forLoop (init.map (Stmt.map f)) (e.map f) (inc.map (Expr.map f)) (body.map f) := by
  cases init <;> cases inc <;> rfl

/-- The part with every token replaced. -/
def Part.map (f : Token → Token) (p : Part) : Part := ⟨p.tokens.map f, p.statement.map f, p.dangles⟩

theorem Part.tokens_map (f : Token → Token) (ps : List Part) :
    ((ps.map (Part.map f)).map Part.tokens).flatten = ((ps.map Part.tokens).flatten).map f := by
  rw [List.map_flatten, List.map_map, List.map_map]
  rfl

theorem Part.statement_map (f : Token → Token) (ps : List Part) :
    (ps.map (Part.map f)).map Part.statement = Stmt.mapAll f (ps.map Part.statement) := by
  rw [Stmt.mapAll_eq, List.map_map, List.map_map]
  rfl

section
variable {f : Token → Token} (hf : ∀ t, (f t).type = t.type) (hl : ∀ t, (f t).literal = t.literal)

include hf in
theorem mem_of_type {t : Token} {types : List TokenType} (h : t.type ∈ types) : (f t).type ∈ types := by
  rwa [hf]

include hf hl

/-- Expressions of replaced tokens. -/
theorem DerivesExpr.map {d : Nat} {layer : Layer} {ts : List Token} {e : Expr} (h : DerivesExpr d layer ts e) :
    DerivesExpr d layer (ts.map f) (e.map f) := by
  induction h with
  | expression hd _ ih => exact .expression hd ih
  | assign hn he _ ih => exact .assign ((hf _).trans hn) ((hf _).trans he) ih
  | or _ ho _ il ir =>
      rw [List.map_append, List.map_cons]
      exact .or il ((hf _).trans ho) ir
  | and _ ho _ il ir =>
      rw [List.map_append, List.map_cons]
      exact .and il ((hf _).trans ho) ir
  | equality _ ho _ il ir =>
      rw [List.map_append, List.map_cons]
      exact .equality il (mem_of_type hf ho) ir
  | comparison _ ho _ il ir =>
      rw [List.map_append, List.map_cons]
      exact .comparison il (mem_of_type hf ho) ir
  | term _ ho _ il ir =>
      rw [List.map_append, List.map_cons]
      exact .term il (mem_of_type hf ho) ir
  | factor _ ho _ il ir =>
      rw [List.map_append, List.map_cons]
      exact .factor il (mem_of_type hf ho) ir
  | unary ho hd _ ih => exact .unary (mem_of_type hf ho) hd ih
  | @call d cs callee opening ts closing args _ ho hs _ hn he ic ia =>
      have hs' := hs.map hf
      have ha' : ∀ a ∈ args.map (Prod.map (List.map f) (Expr.map f)), DerivesExpr d .expression a.1 a.2 :=
        List.forall_mem_map.2 ia
      have ht : (args.map (Prod.map (List.map f) (Expr.map f))).map Prod.snd = Expr.mapAll f (args.map Prod.snd) := by
        rw [Expr.mapAll_eq, List.map_map, List.map_map]
        rfl
      rw [List.map_map] at hs'
      rw [List.map_append, List.map_cons, List.map_append, Expr.map, ← ht]
      refine .call ic ((hf _).trans ho) ?_ ha' (by rwa [List.length_map]) ((hf _).trans he)
      rw [List.map_map]
      exact hs'
  | trueWord ht => exact .trueWord ((hf _).trans ht)
  | falseWord ht => exact .falseWord ((hf _).trans ht)
  | nilWord ht => exact .nilWord ((hf _).trans ht)
  | @value d t ht =>
      have hv := DerivesExpr.value (d := d) (mem_of_type hf ht)
      rw [hl] at hv
      exact hv
  | name hn => exact .name ((hf _).trans hn)
  | group ho _ he ih =>
      rw [List.map_cons, List.map_append]
      exact .group ((hf _).trans ho) ih ((hf _).trans he)
  | tighter ht _ ih => exact .tighter ht ih

theorem DerivesVar.map {d : Nat} {ts : List Token} {s : Stmt} (h : DerivesVar d ts s) :
    DerivesVar d (ts.map f) (s.map f) := by
  cases h with
  | bare hn hs => exact .bare ((hf _).trans hn) ((hf _).trans hs)
  | init hn he h hs =>
      rw [List.map_cons, List.map_cons, List.map_append]
      exact .init ((hf _).trans hn) ((hf _).trans he) (h.map hf hl) ((hf _).trans hs)

theorem DerivesInit.map {d : Nat} {ts : List Token} {init : Option Stmt} (h : DerivesInit d ts init) :
    DerivesInit d (ts.map f) (init.map (Stmt.map f)) := by
  cases h with
  | none hs => exact .none ((hf _).trans hs)
  | var hw h => exact .var ((hf _).trans hw) (h.map hf hl)
  | expression h hs =>
      rw [List.map_append]
      exact .expression (h.map hf hl) ((hf _).trans hs)

theorem DerivesCondition.map {d : Nat} {ts : List Token} {e : Expr} (h : DerivesCondition d ts e) :
    DerivesCondition d (ts.map f) (e.map f) := by
  cases h with
  | none hs => exact .none ((hf _).trans hs)
  | some h hs =>
      rw [List.map_append]
      exact .some (h.map hf hl) ((hf _).trans hs)

theorem DerivesIncrement.map {d : Nat} {ts : List Token} {inc : Option Expr} (h : DerivesIncrement d ts inc) :
    DerivesIncrement d (ts.map f) (inc.map (Expr.map f)) := by
  cases h with
  | none hc => exact .none ((hf _).trans hc)
  | some h hc =>
      rw [List.map_append]
      exact .some (h.map hf hl) ((hf _).trans hc)

/-- Statements of replaced tokens. -/
theorem DerivesStmt.map {d : Nat} {rank : Rank} {p : Part} (h : DerivesStmt d rank p) :
    DerivesStmt d rank (p.map f) := by
  induction h with
  | @function d word name opening ps closing brace ending params body hw hn ho hs hp hm hc hb _ he ih =>
      have hs' : Separated ((params.map f).map fun p => [p]) (ps.map f) := by
        have h := hs.map hf
        rw [List.map_map] at h ⊢
        exact h
      have hp' : ∀ p ∈ params.map f, p.type = .identifier :=
        List.forall_mem_map.2 fun p hm => (hf p).trans (hp p hm)
      have ih' : ∀ p ∈ body.map (Part.map f), DerivesStmt d .declaration p := List.forall_mem_map.2 ih
      have h := DerivesStmt.function ((hf word).trans hw) ((hf name).trans hn) ((hf opening).trans ho) hs' hp'
        (by rwa [List.length_map]) ((hf closing).trans hc) ((hf brace).trans hb) ih' ((hf ending).trans he)
      rw [Part.tokens_map, Part.statement_map] at h
      simpa only [Part.map, List.map_cons, List.map_append, List.map_nil, Stmt.map] using h
  | var hw h => exact .var ((hf _).trans hw) (h.map hf hl)
  | statement _ ih => exact .statement ih
  | nested hd _ ih => exact .nested hd ih
  | expression h hs =>
      rw [Part.map, List.map_append]
      exact .expression (h.map hf hl) ((hf _).trans hs)
  | print hw h hs =>
      rw [Part.map, List.map_cons, List.map_append]
      exact .print ((hf _).trans hw) (h.map hf hl) ((hf _).trans hs)
  | @block d brace ending body hb _ he ih =>
      have ih' : ∀ p ∈ body.map (Part.map f), DerivesStmt d .declaration p := List.forall_mem_map.2 ih
      have h := DerivesStmt.block ((hf brace).trans hb) ih' ((hf ending).trans he)
      rw [Part.tokens_map, Part.statement_map] at h
      simpa only [Part.map, List.map_cons, List.map_append, List.map_nil, Stmt.map] using h
  | ifThen hw ho hc he _ iy =>
      have h := DerivesStmt.ifThen ((hf _).trans hw) ((hf _).trans ho) (hc.map hf hl) ((hf _).trans he) iy
      simpa only [Part.map, List.map_cons, List.map_append, Stmt.map] using h
  | ifElse hw ho hc he _ hs hb _ iy ino =>
      have h := DerivesStmt.ifElse ((hf _).trans hw) ((hf _).trans ho) (hc.map hf hl) ((hf _).trans he) iy hs
        ((hf _).trans hb) ino
      simpa only [Part.map, List.map_cons, List.map_append, Stmt.map] using h
  | whileLoop hw ho hc he _ ib =>
      have h := DerivesStmt.whileLoop ((hf _).trans hw) ((hf _).trans ho) (hc.map hf hl) ((hf _).trans he) ib
      simpa only [Part.map, List.map_cons, List.map_append, Stmt.map] using h
  | forLoop hw ho hi hc hn _ ht ib =>
      obtain rfl := desugars_iff.1 ht
      have h := DerivesStmt.forLoop ((hf _).trans hw) ((hf _).trans ho) (hi.map hf hl) (hc.map hf hl) (hn.map hf hl) ib
        (desugars_iff.2 rfl)
      simpa only [Part.map, List.map_cons, List.map_append, forLoop_map] using h

/-- Programs of replaced tokens. -/
theorem DerivesProgram.map {ts : List Token} {program : Program} (h : DerivesProgram ts program) :
    DerivesProgram (ts.map f) (Stmt.mapAll f program) := by
  obtain ⟨parts, hp, rfl, rfl⟩ := h
  have hm := List.forall_mem_map.2 fun p hm => (hp p hm).map hf hl
  exact ⟨parts.map (Part.map f), hm, (Part.tokens_map f parts).symm, (Part.statement_map f parts).symm⟩

end

theorem DerivesExpr.tokens {d : Nat} {layer : Layer} {ts : List Token} {e : Expr} (h : DerivesExpr d layer ts e) :
    ∀ t ∈ e.tokens, t ∈ ts := by
  induction h with
  | expression _ _ ih | tighter _ _ ih => exact ih
  | assign _ _ _ ih =>
      intro t ht
      rcases List.mem_cons.1 ht with rfl | ht
      · exact List.mem_cons_self
      · exact List.mem_cons_of_mem _ (List.mem_cons_of_mem _ (ih t ht))
  | or _ _ _ il ir | and _ _ _ il ir | equality _ _ _ il ir | comparison _ _ _ il ir | term _ _ _ il ir
  | factor _ _ _ il ir =>
      intro t ht
      rcases List.mem_append.1 ht with ht | ht
      · exact List.mem_append_left _ (il t ht)
      · rcases List.mem_cons.1 ht with rfl | ht
        · exact List.mem_append_right _ List.mem_cons_self
        · exact List.mem_append_right _ (List.mem_cons_of_mem _ (ir t ht))
  | unary _ _ _ ih =>
      intro t ht
      rcases List.mem_cons.1 ht with rfl | ht
      · exact List.mem_cons_self
      · exact List.mem_cons_of_mem _ (ih t ht)
  | @call d cs callee opening ts closing args _ _ hs _ _ _ ic ia =>
      intro t ht
      rcases List.mem_append.1 ht with ht | ht
      · exact List.mem_append_left _ (ic t ht)
      refine List.mem_append_right _ (List.mem_cons_of_mem _ (List.mem_append.2 ?_))
      rcases List.mem_cons.1 ht with rfl | ht
      · exact .inr List.mem_cons_self
      · rw [Expr.tokensAll_eq] at ht
        obtain ⟨e, he, ht⟩ := List.mem_flatMap.1 ht
        obtain ⟨a, ha, rfl⟩ := List.mem_map.1 he
        exact .inl (hs.mem (List.mem_map_of_mem ha) (ia a ha t ht))
  | trueWord | falseWord | nilWord | value => exact fun _ ht => absurd ht List.not_mem_nil
  | name => exact fun _ ht => ht
  | group _ _ _ ih =>
      intro t ht
      exact List.mem_cons_of_mem _ (List.mem_append_left _ (ih t ht))

theorem DerivesVar.tokens {d : Nat} {ts : List Token} {s : Stmt} (h : DerivesVar d ts s) :
    ∀ t ∈ s.tokens, t ∈ ts := by
  cases h with
  | bare =>
      intro t ht
      rw [List.mem_singleton.1 ht]
      exact List.mem_cons_self
  | init _ _ h _ =>
      intro t ht
      rcases List.mem_cons.1 ht with rfl | ht
      · exact List.mem_cons_self
      · exact List.mem_cons_of_mem _ (List.mem_cons_of_mem _ (List.mem_append_left _ (h.tokens t ht)))

theorem mem_tokens_forLoop {init : Option Stmt} {e : Expr} {inc : Option Expr} {body : Stmt} {t : Token}
    (ht : t ∈ (forLoop init e inc body).tokens) :
    (∃ s, init = some s ∧ t ∈ s.tokens) ∨ t ∈ e.tokens ∨ (∃ i, inc = some i ∧ t ∈ i.tokens) ∨ t ∈ body.tokens := by
  cases init <;> cases inc <;> simp [forLoop, Stmt.tokens, Stmt.tokensAll] at ht ⊢ <;> tauto

theorem DerivesInit.tokens {d : Nat} {ts : List Token} {s : Stmt} (h : DerivesInit d ts (some s)) :
    ∀ t ∈ s.tokens, t ∈ ts := by
  cases h with
  | var _ h => exact fun t ht => List.mem_cons_of_mem _ (h.tokens t ht)
  | expression h _ => exact fun t ht => List.mem_append_left _ (h.tokens t ht)

theorem DerivesCondition.tokens {d : Nat} {ts : List Token} {e : Expr} (h : DerivesCondition d ts e) :
    ∀ t ∈ e.tokens, t ∈ ts := by
  cases h with
  | none => exact fun _ ht => absurd ht List.not_mem_nil
  | some h _ => exact fun t ht => List.mem_append_left _ (h.tokens t ht)

theorem DerivesIncrement.tokens {d : Nat} {ts : List Token} {e : Expr} (h : DerivesIncrement d ts (.some e)) :
    ∀ t ∈ e.tokens, t ∈ ts := by
  cases h with
  | some h _ => exact fun t ht => List.mem_append_left _ (h.tokens t ht)

theorem tokens_of_parts {body : List Part} (h : ∀ p ∈ body, ∀ t ∈ p.statement.tokens, t ∈ p.tokens) :
    ∀ t ∈ Stmt.tokensAll (body.map Part.statement), t ∈ (body.map Part.tokens).flatten := by
  intro t ht
  rw [Stmt.tokensAll_eq] at ht
  obtain ⟨s, hs, ht⟩ := List.mem_flatMap.1 ht
  obtain ⟨p, hp, rfl⟩ := List.mem_map.1 hs
  exact List.mem_flatten.2 ⟨p.tokens, List.mem_map_of_mem hp, h p hp t ht⟩

/-- What is in a statement is among the tokens it is derived from. -/
theorem DerivesStmt.tokens {d : Nat} {rank : Rank} {p : Part} (h : DerivesStmt d rank p) :
    ∀ t ∈ p.statement.tokens, t ∈ p.tokens := by
  induction h with
  | function _ _ _ hs _ _ _ _ _ _ ih =>
      intro t ht
      rcases List.mem_cons.1 ht with rfl | ht
      · exact List.mem_cons_of_mem _ List.mem_cons_self
      refine List.mem_cons_of_mem _ (List.mem_cons_of_mem _ (List.mem_cons_of_mem _ (List.mem_append.2 ?_)))
      rcases List.mem_append.1 ht with ht | ht
      · exact .inl (hs.mem (List.mem_map_of_mem ht) List.mem_cons_self)
      · have hb := tokens_of_parts ih t ht
        exact .inr (List.mem_cons_of_mem _ (List.mem_cons_of_mem _ (List.mem_append_left _ hb)))
  | var _ h => exact fun t ht => List.mem_cons_of_mem _ (h.tokens t ht)
  | statement _ ih | nested _ _ ih => exact ih
  | expression h _ => exact fun t ht => List.mem_append_left _ (h.tokens t ht)
  | print _ h _ =>
      intro t ht
      rcases List.mem_cons.1 ht with rfl | ht
      · exact List.mem_cons_self
      · exact List.mem_cons_of_mem _ (List.mem_append_left _ (h.tokens t ht))
  | block _ _ _ ih => exact fun t ht => List.mem_cons_of_mem _ (List.mem_append_left _ (tokens_of_parts ih t ht))
  | ifThen _ _ hc _ _ iy =>
      intro t ht
      refine List.mem_cons_of_mem _ (List.mem_cons_of_mem _ (List.mem_append.2 ?_))
      rcases List.mem_append.1 ht with ht | ht
      · exact .inl (hc.tokens t ht)
      · exact .inr (List.mem_cons_of_mem _ (iy t ht))
  | ifElse _ _ hc _ _ _ _ _ iy ino =>
      intro t ht
      refine List.mem_cons_of_mem _ (List.mem_cons_of_mem _ (List.mem_append.2 ?_))
      rcases List.mem_append.1 ht with ht | ht
      · exact .inl (hc.tokens t ht)
      · refine .inr (List.mem_cons_of_mem _ (List.mem_append.2 ?_))
        rcases List.mem_append.1 ht with ht | ht
        · exact .inl (iy t ht)
        · exact .inr (List.mem_cons_of_mem _ (ino t ht))
  | whileLoop _ _ hc _ _ ib =>
      intro t ht
      refine List.mem_cons_of_mem _ (List.mem_cons_of_mem _ (List.mem_append.2 ?_))
      rcases List.mem_append.1 ht with ht | ht
      · exact .inl (hc.tokens t ht)
      · exact .inr (List.mem_cons_of_mem _ (ib t ht))
  | forLoop _ _ hi hc hn _ hd ib =>
      obtain rfl := desugars_iff.1 hd
      intro t ht
      refine List.mem_cons_of_mem _ (List.mem_cons_of_mem _ ?_)
      rcases mem_tokens_forLoop ht with ⟨s, rfl, hs⟩ | ht | ⟨i, rfl, hs⟩ | ht
      · exact List.mem_append_left _ (hi.tokens t hs)
      · exact List.mem_append_right _ (List.mem_append_left _ (hc.tokens t ht))
      · exact List.mem_append_right _ (List.mem_append_right _ (List.mem_append_left _ (hn.tokens t hs)))
      · exact List.mem_append_right _ (List.mem_append_right _ (List.mem_append_right _ (ib t ht)))

theorem DerivesProgram.tokens {ts : List Token} {program : Program} (h : DerivesProgram ts program) :
    ∀ t ∈ Stmt.tokensAll program, t ∈ ts := by
  obtain ⟨parts, hp, rfl, rfl⟩ := h
  exact tokens_of_parts fun p hm => (hp p hm).tokens

/-- Two programs one after the other are a program. -/
theorem DerivesProgram.append {ts us : List Token} {p q : Program} (h : DerivesProgram ts p)
    (h' : DerivesProgram us q) : DerivesProgram (ts ++ us) (p ++ q) := by
  obtain ⟨parts, hp, rfl, rfl⟩ := h
  obtain ⟨parts', hp', rfl, rfl⟩ := h'
  refine ⟨parts ++ parts', ?_, ?_, ?_⟩
  · exact List.forall_mem_append.2 ⟨hp, hp'⟩
  · rw [List.map_append, List.flatten_append]
  · rw [List.map_append]

end Treewalk.Grammar
