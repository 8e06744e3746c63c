import Treewalk.Proofs.Grammar.Frame
import Treewalk.Proofs.Syntax.Spelled

/- Spelling: whatever is read is spelled by tokens that were passed, also where something was at fault. -/

namespace Treewalk

/-- All numbers and strings among some tokens carry a value. -/
def Grammar.Valued (ts : List Token) : Prop := ∀ t ∈ ts, t.type = .number ∨ t.type = .string → t.literal.isSome

/-- Among tokens of `us`, what a rule finds from a cursor on satisfies `V` with some of the tokens that it passes, in
their order. -/
def Result.Yields {α : Type} (us : List Token) (V : List Token → α → Prop) (s : Cursor) (r : Result α) : Prop :=
  s.rest ⊆ us → ∀ a t, r = .found a t → ∃ ts, V ts a ∧ (ts ++ t.rest).Sublist s.rest

namespace Result.Yields

open Cursor

variable {α β : Type} {us : List Token} {V : List Token → α → Prop} {W : List Token → β → Prop} {s t : Cursor}

theorem found (ts : List Token) {a : α} (h : V ts a) (ht : (ts ++ t.rest).Sublist s.rest) :
    (Result.found a t).Yields us V s := by
  rintro - _ _ ⟨⟩
  exact ⟨ts, h, ht⟩

/-- What stands for no token of its own. -/
theorem here {a : α} (h : V [] a) (s : Cursor) : (Result.found a s).Yields us V s := found [] h (List.Sublist.refl _)

theorem fault (report : Report) (t s : Cursor) : (Result.fault report t : Result α).Yields us V s := by
  rintro - _ _ ⟨⟩

theorem bind {r : Result α} {f : α → Cursor → Result β} (h : r.Yields us V s)
    (hf : ∀ ts a t, r = .found a t → V ts a → (f a t).Yields us (fun us b => W (ts ++ us) b) t) :
    (r.bind f).Yields us W s := by
  intro hs b u hu
  obtain ⟨a, t, hr, hb⟩ := bind_eq_found hu
  obtain ⟨ts, hV, hts⟩ := h hs a t hr
  have ht : t.rest ⊆ us := fun x hx => hs (hts.subset (List.mem_append_right ts hx))
  obtain ⟨ts', hW, hts'⟩ := hf ts a t hr hV ht b u hb
  refine ⟨ts ++ ts', hW, ?_⟩
  rw [List.append_assoc]
  exact (hts'.append_left ts).trans hts

theorem map {r : Result α} {f : α → β} (h : r.Yields us V s) (hf : ∀ ts a, V ts a → W ts (f a)) :
    (r.map f).Yields us W s :=
  h.bind fun ts a t _ hV => here (by rw [List.append_nil]; exact hf ts a hV) t

/-- After a token that is one of those that are found. -/
theorem taken {types : List TokenType} {token : Token} {r : Result β} (ht : s.taken? types = some (token, t))
    (h : token ∈ us → token.type ∈ types → r.Yields us (fun ts b => W (token :: ts) b) t) : r.Yields us W s := by
  obtain ⟨rest, hs, htype, rfl⟩ := taken?_eq_some_iff.1 ht
  intro hsub b u hu
  rw [hs] at hsub ⊢
  obtain ⟨hm, hrest⟩ := List.cons_subset.1 hsub
  obtain ⟨ts, hW, hts⟩ := h hm htype hrest b u hu
  exact ⟨token :: ts, hW, hts.cons_cons token⟩

/-- After a token that is not one of those that are found. -/
theorem skipped {types : List TokenType} {token : Token} {r : Result β} (ht : s.taken? types = some (token, t))
    (h : r.Yields us W t) : r.Yields us W s := by
  obtain ⟨rest, hs, -, rfl⟩ := taken?_eq_some_iff.1 ht
  intro hsub b u hu
  rw [hs] at hsub ⊢
  obtain ⟨ts, hW, hts⟩ := h (List.cons_subset.1 hsub).2 b u hu
  exact ⟨ts, hW, hts.cons token⟩

theorem expected (s : Cursor) (type : TokenType) (f : Fault) :
    (s.expected type f).Yields us (fun ts token => ts = [token] ∧ token.type = type) s := by
  unfold Cursor.expected
  split
  · exact fault _ _ _
  · next token t ht => exact taken ht fun _ htype => here ⟨rfl, List.mem_singleton.1 htype⟩ t

/-- After what is read and dropped. -/
theorem dropped {r : Result α} {f : α → Cursor → Result β} (h : Leads s r.next)
    (hf : ∀ a t, r = .found a t → (f a t).Yields us W t) : (r.bind f).Yields us W s := by
  intro hs b u hu
  obtain ⟨a, t, rfl, hb⟩ := bind_eq_found hu
  obtain ⟨ts, hW, hts⟩ := hf a t rfl (List.Subset.trans h.rest.subset hs) b u hb
  exact ⟨ts, hW, hts.trans h.rest.sublist⟩

/-- What is complete but for a token that is none of its own. -/
theorem closed {type : TokenType} {f : Fault} {b : β} (h : W [] b) :
    ((s.expected type f).map fun _ => b).Yields us W s :=
  dropped (.expected s type f) fun _ t _ => here h t

theorem level {r : Result α} {report : Report} (h : r.Yields us V s.deeper) :
    (if s.depth < maxNesting then r.higher else .fault report s).Yields us V s := by
  split
  · intro hs a t ht
    obtain ⟨u, hr, rfl⟩ := higher_eq_found ht
    exact h hs a u hr
  · exact .fault _ _ _

theorem counted {r : Result α} {count : Nat} {f : Fault} (h : r.Yields us V (s.counted count f)) :
    r.Yields us V s := by
  have hr : (s.counted count f).rest = s.rest := by
    unfold Cursor.counted
    split <;> rfl
  unfold Yields at h ⊢
  rwa [hr] at h

theorem recovered {V : List Token → Stmt → Prop} {r : Result Stmt} (h : r.Yields us V s) (hl : Leads s r.next)
    (hs : s.rest ⊆ us) :
    ∃ ts, Joined V ts (Grammar.recovered r).1.toList ∧ (ts ++ (Grammar.recovered r).2.rest).Sublist s.rest := by
  cases r with
  | found stmt t =>
      obtain ⟨ts, hV, hts⟩ := h hs stmt t rfl
      exact ⟨ts, .one hV, hts⟩
  | fault report t => exact ⟨[], .nil, hl.recovered.rest.sublist⟩

/-- After a statement, or none where it was at fault. -/
theorem following {V : List Token → Stmt → Prop} {r : Result Stmt} (h : r.Yields us V s) (hl : Leads s r.next)
    {q : Result β} (hq : ∀ ts, Joined V ts (Grammar.recovered r).1.toList →
      q.Yields us (fun us b => W (ts ++ us) b) (Grammar.recovered r).2) : q.Yields us W s := by
  intro hs b u hu
  obtain ⟨ts, hV, hts⟩ := recovered h hl hs
  obtain ⟨ts', hW, hts'⟩ := hq ts hV (List.Subset.trans hl.recovered.rest.subset hs) b u hu
  refine ⟨ts ++ ts', hW, ?_⟩
  rw [List.append_assoc]
  exact (hts'.append_left ts).trans hts

end Result.Yields

namespace Grammar

open Cursor Result

/-- A number or a string is read as the value that its token carries. -/
theorem denotes_of_constant {us : List Token} (hv : Valued us) {t : Token} (ht : t ∈ us) {v : Literal}
    (h : constant? t = some v) : t.Denotes v := by
  have value : t.type = .number ∨ t.type = .string → t.literal.getD .nil = v → t.Denotes v := by
    intro htype hd
    obtain ⟨w, hw⟩ := Option.isSome_iff_exists.1 (hv t ht htype)
    rw [hw] at hd
    exact .value htype (hw.trans (congrArg some hd))
  unfold constant? at h
  split at h
  · next htype => cases h; exact .yes htype
  · next htype => cases h; exact .no htype
  · next htype => cases h; exact .nil htype
  · next htype => exact value (.inl htype) (Option.some.inj h)
  · next htype => exact value (.inr htype) (Option.some.inj h)
  · cases h

/-- From a number or a string a primary gives the literal with the value of this token. -/
theorem primary_of_value {s : Cursor} {t : Token} {rest : List Token} (hs : s.rest = t :: rest)
    (ht : t.type = .number ∨ t.type = .string) {v : Literal} (hv : t.literal = some v) :
    (primary s).result = .found (.literal v) { s with rest } := by
  have hp : t.type ∈ primaryTypes := by rcases ht with h | h <;> rw [h] <;> decide
  have hc : constant? t = some v := by
    unfold constant?
    rcases ht with h | h <;> rw [h, hv] <;> rfl
  rw [result_primary, taken?_eq_some_iff.2 ⟨rest, hs, hp, rfl⟩]
  simp only [hc]

theorem spelled_infixNode {ls rs : List Token} {l r : Expr} {op : Token} {k : Nat} (hl : l.Spelled ls)
    (ho : op.type ∈ operators k) (hr : r.Spelled rs) : (infixNode l op r).Spelled (ls ++ op :: rs) := by
  unfold infixNode
  split
  · next h => exact .logical hl h hr
  · next h => exact .binary hl ((operators_cases ho).resolve_left h) hr

theorem spelled_call {cs ts : List Token} {c : Expr} {es : List Expr} {paren : Token} (hc : c.Spelled cs)
    (hs : Joined (fun us e => e.Spelled us) ts es) (hp : paren.type = .rightParen) :
    (Expr.call c paren es).Spelled (cs ++ (ts ++ [paren])) := by
  obtain ⟨args, ha, rfl, rfl⟩ := hs
  exact .call hc ha hp

section
variable {us : List Token} (hv : Valued us)

/-- What each rule for expressions finds is spelled; what stands before it is given. -/
def expressionSpelling (us : List Token) : ExpressionMotive where
  expression s := (expression s).result.Yields us (fun ts e => e.Spelled ts) s
  assignment s := (assignment s).result.Yields us (fun ts e => e.Spelled ts) s
  infixLevel level s := (infixLevel level s).result.Yields us (fun ts e => e.Spelled ts) s
  infixTail k left s := ∀ ls, left.Spelled ls →
    (infixTail k left s).result.Yields us (fun ts e => e.Spelled (ls ++ ts)) s
  unary s := (unary s).result.Yields us (fun ts e => e.Spelled ts) s
  calls callee s := ∀ cs, callee.Spelled cs → (calls callee s).result.Yields us (fun ts e => e.Spelled (cs ++ ts)) s
  arguments count s := (arguments count s).result.Yields us (Joined fun ts e => e.Spelled ts) s
  primary s := (primary s).result.Yields us (fun ts e => e.Spelled ts) s

include hv

theorem expressionSpelling_holds : (expressionSpelling us).Holds fun _ => True := by
  apply ExpressionMotive.induct
  case primary =>
    intro s ih
    change (primary s).result.Yields us _ s
    rw [result_primary]
    split
    · exact .fault _ _ _
    · next token t ht =>
        split
        · next v hc => exact .taken ht fun hm _ => .here (.literal (denotes_of_constant hv hm hc)) t
        · split
          · next hi => exact .taken ht fun _ _ => .here (.variable hi) t
          · refine .skipped ht ((ih.expression t (left_lt_of_taken ht)).bind fun ts inner u _ hi => ?_)
            exact .closed (by rw [List.append_nil]; exact .group hi)
  case calls =>
    intro callee s ih cs hc
    rw [result_calls]
    split
    · exact .here (by rw [List.append_nil]; exact hc) s
    · next opening t ht =>
        have hs := left_lt_of_taken ht
        refine .skipped ht ?_
        split
        · next paren u hu =>
            have ht' := left_lt_of_taken hu
            refine .taken hu fun _ hp => ?_
            have hcall := spelled_call hc .nil (List.mem_singleton.1 hp)
            simpa only [List.append_assoc, List.nil_append, List.cons_append] using ih.calls _ u (by omega) _ hcall
        · refine (ih.arguments 0 t hs).bind fun ts args u hu ha => (Yields.expected u _ _).bind ?_
          rintro _ paren v hv ⟨rfl, hp⟩
          have ht' := Reading.left_lt_of_result hu
          have hu' := left_lt_of_expected hv
          have hcall := spelled_call hc ha hp
          simpa only [List.append_assoc, List.nil_append, List.cons_append] using ih.calls _ v (by omega) _ hcall
  case unary =>
    intro s ih hp
    change (unary s).result.Yields us _ s
    rw [result_unary]
    split
    · exact Yields.bind hp fun cs callee t ht hc => ih.calls callee t (Reading.left_lt_of_result ht) cs hc
    · next op t ht =>
        have hs := left_lt_of_taken ht
        refine .taken ht fun _ ho => (Yields.level (ih.unary t.deeper hs)).map fun ts e he => ?_
        exact .unary (by simpa using ho) he
  case infixTail =>
    intro k left s ih ls hl
    rw [result_infixTail]
    split
    · exact .here (by rw [List.append_nil]; exact hl) s
    · next op t ht =>
        have hs := left_lt_of_taken ht
        refine .taken ht fun _ ho => (ih.infixLevel k t hs).bind fun rs right u hu hr => ?_
        have ht' := Reading.left_lt_of_result hu
        have hnode := spelled_infixNode hl ho hr
        simpa only [List.append_assoc, List.cons_append] using ih.infixTail k _ u (by omega) _ hnode
  case operand =>
    intro s h
    change (infixLevel 0 s).result.Yields us _ s
    rw [result_infixLevel_zero]
    exact h
  case infixLevel =>
    intro k s ih h
    change (infixLevel (k + 1) s).result.Yields us _ s
    rw [result_infixLevel_succ]
    exact Yields.bind h fun ls left t ht hl => ih.infixTail k left t (Reading.left_lt_of_result ht) ls hl
  case assignment =>
    intro s ih h
    change (assignment s).result.Yields us _ s
    rw [result_assignment]
    refine Yields.bind h fun ls target t ht hl => ?_
    split
    · exact .here (by rw [List.append_nil]; exact hl) t
    · next equals u hu =>
        have hs := Reading.left_lt_of_result ht
        have ht' := left_lt_of_taken hu
        refine .skipped hu ?_
        cases target with
        | «variable» name =>
            cases hl with
            | «variable» hn =>
                exact (ih.assignment u (by omega)).bind fun ts value v _ hvalue =>
                  .here (by rw [List.append_nil]; exact .assign hn hvalue) v
        | _ =>
            exact .dropped (expressionLeads_holds.assignment u trivial) fun value v _ =>
              .found [] (by rw [List.append_nil]; exact hl) (List.Sublist.refl _)
  case expression =>
    intro s h
    change (expression s).result.Yields us _ s
    rw [result_expression]
    exact Yields.level h
  case arguments =>
    intro count s ih h
    change (arguments count s).result.Yields us _ s
    rw [result_arguments]
    refine (Yields.counted h).bind fun ts arg t ht ha => ?_
    split
    · exact .here (by rw [List.append_nil]; exact .one ha) t
    · next comma u hu =>
        have hs : t.left < s.left := Reading.left_lt_of_result ht
        have ht' := left_lt_of_taken hu
        exact .skipped hu (Yields.map (ih.arguments (count + 1) u (by omega)) fun us args hargs => .cons ha hargs)

theorem spelled_expression (s : Cursor) : (expression s).result.Yields us (fun ts e => e.Spelled ts) s :=
  (expressionSpelling_holds hv).expression s trivial

theorem spelled_condition (opening closing : Fault) (s : Cursor) :
    (condition opening closing s).result.Yields us (fun ts e => e.Spelled ts) s := by
  rw [result_condition]
  refine .dropped (.expected s _ _) fun _ t _ => (spelled_expression hv t).bind fun ts e u _ he => ?_
  exact .closed (by rw [List.append_nil]; exact he)

theorem spelled_expressionStatement (s : Cursor) :
    (expressionStatement s).result.Yields us (fun ts stmt => stmt.Spelled ts) s := by
  rw [result_expressionStatement]
  exact (spelled_expression hv s).bind fun ts e t _ he => .closed (by rw [List.append_nil]; exact .expression he)

theorem spelled_printStatement {keyword : Token} (hk : keyword.type = .printWord) (s : Cursor) :
    (printStatement keyword s).result.Yields us (fun ts stmt => stmt.Spelled (keyword :: ts)) s := by
  rw [result_printStatement]
  exact (spelled_expression hv s).bind fun ts e t _ he => .closed (by rw [List.append_nil]; exact .print hk he)

theorem spelled_varDeclaration (s : Cursor) :
    (varDeclaration s).result.Yields us (fun ts stmt => stmt.Spelled ts) s := by
  rw [result_varDeclaration]
  refine (Yields.expected s _ _).bind ?_
  rintro _ name t - ⟨rfl, hn⟩
  split
  · exact .closed (.bare hn)
  · next equals u hu =>
      refine .skipped hu ((spelled_expression hv u).bind fun ts e v _ he => .closed ?_)
      rw [List.append_nil]
      exact .var hn he

omit hv in
theorem spelled_parameters (count : Nat) (s : Cursor) :
    (parameters count s).result.Yields us (fun ts params => ts = params ∧ ∀ p ∈ params, p.type = .identifier) s := by
  rw [result_parameters]
  refine (Yields.counted (Yields.expected _ _ _)).bind ?_
  rintro _ name t ht ⟨rfl, hn⟩
  have hs : t.left < (s.counted count .tooManyParameters).left := left_lt_of_expected ht
  split
  · exact .here ⟨rfl, List.forall_mem_singleton.2 hn⟩ t
  · next comma u hu =>
      have ht' := left_lt_of_taken hu
      refine .skipped hu ((spelled_parameters (count + 1) u).map ?_)
      rintro _ params ⟨rfl, hp⟩
      exact ⟨rfl, List.forall_mem_cons.2 ⟨hn, hp⟩⟩
termination_by s.left
decreasing_by rw [left_counted] at hs; omega

omit hv in
theorem spelled_parameterList (s : Cursor) :
    (parameterList s).result.Yields us (fun ts params => ts = params ∧ ∀ p ∈ params, p.type = .identifier) s := by
  rw [result_parameterList]
  refine .dropped (.expected s _ _) fun _ t _ => ?_
  split
  · next h => exact .skipped h (.here ⟨rfl, List.forall_mem_nil _⟩ _)
  · refine (spelled_parameters 0 t).bind fun ts params u _ hp => .closed ?_
    rw [List.append_nil]
    exact hp

theorem spelled_initializer (s : Cursor) :
    (initializer s).result.Yields us
      (fun ts init => ∃ i : Option (List Token × Stmt), i.elim [] Prod.fst = ts ∧ i.map Prod.snd = init ∧
        ∀ p ∈ i, p.2.Spelled p.1) s := by
  have given : ∀ ts stmt, stmt.Spelled ts → ∃ i : Option (List Token × Stmt), i.elim [] Prod.fst = ts ∧
      i.map Prod.snd = some stmt ∧ ∀ p ∈ i, p.2.Spelled p.1 :=
    fun ts stmt h => ⟨some (ts, stmt), rfl, rfl, fun p hp => Option.some.inj hp ▸ h⟩
  rw [result_initializer]
  split
  · exact (spelled_expressionStatement hv s).map given
  · next word t ht =>
      refine .skipped ht ?_
      split
      · exact .here ⟨none, rfl, rfl, nofun⟩ t
      · exact (spelled_varDeclaration hv t).map given

theorem spelled_loopCondition (s : Cursor) :
    (loopCondition s).result.Yields us
      (fun ts e => ∃ c : Option (List Token × Expr), c.elim [] Prod.fst = ts ∧
        (c.map Prod.snd).getD (.literal (.boolean true)) = e ∧ ∀ p ∈ c, p.2.Spelled p.1) s := by
  rw [result_loopCondition]
  split
  · next h => exact .skipped h (.here ⟨none, rfl, rfl, nofun⟩ _)
  · refine (spelled_expression hv s).bind fun ts e t _ he => .closed ?_
    rw [List.append_nil]
    exact ⟨some (ts, e), rfl, rfl, fun p hp => Option.some.inj hp ▸ he⟩

theorem spelled_increment (s : Cursor) :
    (increment s).result.Yields us
      (fun ts inc => ∃ n : Option (List Token × Expr), n.elim [] Prod.fst = ts ∧ n.map Prod.snd = inc ∧
        ∀ p ∈ n, p.2.Spelled p.1) s := by
  rw [result_increment]
  split
  · next h => exact .skipped h (.here ⟨none, rfl, rfl, nofun⟩ _)
  · refine (spelled_expression hv s).bind fun ts e t _ he => .closed ?_
    rw [List.append_nil]
    exact ⟨some (ts, e), rfl, rfl, fun p hp => Option.some.inj hp ▸ he⟩

end

/-- What each rule for statements finds is spelled, with the word before it where the rule starts after a `for`. -/
def statementSpelling (us : List Token) : StatementMotive where
  declarationRule s := (declarationRule s).result.Yields us (fun ts stmt => stmt.Spelled ts) s
  function s := (function s).result.Yields us (fun ts stmt => stmt.Spelled ts) s
  statement s := (statement s).result.Yields us (fun ts stmt => stmt.Spelled ts) s
  statementRule s := (statementRule s).result.Yields us (fun ts stmt => stmt.Spelled ts) s
  ifStatement s := (ifStatement s).result.Yields us (fun ts stmt => stmt.Spelled ts) s
  whileStatement s := (whileStatement s).result.Yields us (fun ts stmt => stmt.Spelled ts) s
  forStatement s := ∀ word : Token, word.type = .forWord →
    (forStatement s).result.Yields us (fun ts stmt => stmt.Spelled (word :: ts)) s
  block s := (block s).result.Yields us (Joined fun ts stmt => stmt.Spelled ts) s

section
variable {us : List Token} (hv : Valued us)
include hv

theorem statementSpelling_holds : (statementSpelling us).Holds fun _ => True := by
  apply StatementMotive.induct
  case function =>
    intro s ih
    change (function s).result.Yields us _ s
    rw [result_function]
    refine (Yields.expected s _ _).bind ?_
    rintro _ name t ht ⟨rfl, hn⟩
    refine (spelled_parameterList t).bind ?_
    rintro _ params u hu ⟨rfl, hp⟩
    refine .dropped (.expected u _ _) fun brace v hw => ?_
    have hs := left_lt_of_expected ht
    have ht' := Reading.left_lt_of_result hu
    have hu' := left_lt_of_expected hw
    refine Yields.map (ih.block v (by omega)) ?_
    rintro _ _ ⟨body, hb, rfl, rfl⟩
    exact .function hn hp hb
  case ifStatement =>
    intro s ih
    change (ifStatement s).result.Yields us _ s
    rw [result_ifStatement]
    refine (spelled_condition hv _ _ s).bind fun cs e t ht he => ?_
    have hs := Reading.left_lt_of_result ht
    refine (ih.statement t hs).bind fun ys yes u hu hy => ?_
    have ht' := Reading.left_lt_of_result hu
    split
    · exact .here (by rw [List.append_nil]; exact .ifThen he hy) u
    · next word v hw =>
        have hu' := left_lt_of_taken hw
        exact .skipped hw (Yields.map (ih.statement v (by omega)) fun ns no hn => .ifElse he hy hn)
  case whileStatement =>
    intro s ih
    change (whileStatement s).result.Yields us _ s
    rw [result_whileStatement]
    refine (spelled_condition hv _ _ s).bind fun cs e t ht he => ?_
    exact Yields.map (ih.statement t (Reading.left_lt_of_result ht)) fun bs body hb => .loop he hb
  case forStatement =>
    intro s ih word hword
    rw [result_forStatement]
    refine .dropped (.expected s _ _) fun opening t ht => ?_
    refine (spelled_initializer hv t).bind ?_
    rintro _ _ u hu ⟨init, rfl, rfl, hi⟩
    refine (spelled_loopCondition hv u).bind ?_
    rintro _ _ v hw ⟨c, rfl, rfl, hc⟩
    refine (spelled_increment hv v).bind ?_
    rintro _ _ w hw' ⟨inc, rfl, rfl, hn⟩
    have hs := left_lt_of_expected ht
    have ht' := Reading.left_lt_of_result hu
    have hu' := Reading.left_lt_of_result hw
    have hv' := Reading.left_lt_of_result hw'
    exact Yields.map (ih.statement w (by omega)) fun bs body hb =>
      .forLoop hword hi hc hn hb (desugars_iff.2 rfl)
  case statementRule =>
    intro s ih
    change (statementRule s).result.Yields us _ s
    rw [result_statementRule]
    split
    · exact spelled_expressionStatement hv s
    · next word t ht =>
        have hs := left_lt_of_taken ht
        unfold afterWord
        split
        · exact .skipped ht (ih.ifStatement t hs)
        · next hk => exact .taken ht fun _ _ => spelled_printStatement hv hk t
        · exact .skipped ht (ih.whileStatement t hs)
        · next hw => exact .taken ht fun _ _ => ih.forStatement t hs word hw
        · refine .skipped ht (Yields.map (ih.block t hs) ?_)
          rintro _ _ ⟨body, hb, rfl, rfl⟩
          exact .block hb
  case statement =>
    intro s h
    change (statement s).result.Yields us _ s
    rw [result_statement]
    exact Yields.level h
  case declarationRule =>
    intro s ih h
    change (declarationRule s).result.Yields us _ s
    rw [result_declarationRule]
    split
    · exact h
    · next word t ht =>
        refine .skipped ht ?_
        split
        · exact ih.function t (left_lt_of_taken ht)
        · exact spelled_varDeclaration hv t
  case block =>
    intro s ih h
    change (block s).result.Yields us _ s
    rw [result_block]
    split
    · next ht => exact .skipped ht (.here .nil _)
    · split
      · exact .fault _ _ _
      · next hs =>
          exact .following h (leads_declarationRule s) fun ts ht =>
            Yields.map (ih.block _ (left_recovered_lt s hs)) fun us body hb => ht.append hb

/-- Statements after one another, some of them at fault, are spelled by tokens in their order. -/
theorem spelled_declarations (s : Cursor) (hs : s.rest ⊆ us) :
    ∃ ts, Joined (fun ts stmt => stmt.Spelled ts) ts (declarations s).1 ∧
      (ts ++ (declarations s).2.rest).Sublist s.rest := by
  rw [declarations_eq]
  split
  · exact ⟨[], .nil, List.Sublist.refl _⟩
  · next he =>
      have hlt := left_recovered_lt s he
      have h := (statementSpelling_holds hv).declarationRule s trivial
      have hl := leads_declarationRule s
      obtain ⟨ts, ht, hts⟩ := Yields.recovered h hl hs
      obtain ⟨ts', ht', hts'⟩ := spelled_declarations (recovered (declarationRule s).result).2
        (List.Subset.trans hl.recovered.rest.subset hs)
      refine ⟨ts ++ ts', ht.append ht', ?_⟩
      rw [List.append_assoc]
      exact (hts'.append_left ts).trans hts
termination_by s.left

/-- A program read among tokens that carry their values is spelled by them. -/
theorem spelled_of_read {s : Cursor} (hs : s.rest ⊆ us) : (Program.read s).1.Spelled s.rest := by
  obtain ⟨ts, ht, hts⟩ := spelled_declarations hv { s with reports := [] } hs
  exact ⟨ts, ht, (List.sublist_append_left ts _).trans hts⟩

end

end Grammar

end Treewalk
