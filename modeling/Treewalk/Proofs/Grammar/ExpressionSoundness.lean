import Treewalk.Proofs.Grammar.Soundness

/- Soundness of the rules for expressions. -/

namespace Treewalk.Grammar

open Cursor

/-- The rules for expressions are sound, those that go on from an operand together with it. -/
def expressionSound : ExpressionMotive where
  expression s := Sound s (expression s).result fun ts e _ => DerivesExpr s.depth .expression ts e
  assignment s := Sound s (assignment s).result fun ts e _ => DerivesExpr s.depth .assignment ts e
  infixLevel level s := level ≤ 6 →
    Sound s (infixLevel level s).result fun ts e _ => DerivesExpr s.depth (.ofLevel level) ts e
  infixTail k left s := k < 6 → Sound s (infixTail k left s).result fun ts e _ =>
    ∀ ls, DerivesExpr s.depth (.ofLevel (k + 1)) ls left → DerivesExpr s.depth (.ofLevel (k + 1)) (ls ++ ts) e
  unary s := Sound s (unary s).result fun ts e _ => DerivesExpr s.depth .unary ts e
  calls callee s := Sound s (calls callee s).result fun ts e _ =>
    ∀ cs, DerivesExpr s.depth .call cs callee → DerivesExpr s.depth .call (cs ++ ts) e
  arguments count s := Sound s (arguments count s).result fun ts es _ =>
    ∃ args : List (List Token × Expr), es = args.map Prod.snd ∧ Separated (args.map Prod.fst) ts ∧
      (∀ a ∈ args, DerivesExpr s.depth .expression a.1 a.2) ∧ args ≠ [] ∧ count + args.length ≤ maxArguments
  primary s := Sound s (primary s).result fun ts e _ => DerivesExpr s.depth .primary ts e

theorem DerivesExpr.constant {d : Nat} {t : Token} {v : Literal} (h : constant? t = some v) :
    DerivesExpr d .primary [t] (.literal v) := by
  unfold constant? at h
  split at h
  · next ht => cases h; exact .trueWord ht
  · next ht => cases h; exact .falseWord ht
  · next ht => cases h; exact .nilWord ht
  · next ht => cases h; exact .value (by simp [ht])
  · next ht => cases h; exact .value (by simp [ht])
  · cases h

theorem type_of_primary {t : Token} (hm : t.type ∈ primaryTypes) (hc : constant? t = none)
    (hi : t.type ≠ .identifier) : t.type = .leftParen := by
  simp only [primaryTypes, List.mem_cons, List.not_mem_nil, or_false] at hm
  unfold constant? at hc
  rcases hm with h | h | h | h | h | h | h <;> simp_all

theorem expressionSound_holds : expressionSound.Holds fun _ => True := by
  apply ExpressionMotive.induct
  case primary =>
    intro s ih
    change Sound s _ _
    rw [result_primary]
    split
    · exact Sound.fault
    · next token t ht =>
        refine Sound.taken ht fun hm hd => ?_
        split
        · next v hv => exact Sound.found (.constant hv)
        · next hv =>
            split
            · next hi => exact Sound.found (.name hi)
            · next hi =>
                refine (ih.expression t (left_lt_of_taken ht)).bind fun inner u _ _ => Sound.ended ?_
                intro closing _ hc ts hts
                rw [hd] at hts
                exact .group (type_of_primary hm hv hi) hts hc
  case calls =>
    intro callee s ih
    change Sound s _ _
    rw [result_calls]
    split
    · exact Sound.found fun cs hcs => by rwa [List.append_nil]
    · next opening t ht =>
        have hs := left_lt_of_taken ht
        refine Sound.taken ht fun ho hd => ?_
        have ho := List.mem_singleton.1 ho
        split
        · next paren u hu =>
            have ht' := left_lt_of_taken hu
            refine Sound.taken hu fun hp hd' => (ih.calls _ u (by omega)).mono ?_
            intro us e _ h cs hcs
            rw [hd', hd] at h
            have hcall : DerivesExpr s.depth .call (cs ++ opening :: ([] ++ [paren]))
                (.call callee paren (([] : List (List Token × Expr)).map Prod.snd)) :=
              .call hcs ho .none (by simp) (Nat.zero_le _) (List.mem_singleton.1 hp)
            simpa using h _ hcall
        · refine (ih.arguments 0 t hs).bind fun args u hu hd' => (Sound.expected u _ _).bind fun paren v hv hd'' => ?_
          have ht' := Reading.left_lt_of_result hu
          have hu' := left_lt_of_expected hv
          refine (ih.calls _ v (by omega)).mono ?_
          rintro us e _ h _ ⟨rfl, hp⟩ ts ⟨args', rfl, hsep, ha, -, hn⟩ cs hcs
          rw [hd'', hd', hd] at h
          rw [hd] at ha
          have hcall := h _ (.call hcs ho hsep ha (by simpa using hn) hp)
          simpa using hcall
  case unary =>
    intro s ih hp
    change Sound s _ _
    rw [result_unary]
    split
    · refine Sound.bind hp fun callee t ht hd => (ih.calls callee t (Reading.left_lt_of_result ht)).mono ?_
      intro us e _ h cs hcs
      rw [hd] at h
      exact .tighter rfl (h cs (.tighter rfl hcs))
    · next operator t ht =>
        have hs := left_lt_of_taken ht
        refine Sound.taken ht fun ho hd => Sound.map (Sound.level fun hlt => ?_)
        refine (ih.unary t.deeper hs).mono fun ts e _ h => ?_
        rw [Cursor.deeper, hd] at h
        rw [hd] at hlt
        exact .unary ho hlt h
  case infixTail =>
    intro k left s ih hk
    rw [result_infixTail]
    split
    · exact Sound.found fun ls hls => by rwa [List.append_nil]
    · next operator t ht =>
        have hs := left_lt_of_taken ht
        refine Sound.taken ht fun ho hd => (ih.infixLevel k t hs (by omega)).bind fun right u hu hd' => ?_
        have ht' := Reading.left_lt_of_result hu
        refine (ih.infixTail k _ u (by omega) hk).mono ?_
        intro us e _ h rs hrs ls hls
        rw [hd', hd] at h
        rw [hd] at hrs
        have hjoin := h _ (.join hk hls ho hrs)
        simpa using hjoin
  case operand =>
    intro s h _
    rw [result_infixLevel_zero]
    exact h
  case infixLevel =>
    intro k s ih h hk
    rw [result_infixLevel_succ]
    refine Sound.bind (h (by omega)) fun left t ht hd => ?_
    refine (ih.infixTail k left t (Reading.left_lt_of_result ht) (by omega)).mono ?_
    intro us e _ htail ls hls
    rw [hd] at htail
    exact htail ls (.tighter (Layer.tighter?_ofLevel (by omega)) hls)
  case assignment =>
    intro s ih h
    change Sound s _ _
    rw [result_assignment]
    refine Sound.bind (h (by decide)) fun target t ht hd => ?_
    split
    · exact Sound.found fun ts hts => by rw [List.append_nil]; exact .tighter rfl hts
    · next equals u hu =>
        have hs := Reading.left_lt_of_result ht
        have ht' := left_lt_of_taken hu
        refine Sound.taken hu fun he hd' => (ih.assignment u (by omega)).bind fun value v _ _ => ?_
        split
        · next name =>
            refine Sound.found fun us hus ts hts => ?_
            obtain ⟨rfl, hn⟩ := hts.eq_name rfl
            rw [hd', hd] at hus
            simpa using DerivesExpr.assign hn (List.mem_singleton.1 he) hus
        · exact Sound.reported
  case expression =>
    intro s h
    change Sound s _ _
    rw [result_expression]
    exact Sound.level fun hlt => Sound.mono h fun ts e _ he => .expression hlt he
  case arguments =>
    intro count s ih h
    change Sound s _ _
    rw [result_arguments]
    refine Sound.counted .tooManyArguments (Sound.bind h fun arg t ht hd => ?_)
    split
    · refine Sound.found fun ts hts hc => ⟨[(ts, arg)], rfl, ?_, ?_, by simp, hc⟩
      · rw [List.append_nil]
        exact .one ts
      · exact List.forall_mem_singleton.2 hts
    · next comma u hu =>
        have hs : t.left < (s.counted count .tooManyArguments).left := Reading.left_lt_of_result ht
        have ht' := left_lt_of_taken hu
        rw [left_counted] at hs
        refine Sound.taken hu fun hm hd' => Sound.map ((ih.arguments (count + 1) u (by omega)).mono ?_)
        rintro us es _ ⟨args, rfl, hsep, ha, hne, hn⟩ ts hts hc
        refine ⟨(ts, arg) :: args, rfl, ?_, ?_, by simp, by simp; omega⟩
        · exact hsep.cons (by simpa using hne) (List.mem_singleton.1 hm)
        · rw [hd', hd] at ha
          exact List.forall_mem_cons.2 ⟨hts, ha⟩

end Treewalk.Grammar
