import Treewalk.Proofs.Grammar.ExpressionTracking

/- Walks for statements and declarations do what the rules do. -/

namespace Treewalk.Walk

open Grammar (StatementMotive)
open Cursor (left_lt_of_taken left_lt_of_expected type_of_taken taken?_of_subset untaken_append)

variable {L : Layout} {u : Cursor}

theorem tracks_expression (L : Layout) (u : Cursor) : Tracks L expression u (Grammar.expression u).result :=
  (expressionTracks_holds L).expression u trivial

theorem tracks_condition (opening closing : Fault) :
    Tracks L (condition opening closing) u (Grammar.condition opening closing u).result := by
  rw [condition, Grammar.result_condition]
  exact Tracks.expect.bind fun _ t _ => (tracks_expression L t).bind fun e v _ => Tracks.expect.map

theorem tracks_expressionStatement : Tracks L expressionStatement u (Grammar.expressionStatement u).result := by
  rw [expressionStatement, Grammar.result_expressionStatement]
  exact (tracks_expression L u).bind fun e t _ => Tracks.expect.map

theorem tracks_varDeclaration : Tracks L varDeclaration u (Grammar.varDeclaration u).result := by
  rw [varDeclaration, Grammar.result_varDeclaration]
  refine Tracks.expect.bind fun name t _ => .takesBind (fun _ v h => ?_) fun h => ?_
  · rw [h, bind_assoc]
    exact (tracks_expression L v).bind fun e w _ => Tracks.expect.map
  · rw [h, pure_bind]
    exact Tracks.expect.map

theorem tracks_parameters (count : Nat) : Tracks L (parameters count) u (Grammar.parameters count u).result := by
  suffices key : ∀ n count (u : Cursor), u.left = n →
      Tracks L (parameters count) u (Grammar.parameters count u).result from key _ count u rfl
  intro n
  induction n using Nat.strongRecOn with
  | _ n ih =>
      rintro count u rfl
      rw [parameters, Grammar.result_parameters]
      refine .counted (Tracks.expect.bind fun name t ht => .takes (fun _ v h => ?_) fun h => ?_)
      · rw [h]
        have hs := left_lt_of_expected ht
        rw [Cursor.left_counted] at hs
        exact (ih v.left (Nat.lt_trans (left_lt_of_taken h) hs) (count + 1) v rfl).map
      · rw [h]
        exact .pure [name]

theorem tracks_parameterList : Tracks L parameterList u (Grammar.parameterList u).result := by
  rw [parameterList, Grammar.result_parameterList]
  refine Tracks.expect.bind fun _ t _ => .unlessNext (fun _ v h => ?_) fun h => ?_
  · rw [h]
    exact .pure []
  · rw [h]
    exact (tracks_parameters 0).bind fun params v _ => Tracks.expect.map

theorem tracks_initializer : Tracks L initializer u (Grammar.initializer u).result := by
  rw [initializer, Grammar.result_initializer]
  refine .takes (fun _ t h => ?_) fun h1 => .takes (fun _ t h => ?_) fun h2 => ?_
  · rw [taken?_of_subset (by decide) h]
    simp only [List.mem_singleton.1 (type_of_taken h), if_true]
    exact .pure none
  · rw [taken?_of_subset (by decide) h]
    simp only [List.mem_singleton.1 (type_of_taken h)]
    exact tracks_varDeclaration.map
  · have untaken : u.taken? [.semicolon, .varWord] = none := untaken_append h1 h2
    rw [untaken]
    exact tracks_expressionStatement.map

theorem tracks_loopCondition : Tracks L loopCondition u (Grammar.loopCondition u).result := by
  rw [loopCondition, Grammar.result_loopCondition]
  refine .unlessNext (fun _ t h => ?_) fun h => ?_
  · rw [h]
    exact .pure _
  · rw [h]
    exact (tracks_expression L u).bind fun e t _ => Tracks.expect.map

theorem tracks_increment : Tracks L increment u (Grammar.increment u).result := by
  rw [increment, Grammar.result_increment]
  refine .unlessNext (fun _ t h => ?_) fun h => ?_
  · rw [h]
    exact .pure none
  · rw [h, bind_assoc]
    exact (tracks_expression L u).bind fun e t _ => Tracks.expect.map

/-- A rule whose fault is reported and gone past. -/
theorem tracks_declaration (h : Tracks L declarationRule u (Grammar.declarationRule u).result) :
    Tracks L declaration u
      (.found (Grammar.recovered (Grammar.declarationRule u).result).1
        (Grammar.recovered (Grammar.declarationRule u).result).2) := by
  rw [declaration]
  rintro s on rfl
  generalize (Grammar.declarationRule (s.cursor L)).result = r at h
  cases h s on rfl with
  | found he on' => exact (Follows.found (gives_pure _ _) on').from (gives_caught he).bind
  | @fault report s' he on' =>
      have next : Tracks L (resume >>= fun _ => pure none) (s'.cursor L |>.report report)
          (.found (none : Option Stmt) ((s'.cursor L).report report).resume) :=
        Tracks.bind (g := fun _ t => .found none t) .resume fun _ _ _ => .pure none
      exact (next _ (on'.report report) rfl).from ((gives_caught he).bind.trans (gives_report report s').bind)
  | outside he missing => exact .outside ((stops_caught he).bind _) missing

/-- The walks for statements do what the rules do. -/
def statementTracks (L : Layout) : StatementMotive where
  declarationRule t := Tracks L declarationRule t (Grammar.declarationRule t).result
  function t := Tracks L function t (Grammar.function t).result
  statement t := Tracks L statement t (Grammar.statement t).result
  statementRule t := Tracks L statementRule t (Grammar.statementRule t).result
  ifStatement t := Tracks L ifStatement t (Grammar.ifStatement t).result
  whileStatement t := Tracks L whileStatement t (Grammar.whileStatement t).result
  forStatement t := Tracks L forStatement t (Grammar.forStatement t).result
  block t := Tracks L block t (Grammar.block t).result

theorem statementTracks_holds (L : Layout) : (statementTracks L).Holds fun _ => True := by
  apply StatementMotive.induct
  case function =>
    intro s ih
    change Tracks L _ _ _
    rw [function, Grammar.result_function]
    refine Tracks.expect.bind fun name t ht => tracks_parameterList.bind fun params v hv =>
      Tracks.expect.bind fun _ w hw => Tracks.map (ih.block w ?_)
    have h1 := left_lt_of_expected ht
    have h2 := Reading.left_lt_of_result hv
    have h3 := left_lt_of_expected hw
    omega
  case ifStatement =>
    intro s ih
    change Tracks L _ _ _
    rw [ifStatement, Grammar.result_ifStatement]
    refine (tracks_condition _ _).bind fun e t ht => ?_
    have h1 := Reading.left_lt_of_result ht
    refine (ih.statement t h1).bind fun yes v hv => .takes (fun _ w h => ?_) fun h => ?_
    · rw [h]
      have h2 := Reading.left_lt_of_result hv
      have h3 := left_lt_of_taken h
      exact (ih.statement w (by omega)).map
    · rw [h]
      exact .pure _
  case whileStatement =>
    intro s ih
    change Tracks L _ _ _
    rw [whileStatement, Grammar.result_whileStatement]
    exact (tracks_condition _ _).bind fun e t ht => (ih.statement t (Reading.left_lt_of_result ht)).map
  case forStatement =>
    intro s ih
    change Tracks L _ _ _
    rw [forStatement, Grammar.result_forStatement]
    refine Tracks.expect.bind fun _ t ht => tracks_initializer.bind fun init v hv =>
      tracks_loopCondition.bind fun e w hw => tracks_increment.bind fun inc x hx => Tracks.map (ih.statement x ?_)
    have h1 := left_lt_of_expected ht
    have h2 := Reading.left_lt_of_result hv
    have h3 := Reading.left_lt_of_result hw
    have h4 := Reading.left_lt_of_result hx
    omega
  case statementRule =>
    intro s ih
    change Tracks L _ _ _
    rw [statementRule, Grammar.result_statementRule]
    refine .takes (fun word t h => ?_) fun h1 => ?_
    · rw [taken?_of_subset (by decide) h]
      simp only [Grammar.afterWord, List.mem_singleton.1 (type_of_taken h)]
      exact ih.ifStatement t (left_lt_of_taken h)
    refine .takesToken (fun word t h => ?_) fun h2 => ?_
    · rw [taken?_of_subset (by decide) h]
      simp only [Grammar.afterWord, List.mem_singleton.1 (type_of_taken h)]
      rw [Grammar.result_printStatement]
      exact (tracks_expression L t).bind fun e v _ => Tracks.expect.map
    refine .takes (fun word t h => ?_) fun h3 => ?_
    · rw [taken?_of_subset (by decide) h]
      simp only [Grammar.afterWord, List.mem_singleton.1 (type_of_taken h)]
      exact ih.whileStatement t (left_lt_of_taken h)
    refine .takes (fun word t h => ?_) fun h4 => ?_
    · rw [taken?_of_subset (by decide) h]
      simp only [Grammar.afterWord, List.mem_singleton.1 (type_of_taken h)]
      exact ih.forStatement t (left_lt_of_taken h)
    refine .takes (fun word t h => ?_) fun h5 => ?_
    · rw [taken?_of_subset (by decide) h]
      simp only [Grammar.afterWord, List.mem_singleton.1 (type_of_taken h)]
      exact Tracks.map (ih.block t (left_lt_of_taken h))
    have untaken : s.taken? [.ifWord, .printWord, .whileWord, .forWord, .leftBrace] = none :=
      untaken_append h1 (untaken_append h2 (untaken_append h3 (untaken_append h4 h5)))
    rw [untaken]
    exact tracks_expressionStatement
  case statement =>
    intro s h
    change Tracks L _ _ _
    rw [statement, Grammar.result_statement]
    exact Tracks.nested h
  case declarationRule =>
    intro s ih h
    change Tracks L _ _ _
    rw [declarationRule, Grammar.result_declarationRule]
    refine .takes (fun word t h => ?_) fun h1 => ?_
    · rw [taken?_of_subset (by decide) h]
      simp only [List.mem_singleton.1 (type_of_taken h), if_true]
      exact ih.function t (left_lt_of_taken h)
    refine .takes (fun word t h => ?_) fun h2 => ?_
    · rw [taken?_of_subset (by decide) h]
      simp only [List.mem_singleton.1 (type_of_taken h)]
      exact tracks_varDeclaration
    have untaken : s.taken? [.funWord, .varWord] = none := untaken_append h1 h2
    rw [untaken]
    exact h
  case block =>
    intro s ih h
    change Tracks L _ _ _
    rw [block, Grammar.result_block]
    rintro spot on rfl
    refine .check on (fun token h on' ha => ?_) fun hn => .atEnd on (fun he => ?_) fun he => ?_
    · rw [h]
      exact (Follows.found (gives_pure _ _) on').from ha.bind
    · rw [hn]
      simp only [if_pos he]
      exact Tracks.fail .braceAfterBlock spot on rfl
    · rw [hn]
      simp only [if_neg he]
      have next := (tracks_declaration h).bind (f := fun stmt => do return stmt.toList ++ (← block))
        (g := fun stmt t => (Grammar.block t).result.map (stmt.toList ++ ·)) fun stmt t ht => by
          cases ht
          exact Tracks.map (ih.block _ (Grammar.left_recovered_lt _ he))
      exact next spot on rfl

end Treewalk.Walk
