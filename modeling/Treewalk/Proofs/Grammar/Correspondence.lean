import Mathlib.Data.List.Forall2
import Treewalk.Proofs.Grammar.Frame

/- Correspondences: relations between tokens, between expressions and between statements that every node keeps which the
rules build. At cursors over corresponding tokens each rule finds corresponding trees, or the same fault. -/

namespace Treewalk.Grammar

/-- The infix operators that evaluate both operands. -/
def binaryTypes : List TokenType :=
  [.slash, .star, .plus, .minus, .greater, .greaterEqual, .less, .lessEqual, .bangEqual, .equalEqual]

theorem operators_cases {n : Nat} {type : TokenType} (h : type ∈ operators n) :
    (type = .andWord ∨ type = .orWord) ∨ type ∈ binaryTypes := by
  unfold operators at h
  split at h <;> simp only [List.mem_cons, List.not_mem_nil, or_false] at h <;>
    rcases h with rfl | rfl | rfl | rfl <;> decide

/-- Relations that the nodes of trees keep: of what is read at two cursors, the tokens, the expressions and the
statements. Names are identifiers, and other tokens have the types that their nodes are built for. Any faults may have
been reported before the two readings. -/
structure Correspondence where
  earlier : List Report := []
  earlier' : List Report := []
  token : Token → Token → Prop
  expr : Expr → Expr → Prop
  stmt : Stmt → Stmt → Prop
  type {t t'} (h : token t t') : t'.type = t.type
  constant {t t'} (h : token t t') : constant? t' = constant? t
  value {t t' v} (h : token t t') (hv : constant? t = some v) : expr (.literal v) (.literal v)
  always : expr (.literal (.boolean true)) (.literal (.boolean true))
  assign {n n' e e'} (hn : token n n') (ht : n.type = .identifier) (he : expr e e') :
    expr (.assign n e) (.assign n' e')
  binary {l l' o o' r r'} (hl : expr l l') (ho : token o o') (ht : o.type ∈ binaryTypes) (hr : expr r r') :
    expr (.binary l o r) (.binary l' o' r')
  logical {l l' o o' r r'} (hl : expr l l') (ho : token o o') (ht : o.type = .andWord ∨ o.type = .orWord)
    (hr : expr r r') : expr (.logical l o r) (.logical l' o' r')
  unary {o o' e e'} (ho : token o o') (ht : o.type = .bang ∨ o.type = .minus) (he : expr e e') :
    expr (.unary o e) (.unary o' e')
  call {c c' p p' es es'} (hc : expr c c') (hp : token p p') (ht : p.type = .rightParen)
    (hs : List.Forall₂ expr es es') : expr (.call c p es) (.call c' p' es')
  group {e e'} (he : expr e e') : expr (.group e) (.group e')
  name {n n'} (hn : token n n') (ht : n.type = .identifier) : expr (.variable n) (.variable n')
  name_left {n e'} (h : expr (.variable n) e') : ∃ n', e' = .variable n' ∧ token n n' ∧ n.type = .identifier
  name_right {e n'} (h : expr e (.variable n')) : ∃ n, e = .variable n
  block {b b'} (hb : List.Forall₂ stmt b b') : stmt (.block b) (.block b')
  expression {e e'} (he : expr e e') : stmt (.expression e) (.expression e')
  function {n n' ps ps' b b'} (hn : token n n') (ht : n.type = .identifier)
    (hp : List.Forall₂ (fun p p' => token p p' ∧ p.type = .identifier) ps ps') (hb : List.Forall₂ stmt b b') :
    stmt (.function n ps b) (.function n' ps' b')
  ifThen {c c' y y'} (hc : expr c c') (hy : stmt y y') : stmt (.ifThen c y) (.ifThen c' y')
  ifElse {c c' y y' n n'} (hc : expr c c') (hy : stmt y y') (hn : stmt n n') : stmt (.ifElse c y n) (.ifElse c' y' n')
  loop {c c' b b'} (hc : expr c c') (hb : stmt b b') : stmt (.loop c b) (.loop c' b')
  print {k k' e e'} (hk : token k k') (ht : k.type = .printWord) (he : expr e e') :
    stmt (.print k e) (.print k' e')
  varBare {n n'} (hn : token n n') (ht : n.type = .identifier) : stmt (.var n none) (.var n' none)
  var {n n' e e'} (hn : token n n') (ht : n.type = .identifier) (he : expr e e') :
    stmt (.var n (some e)) (.var n' (some e'))

namespace Correspondence

variable (C : Correspondence)

/-- The same fault at corresponding tokens. -/
structure Reports (r r' : Report) : Prop where
  token : C.token r.token r'.token
  fault : r'.fault = r.fault

/-- Corresponding faults, after those reported before. -/
inductive Reported : List Report → List Report → Prop
  | nil : Reported C.earlier C.earlier'
  | report {rs rs' r r'} (h : Reported rs rs') (hr : C.Reports r r') : Reported (rs ++ [r]) (rs' ++ [r'])

/-- Cursors as deep over corresponding tokens, with corresponding faults found on the way to them. -/
structure Cursors (s s' : Cursor) : Prop where
  rest : List.Forall₂ C.token s.rest s'.rest
  ending : C.token s.ending s'.ending
  depth : s'.depth = s.depth
  reports : C.Reported s.reports s'.reports

/-- Related values, or the same fault, and corresponding cursors after it. -/
inductive Results {α : Type} (V : α → α → Prop) : Result α → Result α → Prop
  | found {a a' t t'} (ha : V a a') (ht : C.Cursors t t') : Results V (.found a t) (.found a' t')
  | fault {r r' t t'} (hr : C.Reports r r') (ht : C.Cursors t t') : Results V (.fault r t) (.fault r' t')

variable {C} {α β : Type} {V : α → α → Prop} {W : β → β → Prop} {s s' : Cursor}

theorem Reported.added {rs rs' : List Report} (h : C.Reported rs rs') :
    ∃ added added', rs = C.earlier ++ added ∧ rs' = C.earlier' ++ added' ∧ List.Forall₂ C.Reports added added' := by
  induction h with
  | nil => exact ⟨[], [], (List.append_nil _).symm, (List.append_nil _).symm, .nil⟩
  | report _ hr ih =>
      obtain ⟨added, added', rfl, rfl, h⟩ := ih
      exact ⟨_, _, List.append_assoc .., List.append_assoc .., List.rel_append h (.cons hr .nil)⟩

namespace Cursors

variable (h : C.Cursors s s')

include h

theorem atEnd : s'.atEnd = s.atEnd := by
  have hr := h.rest
  unfold Cursor.atEnd
  generalize s.rest = ts, s'.rest = ts' at hr
  cases hr <;> rfl

theorem peek : C.token s.peek s'.peek := by
  have hr := h.rest
  unfold Cursor.peek
  generalize s.rest = ts, s'.rest = ts' at hr
  cases hr with
  | nil => exact h.ending
  | cons ht _ => exact ht

theorem reported {r r' : Report} (hr : C.Reports r r') : C.Cursors (s.report r) (s'.report r') :=
  { h with reports := h.reports.report hr }

theorem counted (count : Nat) (fault : Fault) : C.Cursors (s.counted count fault) (s'.counted count fault) := by
  refine { h with reports := ?_ }
  unfold Cursor.counted
  split
  · exact h.reports.report ⟨h.peek, rfl⟩
  · exact h.reports

theorem deeper : C.Cursors s.deeper s'.deeper := { h with depth := congrArg (· + 1) h.depth }

theorem higher : C.Cursors s.higher s'.higher := { h with depth := congrArg (· - 1) h.depth }

/-- Neither cursor is at a token of these types, or both are. -/
theorem taken (types : List TokenType) :
    s.taken? types = none ∧ s'.taken? types = none ∨
      ∃ token t token' t', s.taken? types = some (token, t) ∧ s'.taken? types = some (token', t') ∧
        C.token token token' ∧ token.type ∈ types ∧ C.Cursors t t' := by
  have hr := h.rest
  unfold Cursor.taken?
  generalize hs : s.rest = ts, hs' : s'.rest = ts' at hr
  cases hr with
  | nil => exact .inl ⟨rfl, rfl⟩
  | @cons t t' rest rest' ht hr =>
      dsimp only
      rw [C.type ht]
      split
      · next hm => exact .inr ⟨_, _, _, _, rfl, rfl, ht, List.contains_iff_mem.1 hm, { h with rest := hr }⟩
      · exact .inl ⟨rfl, rfl⟩

theorem expected (type : TokenType) (fault : Fault) :
    C.Results (fun t t' => C.token t t' ∧ t.type = type) (s.expected type fault) (s'.expected type fault) := by
  unfold Cursor.expected
  rcases h.taken [type] with ⟨e, e'⟩ | ⟨token, t, token', t', e, e', ht, hm, hc⟩
  · rw [e, e']
    exact .fault ⟨h.peek, rfl⟩ h
  · rw [e, e']
    exact .found ⟨ht, List.mem_singleton.1 hm⟩ hc

theorem resume : C.Cursors s.resume s'.resume := by
  have skip : ∀ {ts ts' : List Token}, List.Forall₂ C.token ts ts' → ∀ {last last' : Token},
      last'.type = last.type → List.Forall₂ C.token (Cursor.skip last ts) (Cursor.skip last' ts') := by
    intro ts ts' hr
    induction hr with
    | nil => exact fun _ => .nil
    | cons ht hr ih =>
        intro last last' hl
        unfold Cursor.skip
        rw [hl, C.type ht]
        split
        · exact .cons ht hr
        · exact ih (C.type ht)
  have hr := h.rest
  unfold Cursor.resume
  generalize hs : s.rest = ts, hs' : s'.rest = ts' at hr
  cases hr with
  | nil => exact h
  | cons ht hr => exact { h with rest := skip hr (C.type ht) }

end Cursors

namespace Results

theorem bind {r r' : Result α} {f f' : α → Cursor → Result β} (h : C.Results V r r')
    (hf : ∀ a a' t t', r = .found a t → V a a' → C.Cursors t t' → C.Results W (f a t) (f' a' t')) :
    C.Results W (r.bind f) (r'.bind f') := by
  cases h with
  | found ha ht => exact hf _ _ _ _ rfl ha ht
  | fault hr ht => exact .fault hr ht

theorem map {r r' : Result α} {f f' : α → β} (h : C.Results V r r') (hf : ∀ a a', V a a' → W (f a) (f' a')) :
    C.Results W (r.map f) (r'.map f') :=
  h.bind fun a a' _ _ _ ha ht => .found (hf a a' ha) ht

theorem higher {r r' : Result α} (h : C.Results V r r') : C.Results V r.higher r'.higher := by
  cases h with
  | found ha ht => exact .found ha ht.higher
  | fault hr ht => exact .fault hr ht.higher

/-- A level of nesting, if one is left. -/
theorem level {r r' : Result α} (hc : C.Cursors s s') (h : C.Results V r r') :
    C.Results V (if s.depth < maxNesting then r.higher else .fault ⟨s.peek, .tooDeep⟩ s)
      (if s'.depth < maxNesting then r'.higher else .fault ⟨s'.peek, .tooDeep⟩ s') := by
  rw [hc.depth]
  split
  · exact h.higher
  · exact .fault ⟨hc.peek, rfl⟩ hc

theorem recovered {r r' : Result Stmt} (h : C.Results C.stmt r r') :
    List.Forall₂ C.stmt (Grammar.recovered r).1.toList (Grammar.recovered r').1.toList ∧
      C.Cursors (Grammar.recovered r).2 (Grammar.recovered r').2 := by
  cases h with
  | found hs ht => exact ⟨.cons hs .nil, ht⟩
  | fault hr ht => exact ⟨.nil, (ht.reported hr).resume⟩

end Results

theorem infixNode {l l' r r' : Expr} {o o' : Token} {k : Nat} (hl : C.expr l l') (ho : C.token o o')
    (ht : o.type ∈ operators k) (hr : C.expr r r') : C.expr (infixNode l o r) (infixNode l' o' r') := by
  unfold Grammar.infixNode
  rw [C.type ho]
  split
  · next h => exact C.logical hl ho h hr
  · next h => exact C.binary hl ho ((operators_cases ht).resolve_left h) hr

theorem forLoop {init init' : Option Stmt} {c c' : Expr} {inc inc' : Option Expr} {body body' : Stmt}
    (hi : Option.Rel C.stmt init init') (hc : C.expr c c') (hinc : Option.Rel C.expr inc inc')
    (hb : C.stmt body body') : C.stmt (forLoop init c inc body) (forLoop init' c' inc' body') := by
  have turn : ∀ {b b' : Stmt}, C.stmt b b' →
      C.stmt (Grammar.forLoop init c none b) (Grammar.forLoop init' c' none b') := by
    intro b b' hb
    cases hi with
    | none => exact C.loop hc hb
    | some hs => exact C.block (.cons hs (.cons (C.loop hc hb) .nil))
  cases hinc with
  | none => exact turn hb
  | some he => exact turn (C.block (.cons hb (.cons (C.expression he) .nil)))

end Correspondence

end Treewalk.Grammar
