import Treewalk.Proofs.Grammar.Renumbering
import Treewalk.Proofs.Session.Loading

/- Joined programs: two sources with a line feed between them make one program, which does what the two do one after
the other. The lines of the second are further down, and with them the lines in the functions that it declares and
in the errors that its code raises. -/

namespace Treewalk

open Semantics

/-- The tokens a value holds, those of a function. -/
def Value.tokens : Value → List Token
  | .callable (.function f) => f.name :: (f.params ++ Stmt.tokensAll f.body)
  | _ => []

def Scope.tokens (s : Scope) : List Token := s.bindings.flatMap fun b => b.2.tokens

def Machine.tokens (m : Machine) : List Token := m.scopes.locals.flatMap Scope.tokens ++ m.scopes.globals.tokens

section
variable (f : Token → Token)

/-- The value with every token replaced. -/
def Value.map : Value → Value
  | .callable (.function g) => .callable (.function ⟨g.identity, f g.name, g.params.map f, Stmt.mapAll f g.body⟩)
  | v => v

def Scope.map (s : Scope) : Scope := ⟨s.bindings.map fun b => (b.1, b.2.map f)⟩

/-- The machine with every token it holds replaced. -/
def Machine.map (m : Machine) : Machine :=
  { m with scopes := ⟨m.scopes.locals.map (Scope.map f), m.scopes.globals.map f⟩ }

end

theorem Value.map_id (v : Value) : v.map id = v := by
  unfold map
  split
  · rw [List.map_id, Stmt.mapAll_id]
    rfl
  · rfl

theorem Scope.map_id (s : Scope) : s.map id = s := by
  unfold map
  simp only [Value.map_id, List.map_id']

theorem Machine.map_id (m : Machine) : m.map id = m := by
  have hs : Scope.map id = id := funext Scope.map_id
  unfold map
  rw [hs, List.map_id]
  rfl

/-- Whether a tree was held by a machine from the start or comes from the source added to it. -/
inductive Place
  | held
  | added

namespace Token

/-- The same token with a mark of its place, which shares a number with its line. -/
def mark : Place → Token → Token
  | .held, t => { t with line := 2 * t.line }
  | .added, t => { t with line := 2 * t.line + 1 }

@[simp] theorem mark_type (p : Place) (t : Token) : (t.mark p).type = t.type := by
  cases p <;> rfl

@[simp] theorem mark_lexeme (p : Place) (t : Token) : (t.mark p).lexeme = t.lexeme := by
  cases p <;> rfl

end Token

/-- Marked tokens stand for those that were marked: those of what a machine holds for themselves, and those of the
source added for the ones `k` lines further down. -/
def Likeness.seam (m : Machine) (k : Nat) (tokens : List Token) : Likeness where
  Origin := Place
  Rel
    | .held, t, u => u ∈ m.tokens ∧ t = u.mark .held
    | .added, t, u => ∃ v ∈ tokens, t = v.mark .added ∧ u = v.shift k
  type_eq {o t u} h := by
    cases o with
    | held => rw [h.2, Token.mark_type]
    | added =>
        obtain ⟨v, -, rfl, rfl⟩ := h
        rw [Token.mark_type, Token.shift_type]
  lexeme_eq {o t u} h := by
    cases o with
    | held => rw [h.2, Token.mark_lexeme]
    | added =>
        obtain ⟨v, -, rfl, rfl⟩ := h
        rw [Token.mark_lexeme, Token.shift_lexeme]

section
variable {L : Likeness} {o : L.Origin} {f g : Token → Token}

theorem Value.like_map {v : Value} (h : ∀ t ∈ v.tokens, L.Rel o (f t) (g t)) : (v.map f).Like L (v.map g) := by
  cases v with
  | callable c =>
      cases c with
      | native c => exact .plain fun _ h => nomatch h
      | function f =>
          obtain ⟨hn, h⟩ := List.forall_mem_cons.1 h
          obtain ⟨hp, hb⟩ := List.forall_mem_append.1 h
          exact .function o hn (forall₂_map f.params hp) (Stmt.alike_mapAll f.body hb)
  | text s => exact .text s
  | number x => exact .number x
  | boolean b => exact .boolean b
  | nil => exact .nil

theorem Scope.like_map {s : Scope} (h : ∀ t ∈ s.tokens, L.Rel o (f t) (g t)) : (s.map f).Like L (s.map g) := by
  refine List.forall₂_map_left_iff.2 (List.forall₂_map_right_iff.2 (List.forall₂_same.2 fun b hb => ⟨rfl, ?_⟩))
  exact Value.like_map fun t ht => h t (List.mem_flatMap.2 ⟨b, hb, ht⟩)

/-- Machines are alike where the tokens of one machine are replaced by related ones. -/
theorem Machine.like_map {m : Machine} (h : ∀ t ∈ m.tokens, L.Rel o (f t) (g t)) : (m.map f).Like L (m.map g) := by
  obtain ⟨hl, hg⟩ := List.forall_mem_append.1 h
  refine ⟨⟨?_, Scope.like_map hg⟩, rfl, rfl, rfl, rfl, rfl⟩
  refine List.forall₂_map_left_iff.2 (List.forall₂_map_right_iff.2 (List.forall₂_same.2 fun s hs => ?_))
  exact Scope.like_map fun t ht => hl t (List.mem_flatMap.2 ⟨s, hs, ht⟩)

theorem Machine.like_self {m : Machine} (h : ∀ t ∈ m.tokens, L.Rel o t t) : m.Like L m := by
  have hm := Machine.like_map (f := id) (g := id) h
  rwa [Machine.map_id] at hm

/-- What a machine holds stays as it is, once its marks are off. -/
theorem Machine.like_seam (m : Machine) (k : Nat) (tokens : List Token) :
    (m.map (Token.mark .held)).Like (.seam m k tokens) m := by
  have hm := Machine.like_map (L := .seam m k tokens) (o := Place.held) (f := Token.mark .held) (g := id)
    fun t ht => ⟨ht, rfl⟩
  rwa [Machine.map_id] at hm

end

namespace Session

/-- Ends of two runs from one session: both without an error, or both with errors that are alike, each told with its
own line; and on machines that are alike. -/
inductive Like (L : Likeness) (s : Session) : Session → Session → Prop
  | done {m m' : Machine} (hm : m.Like L m') : Like L s { s with machine := m } { s with machine := m' }
  | failed {e e' : RuntimeError} {m m' : Machine} (he : e.Like L e') (hm : m.Like L m') :
      Like L s ({ s with machine := m }.report (.runtime e.token.line e.cause.message))
        ({ s with machine := m' }.report (.runtime e'.token.line e'.cause.message))

/-- Ends of runs from the session `s` of a source and of the same source `k` lines further down. Both are the end of
one run, with marks on the tokens of what the machine holds and other marks on those of the source: a marked token
tells where it came from, and so which line it has at either end. -/
def Seam (s : Session) (source : String) (k : Nat) (s₁ s₂ : Session) : Prop :=
  ∃ fuel marked, interpret fuel (Stmt.mapAll (Token.mark .added) (Program.ofSource source))
      { s with machine := s.machine.map (Token.mark .held) } = some marked ∧
    Like (.seam s.machine 0 (Scan.tokens (Scan.ofSource source))) s marked s₁ ∧
    Like (.seam s.machine k (Scan.tokens (Scan.ofSource source))) s marked s₂

variable {s : Session}

/-- What was on the machine of a session before does not matter for where a run ends. -/
theorem Like.concluded {L : Likeness} {r r' : Except RuntimeError Unit} {m m' n : Machine}
    (h : Outcome.Like L Eq (.of r m) (.of r' m')) :
    Like L { s with machine := n } (concluded { s with machine := n } r m) (s.concluded r' m') := by
  cases r with
  | ok a =>
      cases r' with
      | ok a' =>
          cases h with
          | done _ hm => exact .done hm
      | error e' => cases h
  | error e =>
      cases r' with
      | ok a' => cases h
      | error e' =>
          cases h with
          | failed he hm => exact .failed he hm

/-- Ends alike to one end of a run with marks. -/
theorem Seam.of_ends {source : String} {k : Nat} {r r₁ r₂ : Except RuntimeError Unit} {m m₁ m₂ : Machine}
    (h : Ends (.stmts (Stmt.mapAll (Token.mark .added) (Program.ofSource source)))
      (s.machine.map (Token.mark .held)) r m)
    (h₁ : Outcome.Like (.seam s.machine 0 (Scan.tokens (Scan.ofSource source))) Eq (.of r m) (.of r₁ m₁))
    (h₂ : Outcome.Like (.seam s.machine k (Scan.tokens (Scan.ofSource source))) Eq (.of r m) (.of r₂ m₂)) :
    Seam s source k (s.concluded r₁ m₁) (s.concluded r₂ m₂) := by
  obtain ⟨fuel, hr⟩ := ends_iff.1 h
  exact ⟨fuel, _, interpret_eq_some_iff.2 ⟨r, m, hr, rfl⟩, .concluded h₁, .concluded h₂⟩

theorem hadRuntimeError_concluded_error (s : Session) (e : RuntimeError) (m : Machine) :
    (s.concluded (.error e) m).hadRuntimeError = true := rfl

end Session

/-- Two accepted sources are joined to an accepted one, with the statements of the one before those of the other. -/
theorem Accepted.join {source source' : String} (h : Accepted source) (h' : Accepted source') :
    Accepted (source ++ "\n" ++ source') ∧
      Program.ofSource (source ++ "\n" ++ source') =
        Program.ofSource source ++
          Stmt.mapAll (Token.shift (source.toList.count '\n' + 1)) (Program.ofSource source') := by
  refine accepted_of_derives (Scan.errors_join h.errors h'.errors) ?_
  rw [Scan.pieceTokens_join h.errors]
  exact h.derives.append (h'.derives.map (Token.shift_type _) (Token.shift_literal _))

/-- The statements of the second source, further down, run like those statements with marks. -/
theorem Accepted.like_added {source' : String} (h' : Accepted source') (m : Machine) (k : Nat) :
    Task.Like (.seam m k (Scan.tokens (Scan.ofSource source')))
      (.stmts (Stmt.mapAll (Token.mark .added) (Program.ofSource source')))
      (.stmts (Stmt.mapAll (Token.shift k) (Program.ofSource source'))) := by
  refine .stmts Place.added (Stmt.alike_mapAll _ fun t ht => ⟨t, ?_, rfl, rfl⟩)
  rw [Scan.tokens_ofSource]
  exact List.mem_append_left _ (h'.derives.tokens t ht)

namespace Session

variable {source source' : String} {s s' : Session} {m₁ : Machine}

/-- Where the first of two sources ends without an error, their join goes on with the second, further down. -/
theorem runsTo_join_of_ok (h : Accepted source) (h' : Accepted source') (hs : s.hadError = false)
    (he : Ends (.stmts (Program.ofSource source)) s.machine (.ok ()) m₁) :
    s.RunsTo (source ++ "\n" ++ source') s' ↔
      ∃ r m', Ends (.stmts (Stmt.mapAll (Token.shift (source.toList.count '\n' + 1)) (Program.ofSource source')))
        m₁ r m' ∧ s' = s.concluded r m' := by
  obtain ⟨hj, hp⟩ := h.join h'
  rw [runsTo_iff hj hs, hp]
  simp only [ends_append_iff]
  constructor
  · rintro ⟨r, m', ⟨n₁, hn, he'⟩ | ⟨e, -, hn⟩, rfl⟩
    · obtain ⟨-, rfl⟩ := hn.unique he
      exact ⟨r, m', he', rfl⟩
    · obtain ⟨hr, -⟩ := hn.unique he
      cases hr
  · rintro ⟨r, m', he', rfl⟩
    exact ⟨r, m', .inl ⟨m₁, he, he'⟩, rfl⟩

/-- Where the first of two sources fails, so does their join. -/
theorem runsTo_join_of_error (h : Accepted source) (h' : Accepted source') (hs : s.hadError = false) {e : RuntimeError}
    (he : Ends (.stmts (Program.ofSource source)) s.machine (.error e) m₁) :
    s.RunsTo (source ++ "\n" ++ source') s' ↔ s' = s.concluded (.error e) m₁ := by
  obtain ⟨hj, hp⟩ := h.join h'
  rw [runsTo_iff hj hs, hp]
  simp only [ends_append_iff]
  constructor
  · rintro ⟨r, m', ⟨n₁, hn, -⟩ | ⟨e', rfl, hn⟩, rfl⟩
    · obtain ⟨hr, -⟩ := hn.unique he
      cases hr
    · obtain ⟨hr, rfl⟩ := hn.unique he
      rw [hr]
  · rintro rfl
    exact ⟨_, _, .inr ⟨e, rfl, he⟩, rfl⟩

/-- The join of two sources ends only where the first of them does. -/
theorem exists_runsTo_of_join (h : Accepted source) (h' : Accepted source') (hs : s.hadError = false)
    (hr : s.RunsTo (source ++ "\n" ++ source') s') : ∃ s₁, s.RunsTo source s₁ := by
  obtain ⟨hj, hp⟩ := h.join h'
  rw [runsTo_iff hj hs, hp] at hr
  obtain ⟨r, m', he, -⟩ := hr
  rcases ends_append_iff.1 he with ⟨m₁, he₁, -⟩ | ⟨e, -, he₁⟩
  · exact ⟨_, (runsTo_iff h hs).2 ⟨_, _, he₁, rfl⟩⟩
  · exact ⟨_, (runsTo_iff h hs).2 ⟨_, _, he₁, rfl⟩⟩

section
variable (h' : Accepted source') (k : Nat)
include h'

/-- Unmarked, the statements of the second source are what they are. -/
theorem like_added_zero (m : Machine) :
    Task.Like (.seam m 0 (Scan.tokens (Scan.ofSource source')))
      (.stmts (Stmt.mapAll (Token.mark .added) (Program.ofSource source'))) (.stmts (Program.ofSource source')) := by
  have hl := h'.like_added m 0
  have hzero : Stmt.mapAll (Token.shift 0) (Program.ofSource source') = Program.ofSource source' := Stmt.mapAll_id _
  rwa [hzero] at hl

/-- A source ends as it does further down: both runs are compared with the one whose tokens are marked. -/
theorem exists_seam {r : Except RuntimeError Unit} {m : Machine}
    (he : Ends (.stmts (Program.ofSource source')) s.machine r m) :
    ∃ r' m', Ends (.stmts (Stmt.mapAll (Token.shift k) (Program.ofSource source'))) s.machine r' m' ∧
      Seam s source' k (s.concluded r m) (s.concluded r' m') := by
  obtain ⟨q, n, hn, hl⟩ := (like_added_zero h' s.machine).ends_of (s.machine.like_seam 0 _) he
  obtain ⟨r', m', he', hl'⟩ := (h'.like_added s.machine k).ends (s.machine.like_seam k _) hn
  exact ⟨r', m', he', .of_ends hn hl hl'⟩

theorem exists_seam_of_shift {r' : Except RuntimeError Unit} {m' : Machine}
    (he : Ends (.stmts (Stmt.mapAll (Token.shift k) (Program.ofSource source'))) s.machine r' m') :
    ∃ r m, Ends (.stmts (Program.ofSource source')) s.machine r m ∧
      Seam s source' k (s.concluded r m) (s.concluded r' m') := by
  obtain ⟨q, n, hn, hl'⟩ := (h'.like_added s.machine k).ends_of (s.machine.like_seam k _) he
  obtain ⟨r, m, he', hl⟩ := (like_added_zero h' s.machine).ends (s.machine.like_seam 0 _) hn
  exact ⟨r, m, he', .of_ends hn hl hl'⟩

end

end Session

theorem pieces_nil : pieces "nil;".toList = [⟨.token .nilWord, ['n', 'i', 'l']⟩, ⟨.token .semicolon, [';']⟩] := by
  have hs : "nil;".toList = ['n', 'i', 'l', ';'] := by rfl
  have hc : Piece.cut 'n' ['i', 'l', ';'] = ⟨⟨.token .nilWord, ['n', 'i', 'l']⟩, [';'], 0⟩ := by decide
  rw [hs, pieces, hc]
  simp [pieces, Piece.cut, Piece.single?]

theorem accepted_nil : Accepted "nil;" ∧ Program.ofSource "nil;" = [.expression (.literal .nil)] := by
  have he : Scan.errors (Scan.ofSource "nil;") = [] := by
    rw [Scan.ofSource_eq_items, pieces_nil]
    decide
  refine accepted_of_derives he ?_
  rw [pieces_nil]
  exact derivesProgram_nil

namespace Session

/-- Joined sources do what the sources do one after the other: without errors of their own, up to the first runtime
error, with the same output and the same bindings, and with an error of the same message. Lines are the same where
the code was held before the second source was added, and further down in what it adds. -/
theorem run_join {source source' : String} (h : Accepted source) (h' : Accepted source') (s : Session)
    (hs : s.hadError = false) (hr : s.hadRuntimeError = false) :
    let joined := source ++ "\n" ++ source'
    let k := source.toList.count '\n' + 1
    Accepted joined ∧ (s.load joined).2.2 = s ∧
      (s.load joined).1 = (s.load source).1 ++ Stmt.mapAll (Token.shift k) (s.load source').1 ∧
      (∀ s', s.RunsTo joined s' → ∃ s₁, s.RunsTo source s₁) ∧
      ∀ s₁, s.RunsTo source s₁ →
        (s₁.hadRuntimeError = true → ∀ s', s.RunsTo joined s' ↔ s' = s₁) ∧
        (s₁.hadRuntimeError = false →
          (∀ s₂, s₁.RunsTo source' s₂ → ∃ s', s.RunsTo joined s' ∧ Seam s₁ source' k s₂ s') ∧
          ∀ s', s.RunsTo joined s' → ∃ s₂, s₁.RunsTo source' s₂ ∧ Seam s₁ source' k s₂ s') := by
  intro joined k
  obtain ⟨hj, hp⟩ := h.join h'
  refine ⟨hj, by rw [hj.load], by rw [hj.load, h.load, h'.load, hp], fun s' => exists_runsTo_of_join h h' hs,
    fun s₁ hs₁ => ?_⟩
  obtain ⟨r, m₁, he, rfl⟩ := (runsTo_iff h hs).1 hs₁
  cases r with
  | error e =>
      refine ⟨fun _ s' => runsTo_join_of_error h h' hs he, fun hf => ?_⟩
      cases (hadRuntimeError_concluded_error s e m₁).symm.trans hf
  | ok a =>
      have hn : (s.concluded (.ok a) m₁).hadError = false := hs
      refine ⟨fun ht => absurd (ht.symm.trans hr) (by decide), fun _ => ⟨fun s₂ hs₂ => ?_, fun s' hs' => ?_⟩⟩
      · obtain ⟨r, m₂, he₂, rfl⟩ := (runsTo_iff h' hn).1 hs₂
        obtain ⟨r', m', he', hseam⟩ := exists_seam h' k he₂
        exact ⟨_, (runsTo_join_of_ok h h' hs he).2 ⟨r', m', he', rfl⟩, hseam⟩
      · obtain ⟨r', m', he', rfl⟩ := (runsTo_join_of_ok h h' hs he).1 hs'
        obtain ⟨r, m₂, he₂, hseam⟩ := exists_seam_of_shift (s := s.concluded (.ok a) m₁) h' k he'
        exact ⟨_, (runsTo_iff h' hn).2 ⟨r, m₂, he₂, rfl⟩, hseam⟩

theorem run_join_nil :
    ∃ s : Session, s.hadError = false ∧ s.hadRuntimeError = false ∧ Accepted "nil;" ∧
      (s.load ("nil;" ++ "\n" ++ "nil;")).1 = [.expression (.literal .nil), .expression (.literal .nil)] ∧
      ∃ s', s.RunsTo ("nil;" ++ "\n" ++ "nil;") s' := by
  obtain ⟨ha, hp⟩ := accepted_nil
  let s : Session := { machine := .start (fun _ => .ofNat 0) {}, errors := none }
  obtain ⟨-, -, hl, -, hr⟩ := run_join ha ha s rfl rfl
  have hs : s.RunsTo "nil;" s := by
    refine (runsTo_iff ha rfl).2 ⟨.ok (), s.machine, ends_iff.2 ⟨3, ?_⟩, rfl⟩
    rw [hp]
    rfl
  obtain ⟨s', hs', -⟩ := ((hr s hs).2 rfl).1 s hs
  refine ⟨s, rfl, rfl, ha, ?_, s', hs'⟩
  rw [hl, ha.load, hp]
  rfl

end Session

end Treewalk
