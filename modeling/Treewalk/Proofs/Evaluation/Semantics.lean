import Treewalk.Evaluation

/- The meaning of programs as a relation: a big-step semantics over stacks of scopes, with no fuel, no machine and no
place to return to. -/

namespace Treewalk

/-- What a program can see and change: the scopes in sight, the innermost first and the global one last, the counts of
identities given out and of readings taken, and the output. -/
structure World where
  stack : List Scope
  identities : Nat
  readings : Nat
  output : Sink

namespace Semantics

/-- The nearest scope that binds a name gives it its value. -/
inductive Finds (name : String) : List Scope → Value → Prop
  | here {scope stack v} (h : scope.get? name = some v) : Finds name (scope :: stack) v
  | outside {scope stack v} (hs : scope.get? name = none) (h : Finds name stack v) : Finds name (scope :: stack) v

/-- The nearest scope that binds a name binds it anew. -/
inductive Rebinds (name : String) (v : Value) : List Scope → List Scope → Prop
  | here {scope stack} (h : scope.get? name ≠ none) : Rebinds name v (scope :: stack) (scope.define name v :: stack)
  | outside {scope stack stack'} (hs : scope.get? name = none) (h : Rebinds name v stack stack') :
      Rebinds name v (scope :: stack) (scope :: stack')

/-- The innermost scope binds a name. -/
inductive Binds (name : String) (v : Value) : List Scope → List Scope → Prop
  | here (scope stack) : Binds name v (scope :: stack) (scope.define name v :: stack)

/-- Parameters are bound to arguments, one after another. -/
inductive Enters : List Token → List Value → List Scope → List Scope → Prop
  | nil {stack} : Enters [] [] stack stack
  | cons {p ps v vs stack stack' stack''} (hb : Binds p.lexeme v stack stack') (h : Enters ps vs stack' stack'') :
      Enters (p :: ps) (v :: vs) stack stack''

/-- No scope binds a name. -/
def Unbound (name : String) (stack : List Scope) : Prop := ∀ scope ∈ stack, scope.get? name = none

/-- All values but `nil` and `false` are true. -/
def Truthy (v : Value) : Prop := v ≠ .nil ∧ v ≠ .boolean false

/-- Values that are equal: of functions those of one declaration, run once. -/
inductive Agree : Value → Value → Prop
  | text (s) : Agree (.text s) (.text s)
  | number {x y} (h : x.agrees y) : Agree (.number x) (.number y)
  | boolean (b) : Agree (.boolean b) (.boolean b)
  | nil : Agree .nil .nil
  | native (f) : Agree (.callable (.native f)) (.callable (.native f))
  | function {f g} (h : f.identity = g.identity) : Agree (.callable (.function f)) (.callable (.function g))

/-- What a value is printed as. -/
inductive Shows : Value → String → Prop
  | text (s) : Shows (.text s) s
  | number (x) : Shows (.number x) x.text
  | yes : Shows (.boolean true) "true"
  | no : Shows (.boolean false) "false"
  | nil : Shows .nil "nil"
  | clock : Shows (.callable (.native .clock)) "<native fn clock>"
  | function (f) : Shows (.callable (.function f)) ("<fn " ++ f.name.lexeme ++ ">")

def BothNumbers (v w : Value) : Prop := ∃ x y, v = .number x ∧ w = .number y

def BothTexts (v w : Value) : Prop := ∃ s t, v = .text s ∧ w = .text t

/-- What an infix operator makes of its operands. -/
inductive Binary (op : Token) : Value → Value → Except RuntimeError Value → Prop
  | addNumbers {x y} (ho : op.type = .plus) : Binary op (.number x) (.number y) (.ok (.number (x.add y)))
  | addTexts {s t} (ho : op.type = .plus) : Binary op (.text s) (.text t) (.ok (.text (s ++ t)))
  | notAlike {v w} (ho : op.type = .plus) (hn : ¬BothNumbers v w) (ht : ¬BothTexts v w) :
      Binary op v w (.error ⟨op, .operandsNotAlike⟩)
  | subtract {x y} (ho : op.type = .minus) : Binary op (.number x) (.number y) (.ok (.number (x.sub y)))
  | multiply {x y} (ho : op.type = .star) : Binary op (.number x) (.number y) (.ok (.number (x.mul y)))
  | divide {x y} (ho : op.type = .slash) (hy : y.magnitude ≠ 0) :
      Binary op (.number x) (.number y) (.ok (.number (x.div y)))
  | divideByZero {x y} (ho : op.type = .slash) (hy : y.magnitude = 0) :
      Binary op (.number x) (.number y) (.error ⟨op, .divisionByZero⟩)
  | greater {x y} (ho : op.type = .greater) : Binary op (.number x) (.number y) (.ok (.boolean (y.less x)))
  | greaterEqual {x y} (ho : op.type = .greaterEqual) :
      Binary op (.number x) (.number y) (.ok (.boolean (y.lessEq x)))
  | less {x y} (ho : op.type = .less) : Binary op (.number x) (.number y) (.ok (.boolean (x.less y)))
  | lessEqual {x y} (ho : op.type = .lessEqual) : Binary op (.number x) (.number y) (.ok (.boolean (x.lessEq y)))
  | notNumbers {v w} (ho : op.type ∈ [.minus, .star, .slash, .greater, .greaterEqual, .less, .lessEqual])
      (hn : ¬BothNumbers v w) : Binary op v w (.error ⟨op, .operandNotNumber⟩)
  | equal {v w} {b : Bool} (ho : op.type = .equalEqual) (hb : b ↔ Agree v w) : Binary op v w (.ok (.boolean b))
  | notEqual {v w} {b : Bool} (ho : op.type = .bangEqual) (hb : b ↔ ¬Agree v w) : Binary op v w (.ok (.boolean b))
  | other {v w} (ho : op.type ∉ [.plus, .minus, .star, .slash, .greater, .greaterEqual, .less, .lessEqual,
      .equalEqual, .bangEqual]) : Binary op v w (.error ⟨op, .binaryOperator⟩)

/-- What a prefix operator makes of its operand. -/
inductive Unary (op : Token) : Value → Except RuntimeError Value → Prop
  | negate {x} (ho : op.type = .minus) : Unary op (.number x) (.ok (.number x.neg))
  | notNumber {v} (ho : op.type = .minus) (hn : ∀ x, v ≠ .number x) : Unary op v (.error ⟨op, .operandNotNumber⟩)
  | not {v} {b : Bool} (ho : op.type = .bang) (hb : b ↔ ¬Truthy v) : Unary op v (.ok (.boolean b))
  | other {v} (hm : op.type ≠ .minus) (hb : op.type ≠ .bang) : Unary op v (.error ⟨op, .unaryOperator⟩)

/-- A left operand decides `or` if it is true, and `and` if it is not. -/
def Decides (op : Token) (v : Value) : Prop := op.type = .orWord ↔ Truthy v

/-- What can be run: expressions, lists of arguments, calls, statements, and the turns of a loop. -/
inductive Task : Type → Type
  | expr (e : Expr) : Task Value
  | args (es : List Expr) : Task (List Value)
  | call (callee : Value) (paren : Token) (args : List Value) : Task Value
  | stmt (s : Stmt) : Task Unit
  | stmts (ss : List Stmt) : Task Unit
  | turns (condition : Expr) (body : Stmt) : Task Unit

/-- Runs, where `d` statements and expressions are under evaluation and the clock shows `clock`. Of several steps the
first error is the error of the whole. -/
inductive Runs (clock : Nat → Number) : {α : Type} → Nat → Task α → World → Except RuntimeError α → World → Prop
  | literal {d value w} : Runs clock d (.expr (.literal value)) w (.ok (.ofLiteral value)) w
  | group {d e w r w'} (h : Runs clock (d + 1) (.expr e) w r w') : Runs clock d (.expr (.group e)) w r w'
  | variable {d name w v} (h : Finds name.lexeme w.stack v) : Runs clock d (.expr (.variable name)) w (.ok v) w
  | variableUnbound {d name w} (h : Unbound name.lexeme w.stack) :
      Runs clock d (.expr (.variable name)) w (.error ⟨name, .undefinedVariable name.lexeme⟩) w
  | assign {d name e w v w' stack} (he : Runs clock (d + 1) (.expr e) w (.ok v) w')
      (h : Rebinds name.lexeme v w'.stack stack) :
      Runs clock d (.expr (.assign name e)) w (.ok v) { w' with stack }
  | assignUnbound {d name e w v w'} (he : Runs clock (d + 1) (.expr e) w (.ok v) w')
      (h : Unbound name.lexeme w'.stack) :
      Runs clock d (.expr (.assign name e)) w (.error ⟨name, .undefinedVariable name.lexeme⟩) w'
  | assignFails {d name e w x w'} (he : Runs clock (d + 1) (.expr e) w (.error x) w') :
      Runs clock d (.expr (.assign name e)) w (.error x) w'
  | binary {d left op right w v w₁ v' w₂ r} (hl : Runs clock (d + 1) (.expr left) w (.ok v) w₁)
      (hr : Runs clock (d + 1) (.expr right) w₁ (.ok v') w₂) (h : Binary op v v' r) :
      Runs clock d (.expr (.binary left op right)) w r w₂
  | binaryRightFails {d left op right w v w₁ x w₂} (hl : Runs clock (d + 1) (.expr left) w (.ok v) w₁)
      (hr : Runs clock (d + 1) (.expr right) w₁ (.error x) w₂) :
      Runs clock d (.expr (.binary left op right)) w (.error x) w₂
  | binaryLeftFails {d left op right w x w'} (hl : Runs clock (d + 1) (.expr left) w (.error x) w') :
      Runs clock d (.expr (.binary left op right)) w (.error x) w'
  | unary {d op e w v w' r} (he : Runs clock (d + 1) (.expr e) w (.ok v) w') (h : Unary op v r) :
      Runs clock d (.expr (.unary op e)) w r w'
  | unaryFails {d op e w x w'} (he : Runs clock (d + 1) (.expr e) w (.error x) w') :
      Runs clock d (.expr (.unary op e)) w (.error x) w'
  | logicalLeft {d left op right w v w'} (hl : Runs clock (d + 1) (.expr left) w (.ok v) w') (h : Decides op v) :
      Runs clock d (.expr (.logical left op right)) w (.ok v) w'
  | logicalRight {d left op right w v w₁ r w₂} (hl : Runs clock (d + 1) (.expr left) w (.ok v) w₁)
      (h : ¬Decides op v) (hr : Runs clock (d + 1) (.expr right) w₁ r w₂) :
      Runs clock d (.expr (.logical left op right)) w r w₂
  | logicalFails {d left op right w x w'} (hl : Runs clock (d + 1) (.expr left) w (.error x) w') :
      Runs clock d (.expr (.logical left op right)) w (.error x) w'
  | call {d callee paren es w f w₁ vs w₂ r w₃} (hc : Runs clock (d + 1) (.expr callee) w (.ok f) w₁)
      (ha : Runs clock (d + 1) (.args es) w₁ (.ok vs) w₂) (h : Runs clock (d + 1) (.call f paren vs) w₂ r w₃) :
      Runs clock d (.expr (.call callee paren es)) w r w₃
  | callArgsFail {d callee paren es w f w₁ x w₂} (hc : Runs clock (d + 1) (.expr callee) w (.ok f) w₁)
      (ha : Runs clock (d + 1) (.args es) w₁ (.error x) w₂) :
      Runs clock d (.expr (.call callee paren es)) w (.error x) w₂
  | callCalleeFails {d callee paren es w x w'} (hc : Runs clock (d + 1) (.expr callee) w (.error x) w') :
      Runs clock d (.expr (.call callee paren es)) w (.error x) w'
  | argsNil {d w} : Runs clock d (.args []) w (.ok []) w
  | argsCons {d e es w v w₁ r w₂} (he : Runs clock d (.expr e) w (.ok v) w₁) (hs : Runs clock d (.args es) w₁ r w₂) :
      Runs clock d (.args (e :: es)) w (r.map (v :: ·)) w₂
  | argsFail {d e es w x w'} (he : Runs clock d (.expr e) w (.error x) w') :
      Runs clock d (.args (e :: es)) w (.error x) w'
  | notCallable {d f paren vs w} (hf : ∀ c, f ≠ .callable c) :
      Runs clock d (.call f paren vs) w (.error ⟨paren, .notCallable⟩) w
  | wrongArity {d c paren vs w} (ha : c.arity ≠ vs.length) :
      Runs clock d (.call (.callable c) paren vs) w (.error ⟨paren, .arity c.arity vs.length⟩) w
  | tooDeep {d c paren vs w} (ha : c.arity = vs.length) (hd : maxDepth ≤ d) :
      Runs clock d (.call (.callable c) paren vs) w (.error ⟨paren, .stackOverflow⟩) w
  | clock {d paren w} (hd : d < maxDepth) :
      Runs clock d (.call (.callable (.native .clock)) paren []) w (.ok (.number (clock w.readings)))
        { w with readings := w.readings + 1 }
  | function {d f paren vs w outer globals stack r w' scope globals'} (ha : f.params.length = vs.length)
      (hd : d < maxDepth) (hs : w.stack = outer ++ [globals]) (he : Enters f.params vs [{}, globals] stack)
      (h : Runs clock d (.stmts f.body) { w with stack } r w') (hs' : w'.stack = [scope, globals']) :
      Runs clock d (.call (.callable (.function f)) paren vs) w (r.map fun _ => .nil)
        { w' with stack := outer ++ [globals'] }
  | block {d body w r w' scope stack} (h : Runs clock (d + 1) (.stmts body) { w with stack := {} :: w.stack } r w')
      (hs : w'.stack = scope :: stack) : Runs clock d (.stmt (.block body)) w r { w' with stack }
  | expression {d e w r w'} (h : Runs clock (d + 1) (.expr e) w r w') :
      Runs clock d (.stmt (.expression e)) w (r.map fun _ => ()) w'
  | declare {d name params body w stack}
      (h : Binds name.lexeme (.callable (.function ⟨w.identities, name, params, body⟩)) w.stack stack) :
      Runs clock d (.stmt (.function name params body)) w (.ok ())
        { w with stack, identities := w.identities + 1 }
  | ifThenYes {d c yes w v w₁ r w₂} (hc : Runs clock (d + 1) (.expr c) w (.ok v) w₁) (hv : Truthy v)
      (h : Runs clock (d + 1) (.stmt yes) w₁ r w₂) : Runs clock d (.stmt (.ifThen c yes)) w r w₂
  | ifThenNo {d c yes w v w'} (hc : Runs clock (d + 1) (.expr c) w (.ok v) w') (hv : ¬Truthy v) :
      Runs clock d (.stmt (.ifThen c yes)) w (.ok ()) w'
  | ifThenFails {d c yes w x w'} (hc : Runs clock (d + 1) (.expr c) w (.error x) w') :
      Runs clock d (.stmt (.ifThen c yes)) w (.error x) w'
  | ifElseYes {d c yes no w v w₁ r w₂} (hc : Runs clock (d + 1) (.expr c) w (.ok v) w₁) (hv : Truthy v)
      (h : Runs clock (d + 1) (.stmt yes) w₁ r w₂) : Runs clock d (.stmt (.ifElse c yes no)) w r w₂
  | ifElseNo {d c yes no w v w₁ r w₂} (hc : Runs clock (d + 1) (.expr c) w (.ok v) w₁) (hv : ¬Truthy v)
      (h : Runs clock (d + 1) (.stmt no) w₁ r w₂) : Runs clock d (.stmt (.ifElse c yes no)) w r w₂
  | ifElseFails {d c yes no w x w'} (hc : Runs clock (d + 1) (.expr c) w (.error x) w') :
      Runs clock d (.stmt (.ifElse c yes no)) w (.error x) w'
  | loop {d c body w r w'} (h : Runs clock (d + 1) (.turns c body) w r w') :
      Runs clock d (.stmt (.loop c body)) w r w'
  | print {d keyword e w v w' text output} (he : Runs clock (d + 1) (.expr e) w (.ok v) w') (ht : Shows v text)
      (h : w'.output.write (text ++ "\n") = (output, true)) :
      Runs clock d (.stmt (.print keyword e)) w (.ok ()) { w' with output }
  | printClosed {d keyword e w v w' text output} (he : Runs clock (d + 1) (.expr e) w (.ok v) w') (ht : Shows v text)
      (h : w'.output.write (text ++ "\n") = (output, false)) :
      Runs clock d (.stmt (.print keyword e)) w (.error ⟨keyword, .outputClosed⟩) { w' with output }
  | printFails {d keyword e w x w'} (he : Runs clock (d + 1) (.expr e) w (.error x) w') :
      Runs clock d (.stmt (.print keyword e)) w (.error x) w'
  | varBare {d name w stack} (h : Binds name.lexeme .nil w.stack stack) :
      Runs clock d (.stmt (.var name none)) w (.ok ()) { w with stack }
  | var {d name e w v w' stack} (he : Runs clock (d + 1) (.expr e) w (.ok v) w')
      (h : Binds name.lexeme v w'.stack stack) :
      Runs clock d (.stmt (.var name (some e))) w (.ok ()) { w' with stack }
  | varFails {d name e w x w'} (he : Runs clock (d + 1) (.expr e) w (.error x) w') :
      Runs clock d (.stmt (.var name (some e))) w (.error x) w'
  | stmtsNil {d w} : Runs clock d (.stmts []) w (.ok ()) w
  | stmtsCons {d s ss w w₁ r w₂} (hs : Runs clock d (.stmt s) w (.ok ()) w₁) (h : Runs clock d (.stmts ss) w₁ r w₂) :
      Runs clock d (.stmts (s :: ss)) w r w₂
  | stmtsFail {d s ss w x w'} (hs : Runs clock d (.stmt s) w (.error x) w') :
      Runs clock d (.stmts (s :: ss)) w (.error x) w'
  | turnsEnd {d c body w v w'} (hc : Runs clock d (.expr c) w (.ok v) w') (hv : ¬Truthy v) :
      Runs clock d (.turns c body) w (.ok ()) w'
  | turnsMore {d c body w v w₁ w₂ r w₃} (hc : Runs clock d (.expr c) w (.ok v) w₁) (hv : Truthy v)
      (hb : Runs clock d (.stmt body) w₁ (.ok ()) w₂) (h : Runs clock d (.turns c body) w₂ r w₃) :
      Runs clock d (.turns c body) w r w₃
  | turnsBodyFails {d c body w v w₁ x w₂} (hc : Runs clock d (.expr c) w (.ok v) w₁) (hv : Truthy v)
      (hb : Runs clock d (.stmt body) w₁ (.error x) w₂) : Runs clock d (.turns c body) w (.error x) w₂
  | turnsFail {d c body w x w'} (hc : Runs clock d (.expr c) w (.error x) w') :
      Runs clock d (.turns c body) w (.error x) w'

end Semantics

end Treewalk
