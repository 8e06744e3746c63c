import Treewalk.Syntax

/- Agreement of syntax trees: the same shape, with tokens and literals that agree at every node. -/

namespace Treewalk

mutual
def Expr.agrees : Expr → Expr → Bool
  | .assign n v, .assign m w => n.agrees m && v.agrees w
  | .binary l o r, .binary k p q => l.agrees k && o.agrees p && r.agrees q
  | .call c p as, .call d q bs => c.agrees d && p.agrees q && Expr.agreeAll as bs
  | .group e, .group f => e.agrees f
  | .literal v, .literal w => v.agrees w
  | .logical l o r, .logical k p q => l.agrees k && o.agrees p && r.agrees q
  | .unary o r, .unary p q => o.agrees p && r.agrees q
  | .variable n, .variable m => n.agrees m
  | _, _ => false

def Expr.agreeAll : List Expr → List Expr → Bool
  | [], [] => true
  | e :: es, f :: fs => e.agrees f && Expr.agreeAll es fs
  | _, _ => false
end

def Token.agreeAll : List Token → List Token → Bool
  | [], [] => true
  | s :: ss, t :: ts => s.agrees t && Token.agreeAll ss ts
  | _, _ => false

def Expr.optionAgrees : Option Expr → Option Expr → Bool
  | none, none => true
  | some e, some f => e.agrees f
  | _, _ => false

mutual
def Stmt.agrees : Stmt → Stmt → Bool
  | .block b, .block c => Stmt.agreeAll b c
  | .expression e, .expression f => e.agrees f
  | .function n ps b, .function m qs c => n.agrees m && Token.agreeAll ps qs && Stmt.agreeAll b c
  | .ifThen c y, .ifThen d z => c.agrees d && y.agrees z
  | .ifElse c y n, .ifElse d z m => c.agrees d && y.agrees z && n.agrees m
  | .loop c b, .loop d e => c.agrees d && b.agrees e
  | .print k e, .print l f => k.agrees l && e.agrees f
  | .var n i, .var m j => n.agrees m && Expr.optionAgrees i j
  | _, _ => false

def Stmt.agreeAll : List Stmt → List Stmt → Bool
  | [], [] => true
  | s :: ss, t :: ts => s.agrees t && Stmt.agreeAll ss ts
  | _, _ => false
end

def Program.agrees (p q : Program) : Bool := Stmt.agreeAll p q

end Treewalk
