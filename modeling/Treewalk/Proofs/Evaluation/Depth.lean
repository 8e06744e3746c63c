import Treewalk.Proofs.Evaluation.Visits
import Treewalk.Proofs.Syntax.Height

/- Depth: how many statements and expressions are under evaluation at once. Below one call it is what the text is high;
a call starts only below the limit. -/

namespace Treewalk

/-- Statements no higher than `n`, and functions of such statements. -/
def Fragment.lower (n : Nat) : Fragment where
  text s := s.height ≤ n
  held _ f := ∀ s ∈ f.body, s.height ≤ n
  part h hs := Nat.le_trans (Stmt.height_part hs) h
  declared _ h := fun _ hs => Nat.le_trans (Stmt.height_part (s := .function _ _ _) hs) h
  body h := h
  later _ h := h

namespace Semantics

/-- The most that is under evaluation while a task runs, calls left out. -/
def Task.height : {α : Type} → Task α → Nat
  | _, .expr e => e.height
  | _, .args es => Expr.heightAll es
  | _, .call _ _ _ => 0
  | _, .stmt s => s.height
  | _, .stmts ss => Stmt.heightAll ss
  | _, .turns condition body => max condition.height body.height

variable {α β : Type} {n : Nat} {m m' : Machine}

theorem Task.count_le_height (t : Task α) : t.count ≤ t.height := by
  cases t with
  | expr e => exact e.height_pos
  | stmt s => exact s.height_pos
  | args | call | stmts | turns => exact Nat.zero_le _

/-- What a task starts reaches no deeper than the task, but for the body of a function. -/
theorem Starts.depth_le {t : Task α} {t' : Task β} (h : Starts t m t' m')
    (ht : t.Within (.lower n) m.identities) (hd : m.depth + t.height ≤ maxDepth + n) :
    m'.depth + t'.height ≤ maxDepth + n := by
  have hm := h.depth
  cases h with
  | assign | left | callee | group | logicalLeft | unary | head | expression | ifThen | ifElse | print | var
  | right | args | logicalRight | tail | block | ifThenYes | ifElseYes | ifElseNo | first | rest | loop | condition
  | turn | again | call =>
      simp only [Task.height, Task.count, Expr.height, Stmt.height, Expr.heightAll, Stmt.heightAll] at hd hm ⊢
      omega
  | @body f _ _ _ _ hlt =>
      have hb : Stmt.heightAll f.body ≤ n := Stmt.heightAll_le.2 (ht.1 f rfl)
      simp only [Task.height, Task.count] at hm ⊢
      omega

/-- Where all texts are low, no more than the limit and the height of one text is ever under evaluation. -/
theorem Visits.depth_le {t : Task α} {u : Task β} {site site' : Site} (hv : Visits t m site u m' site')
    (ht : t.Within (.lower n) m.identities) (hm : m.Within (.lower n)) (hd : m.depth + t.height ≤ maxDepth + n) :
    m'.depth + u.height ≤ maxDepth + n := by
  have key : u.Within (.lower n) m'.identities ∧ m'.Within (.lower n) ∧ m'.depth + u.height ≤ maxDepth + n := by
    induction hv with
    | start => exact ⟨ht, hm, hd⟩
    | step _ hs ih =>
        obtain ⟨hu, hm', hd'⟩ := ih
        obtain ⟨hv, hw⟩ := hs.within hu hm'
        exact ⟨hv, hw, hs.depth_le hu hd'⟩
  exact key.2.2

end Semantics

end Treewalk
