import Treewalk.Proofs.Evaluation.Fragment

/- Termination without loops. Functions are values and may be rebound, so no order of the text bounds recursion; but a
call starts only below the depth limit, and all that runs in its body runs deeper. -/

namespace Treewalk

namespace Stmt

def isLoop : Stmt → Bool
  | .loop _ _ => true
  | _ => false

/-- No loop stands in a statement, nor in the bodies of the functions declared in it. -/
def LoopFree (s : Stmt) : Prop := s.Everywhere fun s' => s'.isLoop = false

end Stmt

/-- Statements without loops. -/
def Fragment.loopFree : Fragment where
  text := Stmt.LoopFree
  held _ f := ∀ s ∈ f.body, s.LoopFree
  part h hs := h.part hs
  declared _ h := fun _ hs => h.part hs
  body h := h
  later _ h := h

namespace Semantics

/-- What goes down from task to task: the depth left below the limit, and at one depth the size of the text. A call
counts one more, for the body that it may start at its own depth. -/
noncomputable def Task.rank (m : Machine) : {α : Type} → Task α → Nat × Nat
  | _, .call _ _ _ => (maxDepth + 1 - m.depth, 0)
  | _, t => (maxDepth - m.depth, sizeOf t)

/-- Deeper or not, a smaller text counts less. -/
theorem rank_lt {d d' a b : Nat} (hd : d ≤ d') (h : a < b) :
    Prod.Lex (· < ·) (· < ·) (maxDepth - d', a) (maxDepth - d, b) := by
  rcases Nat.lt_or_eq_of_le (Nat.sub_le_sub_left hd maxDepth) with hlt | heq
  · exact .left _ _ hlt
  · rw [heq]
    exact .right _ h

variable {α β : Type} {m m' : Machine}

/-- Without loops, whatever a task starts counts less than the task. -/
theorem Starts.rank_lt {t : Task α} {t' : Task β} (h : Starts t m t' m') (ht : t.Within .loopFree m.identities) :
    Prod.Lex (· < ·) (· < ·) (t'.rank m') (t.rank m) := by
  have hd := h.depth
  have loops : ∀ {c body}, ¬(Stmt.loop c body).LoopFree := fun hl => nomatch hl _ .self
  cases h with
  | assign | left | callee | group | logicalLeft | unary | head | expression | ifThen | ifElse | print | var
  | right | args | logicalRight | tail | block | ifThenYes | ifElseYes | ifElseNo | first | rest =>
      exact Semantics.rank_lt (Nat.le.intro hd.symm) (by simp +arith)
  | call =>
      simp only [Task.rank, hd, Task.count, Nat.add_sub_add_right]
      exact .right _ (by simp +arith)
  | body ha hd => exact .left _ _ (by omega)
  | loop | condition | turn | again => exact absurd ht loops

/-- Without loops every task ends. -/
theorem halts_of_loopFree {α : Type} (t : Task α) (m : Machine) (ht : t.Within .loopFree m.identities)
    (hm : m.Within .loopFree) : Halts t m :=
  halts_of_starts fun t' m' hs => halts_of_loopFree t' m' (hs.within ht hm).1 (hs.within ht hm).2
termination_by t.rank m
decreasing_by exact hs.rank_lt ht

end Semantics

end Treewalk
