import Treewalk.Proofs.Evaluation.Depth
import Treewalk.Proofs.Session.History
import Treewalk.Proofs.Session.Towers

/- Depth of sessions: what the limit on calls and the levels of nesting bound together, and what neither does. -/

namespace Treewalk

open Semantics

/-- A tower is evaluated from the top down, its name last. -/
theorem Tower.visits {α : Type} {t : Semantics.Task α} {m m' : Machine} {site site' : Site} {n : Nat}
    (h : Visits t m site (.expr (Tower.tree n)) m' site') :
    ∃ m'' site'', Visits t m site (.expr (.variable Tower.name)) m'' site'' ∧ m''.depth = m'.depth + n := by
  induction n generalizing m' site' with
  | zero => exact ⟨m', site', h, rfl⟩
  | succ n ih =>
      obtain ⟨m'', site'', hv, hd⟩ := ih (h.step .assign)
      exact ⟨m'', site'', hv, hd.trans (Nat.succ_add_eq_add_succ m'.depth n)⟩

namespace Session

/-- In a session of accepted programs whose chains are no longer than `k`, the levels of nesting and the limit on calls
bound how many statements and expressions are under evaluation at once. -/
theorem depth_within {k : Nat} {K : Program → Prop}
    (hK : ∀ p, K p → ∃ source, Accepted source ∧ Program.ofSource source = p ∧ ∀ stmt ∈ p, stmt.longest ≤ k)
    {s : Session} (hs : s.Reached K) {p : Program} (hp : K p) {α : Type} {t : Semantics.Task α} {m : Machine}
    {site : Site} (hv : Visits (.stmts p) s.machine (.program p) t m site) :
    m.depth + t.count ≤ maxDepth + (maxNesting * (k + 4) + 1) := by
  have low : ∀ p, K p → ∀ stmt ∈ p, stmt.height ≤ maxNesting * (k + 4) + 1 := by
    intro p hp
    obtain ⟨source, ha, rfl, hk⟩ := hK p hp
    exact ha.derives.height_le hk
  have start : s.machine.depth + (Semantics.Task.stmts p).height ≤ maxDepth + (maxNesting * (k + 4) + 1) := by
    rw [hs.idle.2, Nat.zero_add]
    exact Nat.le_trans (Stmt.heightAll_le.2 (low p hp)) (Nat.le_add_left _ _)
  have reach := hv.depth_le (low p hp) (hs.within low) start
  exact Nat.le_trans (Nat.add_le_add_left t.count_le_height _) reach

/-- A session before any program. -/
def new : Session := { machine := .start (fun _ => .ofNat 0) {}, errors := none }

/-- A run of a tower comes to its name, all of the tower being under evaluation. -/
theorem visits_tower (n : Nat) :
    ∃ m site, Visits (.stmts [.expression (Tower.tree n)]) new.machine (.program [.expression (Tower.tree n)])
      (.expr (.variable Tower.name)) m site ∧ m.depth = n + 1 := by
  let p : Program := [.expression (Tower.tree n)]
  have root : Visits (.stmts p) new.machine (.program p) (.stmts p) new.machine (.program p) := .start
  obtain ⟨m, site, hv, hd⟩ := Tower.visits ((root.step .first).step .expression)
  exact ⟨m, site, hv, hd.trans (Nat.add_comm _ _)⟩

/-- The tower of two signs. -/
theorem depth_within_tower :
    ∃ m site, Visits (.stmts (Program.ofSource (Tower.source 2))) new.machine
      (.program (Program.ofSource (Tower.source 2))) (.expr (.variable Tower.name)) m site ∧
      m.depth + 1 = 4 ∧ m.depth + 1 ≤ maxDepth + (maxNesting * (2 + 4) + 1) := by
  obtain ⟨ha, hp⟩ := Tower.accepted 2
  obtain ⟨m, site, hv, hd⟩ := visits_tower 2
  have short : ∀ stmt ∈ Program.ofSource (Tower.source 2), stmt.longest ≤ 2 := by
    rw [hp]
    decide
  rw [← hp] at hv
  exact ⟨m, site, hv, congrArg (· + 1) hd,
    depth_within (K := fun p => p = Program.ofSource (Tower.source 2)) (k := 2)
      (fun p h => ⟨_, ha, h.symm, h ▸ short⟩) (.fresh _ _ rfl) rfl hv⟩

/-- For accepted programs in general there is no bound. -/
theorem depth_unbounded :
    ¬∃ bound, ∀ source, Accepted source → ∀ (α : Type) (t : Semantics.Task α) m site,
      Visits (.stmts (Program.ofSource source)) new.machine (.program (Program.ofSource source)) t m site →
      m.depth + t.count ≤ bound := by
  rintro ⟨bound, h⟩
  obtain ⟨ha, hp⟩ := Tower.accepted bound
  obtain ⟨m, site, hv, hd⟩ := visits_tower bound
  have reach := h _ ha _ (.expr (.variable Tower.name)) m site (by rw [hp]; exact hv)
  rw [hd, Semantics.Task.count] at reach
  omega

end Session

end Treewalk
