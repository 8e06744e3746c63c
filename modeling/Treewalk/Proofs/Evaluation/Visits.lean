import Treewalk.Proofs.Evaluation.Extent
import Treewalk.Proofs.Evaluation.Fragment
import Treewalk.Proofs.Syntax.Sites

/- Visits: the moments of a run with the places in the text that they are at. Around each the local scopes are those
that the text puts around its place, whatever was called and from where. -/

namespace Treewalk

/-- A statement stands somewhere in a program of `K`. -/
def Written (K : Program → Prop) (s : Stmt) : Prop := ∃ p, K p ∧ ∃ t ∈ p, s.PartOf t

/-- The statements written in the programs of `K`, and the functions that they declare. -/
def Fragment.written (K : Program → Prop) : Fragment where
  text := Written K
  held _ f := Written K (.function f.name f.params f.body)
  part := fun ⟨p, hp, t, ht, h⟩ hs => ⟨p, hp, t, ht, h.part hs⟩
  declared _ h := h
  body := fun ⟨p, hp, t, ht, h⟩ _ hs => ⟨p, hp, t, ht, h.part hs⟩
  later _ h := h

/-- The text of a place is a program of `K`, or the body of a function declared in one, with its parameters. -/
inductive Site.Of (K : Program → Prop) : Site → Prop
  | program {p before blocks} (h : K p) : Of K ⟨none, p, before, blocks⟩
  | function {name params body before blocks} (h : Written K (.function name params body)) :
      Of K ⟨some params, body, before, blocks⟩

namespace Site.Of

variable {K : Program → Prop} {site : Site}

theorem moved (h : site.Of K) (before : List Stmt) (blocks : List (List Stmt)) :
    Site.Of K { site with before, blocks } := by
  cases h with
  | program h => exact .program h
  | function h => exact .function h

theorem past (h : site.Of K) (s : Stmt) : (site.past s).Of K := by
  unfold Site.past
  split <;> exact h.moved _ _

end Site.Of

/-- A scope binds some names and no others. -/
def Scope.BindsOnly (s : Scope) (names : List String) : Prop := ∀ x, s.binds x ↔ x ∈ names

/-- The local scopes bind the names of some frames, the innermost first. -/
def Scopes.Frames (s : Scopes) (frames : List (List String)) : Prop :=
  List.Forall₂ Scope.BindsOnly s.locals frames

namespace Scope

theorem BindsOnly.gains {s s' : Scope} {names names' added written : List String} (h : s.BindsOnly names)
    (hg : s.Gains names' written s') (hn : ∀ x, x ∈ names' ↔ x ∈ added) : s'.BindsOnly (names ++ added) := fun x => by
  rw [hg.binds x, h x, hn x, List.mem_append]

theorem bindsOnly_empty : BindsOnly {} [] := fun x => by simp [binds, get?]

/-- The scope of a call binds its parameters. -/
theorem bindsOnly_ofArguments {params : List Token} {args : List Value} (h : params.length = args.length) :
    (ofArguments params args).BindsOnly (params.map (·.lexeme)) := by
  suffices ∀ (s : Scope) names, s.BindsOnly names →
      ((params.zip args).foldl (fun s b => s.define b.1.lexeme b.2) s).BindsOnly
        (names ++ params.map (·.lexeme)) from this {} [] bindsOnly_empty
  induction params generalizing args with
  | nil => intro s names hs; simpa using hs
  | cons p params ih =>
      obtain ⟨v, args, rfl⟩ := List.exists_cons_of_length_eq_add_one h.symm
      intro s names hs
      have hd := ih (Nat.succ.inj h) _ _ (hs.gains (s.gains_define p.lexeme v []) fun _ => Iff.rfl)
      rwa [List.append_assoc] at hd

end Scope

/-- Scopes that have come to bind no other names bind what their frames say. -/
theorem Scope.bindsOnly_of_gains {ls ls' : List Scope} {fs : List (List String)} {written : List String}
    (hg : List.Forall₂ (Scope.Gains [] written) ls ls') (hb : List.Forall₂ Scope.BindsOnly ls fs) :
    List.Forall₂ Scope.BindsOnly ls' fs := by
  induction hg generalizing fs with
  | nil => exact hb
  | cons hg _ ih =>
      cases hb with
      | @cons _ names _ _ hb hbs =>
          have hb' := hb.gains hg fun x => Iff.rfl
          rw [List.append_nil] at hb'
          exact .cons hb' (ih hbs)

/-- Scopes that have grown bind what their frames say, the innermost some names more. -/
theorem Grown.frames {s s' : Scopes} {fs : List (List String)} {names added written : List String}
    (h : Grown names written s.locals s'.locals) (hn : ∀ x, x ∈ names ↔ x ∈ added) (hs : s.Frames fs) :
    s'.Frames (fs.modifyHead (· ++ added)) := by
  unfold Scopes.Frames at *
  generalize s.locals = ls, s'.locals = ls' at *
  cases h with
  | globals =>
      cases hs
      exact .nil
  | innermost hg hr =>
      cases hs with
      | cons hb hbs => exact .cons (hb.gains hg hn) (Scope.bindsOnly_of_gains hr hbs)

/-- The scope that binds a name first is the one that the text says. -/
theorem Scopes.Frames.home? {s : Scopes} {site : Site} (h : s.Frames site.frames) (name : String) :
    s.home? name = site.home? name := by
  unfold Scopes.home? Site.home?
  unfold Scopes.Frames at h
  generalize s.locals = ls, site.frames = fs at h
  induction h with
  | nil => rfl
  | @cons scope names _ _ hb _ ih =>
      have hc : scope.binds name = names.contains name := by
        rw [Bool.eq_iff_iff, hb name, List.contains_iff_mem]
      rw [List.findIdx?_cons, List.findIdx?_cons, ih, hc]

namespace Semantics

variable {α β : Type} {K : Program → Prop} {m m' : Machine} {site : Site} {fs : List (List String)}

theorem Ends.grown {t : Task α} {r : Except RuntimeError α} (h : Ends t m r m') :
    ∃ names, names ⊆ t.mayDeclare ∧ (∀ a, r = .ok a → t.declared ⊆ names) ∧
      Grown names t.assigned m.scopes.locals m'.scopes.locals := by
  obtain ⟨n, h⟩ := h
  exact extends_run n t m r m' (h n (Nat.le_refl n))

/-- A task that declares nothing leaves the frames. -/
theorem Ends.frames {t : Task α} {r : Except RuntimeError α} (h : Ends t m r m') (ht : t.mayDeclare = [])
    (hm : m.scopes.Frames fs) : m'.scopes.Frames fs := by
  obtain ⟨names, hn, -, hg⟩ := h.grown
  rw [ht] at hn
  have hf : m'.scopes.Frames (fs.modifyHead (· ++ [])) :=
    hg.frames (fun x => by rw [List.eq_nil_of_subset_nil hn]) hm
  have he : fs.modifyHead (· ++ []) = fs := by cases fs <;> simp
  rwa [he] at hf

/-- A well formed statement that has ended has declared its name. -/
theorem Ends.frames_past {s : Stmt} (h : Ends (.stmt s) m (.ok ()) m') (hs : s.Formed)
    (hm : m.scopes.Frames site.frames) : m'.scopes.Frames (site.past s).frames := by
  obtain ⟨names, hn, hd, hg⟩ := h.grown
  rw [Site.frames_past]
  refine hg.frames (fun x => ⟨fun hx => ?_, fun hx => hd () rfl hx⟩) hm
  have hx := hn hx
  rwa [Task.mayDeclare, hs.mayDeclare_eq] at hx

/-- The place of what a task at `site` starts: past a statement that has ended, in a block, in the body of a function,
or where the task is. -/
def Task.placeOf (site : Site) : {α β : Type} → Task α → Task β → Site
  | _, _, .stmts (s :: _), .stmts _ => site.past s
  | _, _, .stmt (.block _), .stmts _ => site.opened
  | _, _, .call (.callable (.function f)) _ _, .stmts _ => .function f.params f.body
  | _, _, _, _ => site

/-- All that a task at `site` starts, directly or not, each with its machine and its place. -/
inductive Visits (t : Task α) (m : Machine) (site : Site) : {β : Type} → Task β → Machine → Site → Prop
  | start : Visits t m site t m site
  | step {β γ : Type} {u : Task β} {v : Task γ} {m₁ m₂ : Machine} {site₁ : Site} (h : Visits t m site u m₁ site₁)
      (hs : Starts u m₁ v m₂) : Visits t m site v m₂ (u.placeOf site₁ v)

/-- The text of a task stands at its place. -/
def Task.StandsAt (site : Site) : {α : Type} → Task α → Prop
  | _, .stmt s => site.Shows s
  | _, .stmts ss => site.Leads ss
  | _, .turns condition body => site.Shows (.loop condition body)
  | _, .expr _ => True
  | _, .args _ => True
  | _, .call _ _ _ => True

/-- A task of written text at its place, on a machine whose local scopes are the frames of the place. -/
structure Placed (K : Program → Prop) (t : Task α) (m : Machine) (site : Site) : Prop where
  origin : site.Of K
  stands : t.StandsAt site
  frames : m.scopes.Frames site.frames
  task : t.Within (.written K) m.identities
  machine : m.Within (.written K)

/-- What a placed task starts is placed. -/
theorem Placed.starts (hK : ∀ p, K p → ∀ s ∈ p, s.Formed) {t : Task α} {t' : Task β} (h : Placed K t m site)
    (hs : Starts t m t' m') : Placed K t' m' (t.placeOf site t') := by
  obtain ⟨origin, stands, frames, task, machine⟩ := h
  obtain ⟨task', machine'⟩ := hs.within task machine
  have formed : ∀ {s : Stmt}, Written K s → s.Formed := fun ⟨p, hp, t, ht, h⟩ => (hK p hp t ht).partOf h
  have body : ∀ {c : Expr} {body : Stmt}, Written K (.loop c body) → (Task.stmt body).mayDeclare = [] := by
    intro c body hw
    have hf : body.Formed := (formed hw).part (.head _)
    exact hf.mayDeclare_eq.trans (formed hw _ .self body (.head _))
  cases hs with
  | assign | left | callee | group | logicalLeft | unary | head | expression | ifThen | ifElse | print | var
  | condition => exact ⟨origin, trivial, frames, task', machine'⟩
  | right h | args h | logicalRight h | tail h => exact ⟨origin, trivial, h.frames rfl frames, task', machine'⟩
  | call hc ha => exact ⟨origin, trivial, ha.frames rfl (hc.frames rfl frames), task', machine'⟩
  | @body f paren vs _ ha =>
      refine ⟨.function (task.1 f rfl), Site.leads_function _ _, ?_, task', machine'⟩
      change Scopes.Frames _ (Site.function f.params f.body).frames
      rw [Site.frames_function]
      exact .cons (Scope.bindsOnly_ofArguments ha) .nil
  | block => exact ⟨origin.moved _ _, stands.opened, .cons Scope.bindsOnly_empty frames, task', machine'⟩
  | ifThenYes hc | ifElseYes hc =>
      exact ⟨origin, .branch stands (.head _), hc.frames rfl frames, task', machine'⟩
  | ifElseNo hc => exact ⟨origin, .branch stands (.tail _ (.head _)), hc.frames rfl frames, task', machine'⟩
  | loop => exact ⟨origin, stands, frames, task', machine'⟩
  | first => exact ⟨origin, .first stands, frames, task', machine'⟩
  | @rest s _ _ _ h =>
      exact ⟨origin.past s, stands.past, h.frames_past (formed (task s (.head _))) frames, task', machine'⟩
  | turn hc => exact ⟨origin, .branch stands (.head _), hc.frames rfl frames, task', machine'⟩
  | again hc _ hb => exact ⟨origin, stands, hb.frames (body task) (hc.frames rfl frames), task', machine'⟩

/-- All that a placed task visits is placed. -/
theorem Placed.visits (hK : ∀ p, K p → ∀ s ∈ p, s.Formed) {t : Task α} {t' : Task β} {site' : Site}
    (h : Placed K t m site) (hv : Visits t m site t' m' site') : Placed K t' m' site' := by
  induction hv with
  | start => exact h
  | step _ hs ih => exact ih.starts hK hs

end Semantics

end Treewalk
