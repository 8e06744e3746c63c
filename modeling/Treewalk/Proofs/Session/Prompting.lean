import Treewalk.Proofs.Session.Refusal
import Treewalk.Proofs.Session.Twins

/- Prompts: the lines up to the first other event run one by one, each as if no line before it had failed. -/

namespace Treewalk

open Semantics

namespace Session

/-- No error is on record. -/
structure Clear (s : Session) : Prop where
  hadError : s.hadError = false
  hadRuntimeError : s.hadRuntimeError = false

/-- The session once the prompt has shown its marker, as far as that fits. -/
def shown (s : Session) (marker : String) : Session := (s.write marker).1

/-- The whole marker fits into the output. -/
def Shows (s : Session) (marker : String) : Prop := (s.write marker).2 = true

section
variable (marker : String)

/-- From one session to the next the prompt runs a line. -/
structure Turn (s : Session) (line : String) (s' : Session) : Prop where
  shows : s.Shows marker
  runs : ∃ after, (s.shown marker).RunsTo line after ∧ s' = after.reset

/-- From one session to another the prompt runs lines, one after another. -/
inductive Turns : Session → List String → Session → Prop
  | none {s} : Turns s [] s
  | more {s s' s'' line lines} (h : Turn marker s line s') (hs : Turns s' lines s'') : Turns s (line :: lines) s''

/-- The prompt ends without another line: where the output does not take the marker nothing is read, and else one event
that is no line, if there is any to read. -/
inductive Leaves (s : Session) : List PromptRead → PromptEnd → Prop
  | closed {reads} (h : ¬s.Shows marker) : Leaves s reads ⟨some .closed, reads, s.shown marker⟩
  | exhausted (h : s.Shows marker) : Leaves s [] ⟨none, [], s.shown marker⟩
  | interrupted {rest s'} (h : s.Shows marker) (hw : (s.shown marker).write "Interrupted.\n" = (s', true)) :
      Leaves s (.interrupt :: rest) ⟨none, rest, s'⟩
  | interruptedClosed {rest s'} (h : s.Shows marker) (hw : (s.shown marker).write "Interrupted.\n" = (s', false)) :
      Leaves s (.interrupt :: rest) ⟨some .closed, rest, s'⟩
  | ended {rest} (h : s.Shows marker) : Leaves s (.ending :: rest) ⟨none, rest, s.shown marker⟩
  | failed {rest f} (h : s.Shows marker) : Leaves s (.failure f :: rest) ⟨some f, rest, s.shown marker⟩

end

variable {marker : String} {s s' : Session} {K : Program → Prop}

theorem status_eq_zero_iff : s.status = 0 ↔ s.Clear := by
  unfold status
  constructor
  · intro h
    split at h
    · cases h
    · next he =>
        split at h
        · cases h
        · next hr => exact ⟨Bool.eq_false_iff.2 he, Bool.eq_false_iff.2 hr⟩
  · rintro ⟨he, hr⟩
    rw [he, hr]
    rfl

theorem interpret_mono {n k : Nat} (h : n ≤ k) {p : Program} (hi : s.interpret n p = some s') :
    s.interpret k p = some s' := by
  obtain ⟨r, m, hr, rfl⟩ := interpret_eq_some_iff.1 hi
  exact interpret_eq_some_iff.2 ⟨r, m, Task.run_mono h _ _ _ _ hr, rfl⟩

theorem run_mono {n k : Nat} (h : n ≤ k) {source : String} (hr : s.run n source = some s') :
    s.run k source = some s' := by
  unfold run at hr ⊢
  dsimp only at hr ⊢
  split at hr
  · next he => rw [if_pos he, hr]
  · next he =>
      rw [if_neg he]
      exact interpret_mono h hr

namespace Clear

theorem reset (s : Session) : s.reset.Clear := ⟨rfl, rfl⟩

theorem write (h : s.Clear) (text : String) : (s.write text).1.Clear := ⟨h.hadError, h.hadRuntimeError⟩

end Clear

/-- The flags are clear at every read. -/
theorem Turns.clear {lines : List String} (hc : s.Clear) (h : Turns marker s lines s') : s'.Clear := by
  induction h with
  | none => exact hc
  | more h _ ih =>
      obtain ⟨after, -, rfl⟩ := h.runs
      exact ih (.reset after)

theorem Turns.reached {lines : List String} (hK : ∀ line ∈ lines, K (Program.ofSource line)) (hr : s.Reached K)
    (h : Turns marker s lines s') : s'.Reached K := by
  induction h with
  | none => exact hr
  | @more s _ _ line lines h _ ih =>
      obtain ⟨after, ⟨fuel, ha⟩, rfl⟩ := h.runs
      exact ih (fun l hl => hK l (.tail _ hl)) (Reached.run (hr.write marker) (hK line (.head _)) ha).reset

theorem Shows.write (h : s.Shows marker) : s.write marker = (s.shown marker, true) := Prod.ext rfl h

/-- With one line run the prompt goes on at the next read. -/
theorem Turn.prompt {line : String} (h : Turn marker s line s') :
    ∃ n, ∀ fuel, n ≤ fuel → ∀ reads, s.prompt fuel marker (.line line :: reads) = s'.prompt fuel marker reads := by
  obtain ⟨after, ⟨n, hr⟩, rfl⟩ := h.runs
  refine ⟨n, fun fuel hf reads => ?_⟩
  rw [Session.prompt, h.shows.write]
  dsimp only
  rw [run_mono hf hr]

/-- With some lines run the prompt goes on at the read after these. -/
theorem Turns.prompt {lines : List String} (h : Turns marker s lines s') :
    ∃ n, ∀ fuel, n ≤ fuel → ∀ reads,
      s.prompt fuel marker (lines.map .line ++ reads) = s'.prompt fuel marker reads := by
  induction h with
  | none => exact ⟨0, fun _ _ _ => rfl⟩
  | more h _ ih =>
      obtain ⟨n, hn⟩ := h.prompt
      obtain ⟨k, hk⟩ := ih
      refine ⟨max n k, fun fuel hf reads => ?_⟩
      rw [List.map_cons, List.cons_append, hn fuel (by omega), hk fuel (by omega)]

theorem Leaves.prompt {reads : List PromptRead} {e : PromptEnd} (h : Leaves marker s reads e) (fuel : Nat) :
    s.prompt fuel marker reads = some e := by
  cases h with
  | closed h =>
      have hw : s.write marker = (s.shown marker, false) := Prod.ext rfl (Bool.eq_false_iff.2 h)
      cases reads <;> rw [Session.prompt, hw]
  | exhausted h => rw [Session.prompt, h.write]
  | interrupted h hi =>
      rw [Session.prompt, h.write]
      dsimp only
      rw [hi]
  | interruptedClosed h hi =>
      rw [Session.prompt, h.write]
      dsimp only
      rw [hi]
  | ended h => rw [Session.prompt, h.write]
  | failed h => rw [Session.prompt, h.write]

/-- At every read the prompt runs a line or ends. -/
theorem turn_or_leaves (marker : String) (s : Session) (reads : List PromptRead) :
    (∃ line rest, reads = .line line :: rest ∧ s.Shows marker) ∨ ∃ e, Leaves marker s reads e := by
  by_cases hs : s.Shows marker
  · cases reads with
    | nil => exact .inr ⟨_, .exhausted hs⟩
    | cons r rest =>
        cases r with
        | line text => exact .inl ⟨text, rest, rfl, hs⟩
        | interrupt =>
            cases hw : (s.shown marker).write "Interrupted.\n" with
            | mk s' fits =>
                cases fits with
                | true => exact .inr ⟨_, .interrupted hs hw⟩
                | false => exact .inr ⟨_, .interruptedClosed hs hw⟩
        | ending => exact .inr ⟨_, .ended hs⟩
        | failure f => exact .inr ⟨_, .failed hs⟩
  · exact .inr ⟨_, .closed hs⟩

/-- A prompt that ends has run some lines before the read it ends at. -/
theorem exists_turns {fuel : Nat} {reads : List PromptRead} {e : PromptEnd} (h : s.prompt fuel marker reads = some e) :
    ∃ lines rest s', reads = lines.map .line ++ rest ∧ Turns marker s lines s' ∧ Leaves marker s' rest e := by
  induction reads generalizing s with
  | nil =>
      obtain ⟨_, _, hn, -⟩ | ⟨e', hl⟩ := turn_or_leaves marker s []
      · cases hn
      · obtain rfl : e' = e := Option.some.inj ((hl.prompt fuel).symm.trans h)
        exact ⟨[], [], s, rfl, .none, hl⟩
  | cons r reads ih =>
      obtain ⟨line, rest, hr, hs⟩ | ⟨e', hl⟩ := turn_or_leaves marker s (r :: reads)
      · cases hr
        rw [Session.prompt, hs.write] at h
        dsimp only at h
        cases hr : (s.shown marker).run fuel line with
        | none =>
            rw [hr] at h
            cases h
        | some after =>
            rw [hr] at h
            obtain ⟨lines, rest, s', rfl, ht, hl⟩ := ih h
            exact ⟨line :: lines, rest, s', rfl, .more ⟨hs, after, ⟨fuel, hr⟩, rfl⟩ ht, hl⟩
      · obtain rfl : e' = e := Option.some.inj ((hl.prompt fuel).symm.trans h)
        exact ⟨[], r :: reads, s, rfl, .none, hl⟩

/-- A prompt ends exactly after the lines before the first other event, with that event. -/
theorem prompt_iff {reads : List PromptRead} {e : PromptEnd} :
    (∃ fuel, s.prompt fuel marker reads = some e) ↔
      ∃ lines rest s', reads = lines.map .line ++ rest ∧ Turns marker s lines s' ∧ Leaves marker s' rest e := by
  constructor
  · rintro ⟨fuel, h⟩
    exact exists_turns h
  · rintro ⟨lines, rest, s', rfl, ht, hl⟩
    obtain ⟨n, hn⟩ := ht.prompt
    exact ⟨n, (hn n (Nat.le_refl n) rest).trans (hl.prompt n)⟩

theorem Leaves.clear {reads : List PromptRead} {e : PromptEnd} (hc : s.Clear) (h : Leaves marker s reads e) :
    e.session.Clear := by
  have hs : (s.shown marker).Clear := hc.write marker
  cases h with
  | interrupted _ hi | interruptedClosed _ hi =>
      have hw := hs.write "Interrupted.\n"
      rw [hi] at hw
      exact hw
  | _ => exact hs

/-- A session is ready for any source: no error is on record; it runs sources, and goes on at the prompt, as any other
clear session with the same bindings does, whatever went before in either; and a source with a lexical error, or whose
tokens derive no program, is not run. -/
structure Ready (s : Session) : Prop where
  clear : s.Clear
  runs (P : Pairing) (s' : Session) (h' : s'.Reached fun _ => True) (hc : s'.Clear) (ha : Alike P s s') (fuel : Nat)
    (source : String) :
    Option.Rel (Twin (P.extend s.machine.identities s'.machine.identities) s s')
      (s.run fuel source) (s'.run fuel source)
  prompts (P : Pairing) (s' : Session) (h' : s'.Reached fun _ => True) (hc : s'.Clear) (ha : Alike P s s') (fuel : Nat)
    (marker : String) (reads : List PromptRead) :
    Option.Rel (PromptEnd.Twin (P.extend s.machine.identities s'.machine.identities) s s')
      (s.prompt fuel marker reads) (s'.prompt fuel marker reads)
  refuses (source : String)
    (h : Scan.errors (Scan.ofSource source) ≠ [] ∨
      ¬∃ program, Grammar.DerivesProgram (pieceTokens (pieces source.toList)) program) (fuel : Nat) :
    ∃ s', s.run fuel source = some s' ∧ s'.hadError = true ∧ Told s s'

theorem Reached.ready (h : s.Reached fun _ => True) (hc : s.Clear) : s.Ready where
  clear := hc
  runs P s' h' hc' ha fuel source := by
    have ht := ha.twin h h' (hc'.hadError.trans hc.hadError.symm) (hc'.hadRuntimeError.trans hc.hadRuntimeError.symm)
    exact ht.run (P.extend_new _ _) fuel source
  prompts P s' h' hc' ha fuel marker reads := by
    have ht := ha.twin h h' (hc'.hadError.trans hc.hadError.symm) (hc'.hadRuntimeError.trans hc.hadRuntimeError.symm)
    exact ht.prompt (P.extend_new _ _) fuel marker reads
  refuses source he fuel := by
    have hn : ¬Accepted source := fun ha =>
      have hd := accepted_iff.1 ha
      he.elim (· hd.1) (· hd.2)
    exact ⟨_, run_of_not_accepted hn s fuel, (hadError_load s source).2 (.inr hn), .load s source⟩

/-- The prompt isolates errors and keeps state. It runs exactly the lines before the first other event, in order, and
leaves unread what comes after that; at every read the session is ready for any source; and when the prompt ends, by
itself or with a failure, no error is on record. -/
theorem prompt_isolates (h : s.Reached fun _ => True) (hc : s.Clear) (marker : String) (reads : List PromptRead) :
    (∀ e, (∃ fuel, s.prompt fuel marker reads = some e) ↔
      ∃ lines rest s', reads = lines.map .line ++ rest ∧ Turns marker s lines s' ∧ Leaves marker s' rest e) ∧
    (∀ lines rest s', reads = lines.map .line ++ rest → Turns marker s lines s' →
      (∃ n, ∀ fuel, n ≤ fuel → s.prompt fuel marker reads = s'.prompt fuel marker rest) ∧
      s'.Ready ∧ (s'.shown marker).Ready) ∧
    ∀ fuel e, s.prompt fuel marker reads = some e → e.session.status = 0 := by
  refine ⟨fun e => prompt_iff, ?_, ?_⟩
  · rintro lines rest s' rfl ht
    have hr : s'.Reached fun _ => True := ht.reached (fun _ _ => trivial) h
    have hc' := ht.clear hc
    obtain ⟨n, hn⟩ := ht.prompt
    exact ⟨⟨n, fun fuel hf => hn fuel hf rest⟩, hr.ready hc', Reached.ready (hr.write marker) (hc'.write marker)⟩
  · intro fuel e he
    obtain ⟨lines, rest, s', -, ht, hl⟩ := exists_turns he
    exact status_eq_zero_iff.2 (hl.clear (ht.clear hc))

/-- A line with an error that cannot be told, then an interrupt: the line after it is left unread. -/
theorem prompt_isolates_interrupt :
    ∃ (s : Session) (e : PromptEnd), s.Reached (fun _ => True) ∧ s.Clear ∧ s.errors = some { limit := some 0 } ∧
      (∃ fuel, s.prompt fuel "> " [.line "@", .interrupt, .line "nil;"] = some e) ∧
      e.unread = [.line "nil;"] ∧ e.session.machine.scopes = s.machine.scopes ∧ e.session.status = 0 := by
  let s : Session := { machine := .start (fun _ => .ofNat 0) {}, errors := some { limit := some 0 } }
  have hs : s.Reached fun _ => True := .fresh (fun _ => .ofNat 0) {} rfl
  obtain ⟨hiff, hreads, hend⟩ := prompt_isolates hs ⟨rfl, rfl⟩ "> " [.line "@", .interrupt, .line "nil;"]
  obtain ⟨-, -, hready⟩ := hreads [] _ s rfl .none
  obtain ⟨u, hu, -, ht⟩ := hready.refuses "@" (.inl (by decide +kernel)) 0
  have hm : u.machine = (s.shown "> ").machine := ht.output rfl
  have hturn : Turn "> " s "@" u.reset := ⟨rfl, u, ⟨0, hu⟩, rfl⟩
  have hshows : u.reset.Shows "> " := by
    change (u.machine.output.write "> ").2 = true
    rw [hm]
    rfl
  have hfits : ((u.reset.shown "> ").write "Interrupted.\n").2 = true := by
    change ((u.machine.output.write "> ").1.write "Interrupted.\n").2 = true
    rw [hm]
    rfl
  have hl : Leaves "> " u.reset [.interrupt, .line "nil;"] ⟨none, [.line "nil;"], _⟩ :=
    .interrupted hshows (Prod.ext rfl hfits)
  have hg : u.machine.scopes = s.machine.scopes := by
    rw [hm]
    rfl
  obtain ⟨fuel, he⟩ := (hiff _).2 ⟨["@"], _, u.reset, rfl, .more hturn .none, hl⟩
  exact ⟨s, _, hs, ⟨rfl, rfl⟩, rfl, ⟨fuel, he⟩, rfl, hg, hend fuel _ he⟩

end Session

end Treewalk
