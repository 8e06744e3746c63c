import Treewalk.Proofs.Grammar.Result
import Treewalk.Proofs.Grammar.Walk

/- Tracking: a walk by index does what the rule does on the tokens that are left, or it stops at the end of a list
without an end token. -/

namespace Treewalk

/-- A list of tokens as a walk meets it: the tokens up to the first end token, and what follows, which is that token
and any others, or nothing. -/
structure Layout where
  body : List Token
  after : List Token
  ending : Token
  plain : ∀ t ∈ body, t.type ≠ .eof
  stop : ∀ t ∈ after.head?, t = ending ∧ t.type = .eof

namespace Spot

/-- A spot in the body of a list, or just after it. -/
structure On (L : Layout) (s : Spot) : Prop where
  tokens : s.tokens = L.body ++ L.after
  index : s.index ≤ L.body.length

/-- The tokens left at a spot, as a cursor. -/
def cursor (L : Layout) (s : Spot) : Cursor where
  rest := L.body.drop s.index
  ending := L.ending
  depth := s.depth
  reports := s.reports

variable {L : Layout} {s : Spot}

theorem On.deeper (h : s.On L) : s.deeper.On L := ⟨h.tokens, h.index⟩

theorem On.higher (h : s.On L) : s.higher.On L := ⟨h.tokens, h.index⟩

theorem On.report (h : s.On L) (r : Report) : (s.report r).On L := ⟨h.tokens, h.index⟩

theorem left_cursor (L : Layout) (s : Spot) : (s.cursor L).left = L.body.length - s.index := List.length_drop

/-- What stands at a spot: a token of the body, or the end token, or nothing. -/
theorem On.cases (h : s.On L) :
    (∃ t rest, (s.cursor L).rest = t :: rest ∧ s.tokens[s.index]? = some t ∧ t.type ≠ .eof ∧ s.next.On L ∧
      s.next.cursor L = { s.cursor L with rest }) ∨
    ((s.cursor L).rest = [] ∧ s.tokens[s.index]? = some L.ending ∧ L.ending.type = .eof) ∨
    ((s.cursor L).rest = [] ∧ s.tokens[s.index]? = none ∧ s.index = L.body.length ∧ L.after = []) := by
  obtain ⟨ht, hi⟩ := h
  rcases Nat.lt_or_eq_of_le hi with hi | hi
  · refine .inl ⟨L.body[s.index], L.body.drop (s.index + 1), List.drop_eq_getElem_cons hi, ?_, ?_, ⟨ht, hi⟩, rfl⟩
    · rw [ht, List.getElem?_append_left hi, List.getElem?_eq_getElem hi]
    · exact L.plain _ (List.getElem_mem hi)
  · have hr : (s.cursor L).rest = [] := List.drop_eq_nil_of_le (Nat.le_of_eq hi.symm)
    have hg : s.tokens[s.index]? = L.after.head? := by
      rw [ht, List.getElem?_append_right (Nat.le_of_eq hi.symm), hi, Nat.sub_self, List.head?_eq_getElem?]
    cases ha : L.after with
    | nil => exact .inr (.inr ⟨hr, by rw [hg, ha]; rfl, hi, rfl⟩)
    | cons t rest =>
        obtain ⟨rfl, he⟩ := L.stop t (by rw [ha]; rfl)
        exact .inr (.inl ⟨hr, by rw [hg, ha]; rfl, he⟩)

end Spot

namespace Walk

variable {α β : Type} {s s' : Spot} {t : Token}

/-- A walk from `s` gives a value and ends at `s'`. -/
def Gives (x : Walk α) (s : Spot) (a : α) (s' : Spot) : Prop := x s = some (.ok (.ok a, s'))

/-- A walk from `s` ends at `s'` with a fault. -/
def Faults (x : Walk α) (s : Spot) (r : Report) (s' : Spot) : Prop := x s = some (.ok (.error r, s'))

/-- A walk from `s` meets an index out of bounds. -/
def Stops (x : Walk α) (s : Spot) (i : Nat) : Prop := x s = some (.error ⟨i⟩)

theorem bind_apply (x : Walk α) (f : α → Walk β) (s : Spot) :
    (x >>= f) s =
      match x s with
      | none => none
      | some (.error i) => some (.error i)
      | some (.ok (.error r, s')) => some (.ok (.error r, s'))
      | some (.ok (.ok a, s')) => f a s' := by
  change Option.bind (x s) _ = _
  rcases x s with _ | _ | ⟨_ | _, _⟩ <;> rfl

section Primitives

theorem Gives.bind {x : Walk α} {f : α → Walk β} {a : α} (h : x.Gives s a s') : (x >>= f) s = f a s' := by
  rw [bind_apply, h]

theorem Faults.bind {x : Walk α} {r : Report} (h : x.Faults s r s') (f : α → Walk β) : (x >>= f).Faults s r s' := by
  rw [Faults, bind_apply, h]

theorem Stops.bind {x : Walk α} {i : Nat} (h : x.Stops s i) (f : α → Walk β) : (x >>= f).Stops s i := by
  rw [Stops, bind_apply, h]

theorem gives_pure (a : α) (s : Spot) : (pure a : Walk α).Gives s a s := rfl

theorem gives_get (s : Spot) : (get : Walk Spot).Gives s s s := rfl

theorem gives_modify (f : Spot → Spot) (s : Spot) : (modify f : Walk PUnit).Gives s .unit (f s) := rfl

theorem gives_report (r : Report) (s : Spot) : (report r).Gives s .unit (s.report r) := rfl

theorem gives_tokenAt {i : Nat} (h : s.tokens[i]? = some t) : (tokenAt i).Gives s t s := by
  unfold tokenAt
  rw [Gives, (gives_get s).bind, h]
  rfl

theorem gives_peek (h : s.tokens[s.index]? = some t) : peek.Gives s t s := by
  unfold peek
  rw [Gives, (gives_get s).bind]
  exact gives_tokenAt h

theorem stops_peek (h : s.tokens[s.index]? = none) : peek.Stops s s.index := by
  unfold peek tokenAt
  rw [Stops, (gives_get s).bind, (gives_get s).bind, h]
  rfl

theorem gives_atEnd (h : s.tokens[s.index]? = some t) : atEnd.Gives s (t.type == .eof) s := by
  unfold atEnd
  rw [Gives, (gives_peek h).bind]
  rfl

theorem stops_atEnd (h : s.tokens[s.index]? = none) : atEnd.Stops s s.index := (stops_peek h).bind _

theorem gives_check (h : s.tokens[s.index]? = some t) (type : TokenType) :
    (check type).Gives s (t.type != .eof && t.type == type) s := by
  unfold check
  rw [Gives, (gives_atEnd h).bind]
  by_cases he : t.type = .eof
  · simp only [he, beq_self_eq_true, if_true, bne_self_eq_false, Bool.false_and]
    rfl
  · rw [if_neg (by simpa using he), (gives_peek h).bind, bne_iff_ne.2 he, Bool.true_and]
    rfl

theorem stops_check (h : s.tokens[s.index]? = none) (type : TokenType) : (check type).Stops s s.index :=
  (stops_atEnd h).bind _

theorem gives_previous (h : s.tokens[s.index]? = some t) : previous.Gives s.next t s.next := by
  unfold previous
  rw [Gives, (gives_get s.next).bind]
  exact gives_tokenAt h

/-- At a token that is not the end token. -/
theorem gives_advance (h : s.tokens[s.index]? = some t) (ht : t.type ≠ .eof) : advance.Gives s t s.next := by
  unfold advance
  rw [Gives, (gives_atEnd h).bind, if_neg (by simpa using ht), (gives_modify _ s).bind]
  exact gives_previous h

/-- At the end token the token before is given, or the end token where it is the first. -/
theorem gives_advance_ended (h : s.tokens[s.index]? = some t) (ht : t.type = .eof) : ∃ a, advance.Gives s a s := by
  have hi : s.index - 1 < s.tokens.length :=
    Nat.lt_of_le_of_lt (Nat.sub_le _ _) (List.getElem?_eq_some_iff.1 h).1
  refine ⟨s.tokens[s.index - 1], ?_⟩
  unfold advance previous
  rw [Gives, (gives_atEnd h).bind, if_pos (by simpa using ht)]
  exact (gives_get s).bind.trans (gives_tokenAt (List.getElem?_eq_getElem hi))

theorem stops_advance (h : s.tokens[s.index]? = none) : advance.Stops s s.index := (stops_atEnd h).bind _

theorem gives_takes (h : s.tokens[s.index]? = some t) (ht : t.type ≠ .eof) (types : List TokenType) :
    (takes types).Gives s (types.contains t.type) (if types.contains t.type then s.next else s) := by
  induction types with
  | nil => rfl
  | cons type types ih =>
      rw [takes, Gives, (gives_check h type).bind, bne_iff_ne.2 ht, Bool.true_and, List.contains_cons]
      by_cases hq : t.type = type
      · rw [if_pos (by simpa using hq), (gives_advance h ht).bind]
        simp only [hq, beq_self_eq_true, Bool.true_or, if_true]
        rfl
      · rw [if_neg (by simpa using hq), beq_false_of_ne hq, Bool.false_or]
        exact ih

theorem gives_takes_ended (h : s.tokens[s.index]? = some t) (ht : t.type = .eof) (types : List TokenType) :
    (takes types).Gives s false s := by
  induction types with
  | nil => rfl
  | cons type types ih =>
      rw [takes, Gives, (gives_check h type).bind]
      simpa [ht, Gives] using ih

/-- A fault of the rule is a value. -/
theorem gives_caught {x : Walk α} {e : Except Report α} (h : x s = some (.ok (e, s'))) : (caught x).Gives s e s' := by
  change Option.bind (x s) _ = _
  rw [h]
  rfl

theorem stops_caught {x : Walk α} {i : Nat} (h : x.Stops s i) : (caught x).Stops s i := by
  change Option.bind (x s) _ = _
  rw [h]
  rfl

/-- Where a level is left. -/
theorem nested_apply {x : Walk α} (hd : s.depth < maxNesting) :
    nested x s =
      match x s.deeper with
      | none => none
      | some (.error i) => some (.error i)
      | some (.ok (e, s')) => some (.ok (e, s'.higher)) := by
  rw [nested, (gives_get s).bind, if_neg (Nat.not_le_of_lt hd), (gives_modify _ s).bind]
  change Option.bind (Option.bind (x s.deeper) _) _ = _
  rcases x s.deeper with _ | _ | ⟨_ | _, _⟩ <;> rfl

end Primitives

section Following

/-- A walk from `s` ends as `r` says, in the body or just after it; or it stops where an end token is missing. -/
inductive Follows (L : Layout) (x : Walk α) (s : Spot) : Result α → Prop
  | found {a : α} {s' : Spot} (h : x.Gives s a s') (on : s'.On L) : Follows L x s (.found a (s'.cursor L))
  | fault {r : Report} {s' : Spot} (h : x.Faults s r s') (on : s'.On L) : Follows L x s (.fault r (s'.cursor L))
  | outside {r : Result α} (h : x.Stops s L.body.length) (missing : L.after = []) : Follows L x s r

/-- A walk follows `r` from every spot where the tokens left are those at the cursor `t`. -/
def Tracks (L : Layout) (x : Walk α) (t : Cursor) (r : Result α) : Prop :=
  ∀ s : Spot, s.On L → s.cursor L = t → Follows L x s r

variable {L : Layout} {u : Cursor} {x : Walk α} {f : α → Walk β} {r : Result α} {g : α → Cursor → Result β}

theorem Follows.from {y : Walk α} (h : Follows L x s' r) (e : y s = x s') : Follows L y s r := by
  cases h with
  | found h on => exact .found (e.trans h) on
  | fault h on => exact .fault (e.trans h) on
  | outside h missing => exact .outside (e.trans h) missing

theorem Follows.bind (h : Follows L x s r)
    (hf : ∀ a s', s'.On L → r = .found a (s'.cursor L) → Follows L (f a) s' (g a (s'.cursor L))) :
    Follows L (x >>= f) s (r.bind g) := by
  cases h with
  | found h on => exact (hf _ _ on rfl).from h.bind
  | fault h on => exact .fault (h.bind f) on
  | outside h missing => exact .outside (h.bind f) missing

theorem Tracks.pure (a : α) : Tracks L (pure a) u (.found a u) := by
  rintro s on rfl
  exact .found (gives_pure a s) on

theorem Tracks.bind (h : Tracks L x u r) (hf : ∀ a v, r = .found a v → Tracks L (f a) v (g a v)) :
    Tracks L (x >>= f) u (r.bind g) := by
  intro s on hs
  exact (h s on hs).bind fun a s' on' hr => hf a _ hr s' on' rfl

theorem Tracks.map {f : α → β} (h : Tracks L x u r) : Tracks L (x >>= fun a => Pure.pure (f a)) u (r.map f) :=
  h.bind fun a _ _ => .pure (f a)

theorem Follows.peek {f : Token → Walk β} {r : Result β} (on : s.On L)
    (h : Follows L (f (s.cursor L).peek) s r) : Follows L (peek >>= f) s r := by
  rcases on.cases with ⟨t, rest, hr, ht, -, -, -⟩ | ⟨hr, ht, -⟩ | ⟨-, ht, hi, missing⟩
  · rw [Cursor.peek, hr] at h
    exact h.from (gives_peek ht).bind
  · rw [Cursor.peek, hr] at h
    exact h.from (gives_peek ht).bind
  · exact .outside (hi ▸ (stops_peek ht).bind _) missing

theorem Tracks.fail (fault : Fault) : Tracks L (fail fault : Walk α) u (.fault ⟨u.peek, fault⟩ u) := by
  rintro s on rfl
  exact .peek on (.fault rfl on)

/-- A token of some types at the spot is taken, and the token before the next spot is that one. -/
theorem Follows.takes {types : List TokenType} {yes no : Walk α} (on : s.On L)
    (taken : ∀ token s', (s.cursor L).taken? types = some (token, s'.cursor L) → s'.On L →
      previous.Gives s' token s' → Follows L yes s' r)
    (untaken : (s.cursor L).taken? types = none → Follows L no s r) :
    Follows L (takes types >>= fun b => if b = true then yes else no) s r := by
  rcases on.cases with ⟨t, rest, hr, ht, he, on', hc⟩ | ⟨hr, ht, he⟩ | ⟨hr, ht, hi, missing⟩
  · by_cases hm : t.type ∈ types
    · refine (taken t s.next ?_ on' (gives_previous ht)).from ?_
      · rw [Cursor.taken?_eq_some_iff]
        exact ⟨rest, hr, hm, hc⟩
      · rw [(gives_takes ht he types).bind]
        simp [hm]
    · refine (untaken ?_).from ?_
      · rw [Cursor.taken?_eq_none_iff, hr]
        exact .cons hm
      · rw [(gives_takes ht he types).bind]
        simp [hm]
  · refine (untaken ?_).from ?_
    · rw [Cursor.taken?_eq_none_iff, hr]
      simp [Barred]
    · rw [(gives_takes_ended ht he types).bind]
      rfl
  · cases types with
    | nil => exact (untaken (by rw [Cursor.taken?_eq_none_iff, hr]; simp [Barred])).from (gives_pure false s).bind
    | cons type types => exact .outside (hi ▸ ((stops_check ht type).bind _).bind _) missing

theorem Follows.check {type : TokenType} {yes no : Walk α} (on : s.On L)
    (taken : ∀ token, (s.cursor L).taken? [type] = some (token, s.next.cursor L) → s.next.On L →
      advance.Gives s token s.next → Follows L yes s r)
    (untaken : (s.cursor L).taken? [type] = none → Follows L no s r) :
    Follows L (check type >>= fun b => if b = true then yes else no) s r := by
  rcases on.cases with ⟨t, rest, hr, ht, he, on', hc⟩ | ⟨hr, ht, he⟩ | ⟨hr, ht, hi, missing⟩
  · by_cases hm : t.type = type
    · refine (taken t ?_ on' (gives_advance ht he)).from ?_
      · rw [Cursor.taken?_eq_some_iff]
        exact ⟨rest, hr, by simpa using hm, hc⟩
      · rw [(gives_check ht type).bind]
        simp [hm, hm ▸ he]
    · refine (untaken ?_).from ?_
      · rw [Cursor.taken?_eq_none_iff, hr]
        exact .cons (by simpa using hm)
      · rw [(gives_check ht type).bind]
        simp [hm]
  · refine (untaken ?_).from ?_
    · rw [Cursor.taken?_eq_none_iff, hr]
      simp [Barred]
    · rw [(gives_check ht type).bind]
      simp [he]
  · exact .outside (hi ▸ (stops_check ht type).bind _) missing

variable {yes no : Walk α} {types : List TokenType} {type : TokenType} {fault : Fault}

theorem Tracks.takes (taken : ∀ token v, u.taken? types = some (token, v) → Tracks L yes v r)
    (untaken : u.taken? types = none → Tracks L no u r) :
    Tracks L (Walk.takes types >>= fun b => if b = true then yes else no) u r := by
  rintro s on rfl
  exact .takes on (fun token s' h on' _ => taken token _ h s' on' rfl) fun h => untaken h s on rfl

/-- The same where the token taken is looked at. -/
theorem Tracks.takesToken {yes : Token → Walk α}
    (taken : ∀ token v, u.taken? types = some (token, v) → Tracks L (yes token) v r)
    (untaken : u.taken? types = none → Tracks L no u r) :
    Tracks L (Walk.takes types >>= fun b => if b = true then previous >>= yes else no) u r := by
  rintro s on rfl
  exact .takes on (fun token s' h on' hp => (taken token _ h s' on' rfl).from hp.bind) fun h => untaken h s on rfl

theorem Follows.atEnd (on : s.On L) (ended : (s.cursor L).atEnd → Follows L yes s r)
    (going : ¬(s.cursor L).atEnd → Follows L no s r) :
    Follows L (atEnd >>= fun b => if b = true then yes else no) s r := by
  rcases on.cases with ⟨t, rest, hr, ht, he, -, -⟩ | ⟨hr, ht, he⟩ | ⟨-, ht, hi, missing⟩
  · refine (going ?_).from ?_
    · rw [Cursor.atEnd, hr]
      exact Bool.false_ne_true
    · rw [(gives_atEnd ht).bind, if_neg (by simpa using he)]
  · refine (ended ?_).from ?_
    · rw [Cursor.atEnd, hr]
      rfl
    · rw [(gives_atEnd ht).bind, if_pos (by simpa using he)]
  · exact .outside (hi ▸ (stops_atEnd ht).bind _) missing

theorem Tracks.expect : Tracks L (expect type fault) u (u.expected type fault) := by
  rintro s on rfl
  unfold Cursor.expected
  refine .check on (fun token h on' ha => ?_) fun h => ?_
  · rw [h]
    exact .found ha on'
  · rw [h]
    exact Tracks.fail fault s on rfl

theorem Tracks.takesBind {k : α → Walk β} {r : Result β}
    (taken : ∀ token v, u.taken? types = some (token, v) → Tracks L (yes >>= k) v r)
    (untaken : u.taken? types = none → Tracks L (no >>= k) u r) :
    Tracks L ((Walk.takes types >>= fun b => if b = true then yes else no) >>= k) u r := by
  rw [bind_assoc, show (fun b => (if b = true then yes else no) >>= k) = fun b =>
    if b = true then yes >>= k else no >>= k from funext fun b => by cases b <;> rfl]
  exact .takes taken untaken

/-- Where a token of type `type` has to follow in any case. -/
theorem Tracks.unlessNext {default : α} {rule : Walk α} {k : α → Token → Walk β} {r : Result β}
    (taken : ∀ token v, u.taken? [type] = some (token, v) → Tracks L (k default token) v r)
    (untaken : u.taken? [type] = none → Tracks L (rule >>= fun a => Walk.expect type fault >>= k a) u r) :
    Tracks L (Walk.unlessNext type default rule >>= fun a => Walk.expect type fault >>= k a) u r := by
  rw [bind_assoc, show (fun b => (if b = true then Pure.pure default else rule) >>= fun a =>
    Walk.expect type fault >>= k a) = fun b => if b = true then Walk.expect type fault >>= k default
      else rule >>= fun a => Walk.expect type fault >>= k a from funext fun b => by cases b <;> simp]
  rintro s on rfl
  refine .check on (fun token h _ _ => ?_) fun h => untaken h s on rfl
  have expected : (s.cursor L).expected type fault = .found token (s.next.cursor L) := by rw [Cursor.expected, h]
  have next := Tracks.bind (g := fun _ _ => r) (f := k default) (expected ▸ Tracks.expect (L := L)) fun a v hv => by
    cases hv
    exact taken token _ h
  exact next s on rfl

theorem Tracks.nested {rule : Walk α} (h : Tracks L rule u.deeper r) :
    Tracks L (nested rule) u (if u.depth < maxNesting then r.higher else .fault ⟨u.peek, .tooDeep⟩ u) := by
  rintro s on rfl
  by_cases hd : s.depth < maxNesting
  · rw [if_pos (show (s.cursor L).depth < maxNesting from hd)]
    have inner := h s.deeper on.deeper rfl
    generalize r = r' at inner ⊢
    cases inner with
    | found h on' => exact .found (by rw [Gives, nested_apply hd, h]) on'.higher
    | fault h on' => exact .fault (by rw [Faults, nested_apply hd, h]) on'.higher
    | outside h missing => exact .outside (by rw [Stops, nested_apply hd, h]) missing
  · rw [if_neg (show ¬(s.cursor L).depth < maxNesting from hd)]
    refine (Tracks.fail .tooDeep s on rfl).from ?_
    rw [Walk.nested, (gives_get s).bind, if_pos (Nat.le_of_not_lt hd)]

theorem Tracks.reported {report : Report} (h : Tracks L x (u.report report) r) :
    Tracks L (Walk.report report >>= fun _ => x) u r := by
  rintro s on rfl
  exact (h (s.report report) (on.report report) rfl).from (gives_report report s).bind

theorem Tracks.counted {count : Nat} (h : Tracks L x (u.counted count fault) r) :
    Tracks L (counted count fault >>= fun _ => x) u r := by
  rintro s on rfl
  unfold Walk.counted Cursor.counted at *
  by_cases hc : maxArguments ≤ count
  · simp only [if_pos hc, bind_assoc] at h ⊢
    exact .peek on ((h (s.report _) (on.report _) rfl).from (gives_report _ s).bind)
  · simp only [if_neg hc] at h ⊢
    exact (h s on rfl).from (gives_pure () s).bind

theorem Follows.skip {last : Token} {rest : List Token} (on : s.On L) (hl : previous.Gives s last s)
    (hr : (s.cursor L).rest = rest) :
    Follows L skip s (.found () { s.cursor L with rest := Cursor.skip last rest }) := by
  induction rest generalizing s last with
  | nil =>
      rw [Cursor.skip, ← hr]
      rcases on.cases with ⟨t, rest, hr', -⟩ | ⟨-, ht, he⟩ | ⟨-, ht, hi, missing⟩
      · rw [hr'] at hr
        cases hr
      · refine (Follows.found (gives_pure () s) on).from ?_
        rw [Walk.skip, (gives_atEnd ht).bind, if_pos (by simpa using he)]
      · exact .outside (by rw [Walk.skip]; exact hi ▸ (stops_atEnd ht).bind _) missing
  | cons t rest ih =>
      rcases on.cases with ⟨t', rest', hr', ht, he, on', hc⟩ | ⟨hr', -, -⟩ | ⟨hr', -, -, -⟩
      · rw [hr'] at hr
        cases hr
        rw [Cursor.skip]
        by_cases hs : last.type = .semicolon ∨ t.type.startsStatement
        · rw [if_pos hs, ← hr']
          refine (Follows.found (gives_pure () s) on).from ?_
          rw [Walk.skip, (gives_atEnd ht).bind, if_neg (by simpa using he), hl.bind, (gives_peek ht).bind,
            if_pos (by simpa using hs)]
        · rw [if_neg hs]
          have goOn : Walk.skip s = Walk.skip s.next := by
            conv => lhs; rw [Walk.skip]
            rw [(gives_atEnd ht).bind, if_neg (by simpa using he), hl.bind, (gives_peek ht).bind,
              if_neg (by simpa using hs), (gives_advance ht he).bind]
          have next := ih on' (gives_previous ht) (by rw [hc])
          rw [hc] at next
          exact next.from goOn
      · rw [hr'] at hr
        cases hr
      · rw [hr'] at hr
        cases hr

theorem Tracks.resume : Tracks L resume u (.found () u.resume) := by
  rintro s on rfl
  unfold Cursor.resume
  rcases on.cases with ⟨t, rest, hr, ht, he, on', hc⟩ | ⟨hr, ht, he⟩ | ⟨hr, ht, hi, missing⟩
  · rw [hr]
    have next : Follows L skip s.next _ := .skip on' (gives_previous ht) (congrArg Cursor.rest hc)
    rw [hc] at next
    exact next.from (gives_advance ht he).bind
  · rw [hr]
    obtain ⟨a, ha⟩ := gives_advance_ended ht he
    refine (Follows.found (gives_pure () s) on).from ?_
    rw [Walk.resume, ha.bind, Walk.skip, (gives_atEnd ht).bind, if_pos (by simpa using he)]
  · exact .outside (hi ▸ (stops_advance ht).bind _) missing

end Following

end Walk

end Treewalk
