import Treewalk.Proofs.Grammar.StatementSoundness
import Treewalk.Proofs.Grammar.StatementTracking

/- Totality: over every list with an end token the walk ends at the first one, and over every other list it ends just
past the last token. -/

namespace Treewalk.Walk

variable {α : Type} {L : Layout} {s : Spot}

theorem Follows.of_found {x : Walk α} {a : α} {t : Cursor} (h : Follows L x s (.found a t)) :
    (∃ s', x.Gives s a s' ∧ s'.On L ∧ s'.cursor L = t) ∨ (x.Stops s L.body.length ∧ L.after = []) := by
  generalize hr : Result.found a t = r at h
  cases h with
  | found h on => cases hr; exact .inl ⟨_, h, on, rfl⟩
  | fault h on => cases hr
  | outside h missing => exact .inr ⟨h, missing⟩

theorem not_atEnd (hs : s.index < L.body.length) : ¬(s.cursor L).atEnd := by
  rw [Cursor.atEnd, List.isEmpty_iff]
  exact List.ne_nil_of_length_pos (by rw [← Cursor.left, Spot.left_cursor]; omega)

/-- Where a token is left, a declaration takes at least one, whether it is at fault or not. -/
theorem declaration_cases (on : s.On L) (hs : s.index < L.body.length) :
    (∃ s', declaration.Gives s (Grammar.recovered (Grammar.declarationRule (s.cursor L)).result).1 s' ∧ s'.On L ∧
      s'.cursor L = (Grammar.recovered (Grammar.declarationRule (s.cursor L)).result).2 ∧ s.index < s'.index) ∨
    (declaration.Stops s L.body.length ∧ L.after = []) := by
  have tracks := tracks_declaration ((statementTracks_holds L).declarationRule (s.cursor L) trivial)
  refine (tracks s on rfl).of_found.imp_left ?_
  rintro ⟨s', h, on', hc⟩
  have hlt := Grammar.left_recovered_lt _ (not_atEnd hs)
  rw [← hc, Spot.left_cursor, Spot.left_cursor] at hlt
  exact ⟨s', h, on', hc, by omega⟩

/-- Where a token is left, the walk over declarations starts with one. -/
theorem declarations_apply (on : s.On L) (hs : s.index < L.body.length) :
    declarations s = (do
      let stmt ← declaration
      return stmt.toList ++ (← declarations)) s := by
  conv => lhs; rw [declarations]
  rcases on.cases with ⟨t, rest, -, ht, he, -, -⟩ | ⟨hr, -⟩ | ⟨hr, -⟩
  · rw [(gives_atEnd ht).bind, if_neg (by simpa using he)]
  · exact absurd (List.isEmpty_iff.2 hr) (not_atEnd hs)
  · exact absurd (List.isEmpty_iff.2 hr) (not_atEnd hs)

/-- Just after the body of a list with an end token, the walk over declarations is done. -/
theorem declarations_done (ha : L.after ≠ []) (on : s.On L) (hs : s.index = L.body.length) :
    declarations.Gives s [] s := by
  rw [declarations]
  rcases on.cases with ⟨t, rest, hr, -⟩ | ⟨-, ht, he⟩ | ⟨-, -, -, h⟩
  · have := congrArg List.length hr
    rw [← Cursor.left, Spot.left_cursor, List.length_cons] at this
    omega
  · rw [Gives, (gives_atEnd ht).bind, if_pos (by simpa using he)]
    rfl
  · exact absurd h ha

theorem declarations_gives (ha : L.after ≠ []) (s : Spot) (on : s.On L) :
    ∃ s', declarations.Gives s (Grammar.declarations (s.cursor L)).1 s' ∧ s'.On L ∧ s'.index = L.body.length ∧
      s'.cursor L = (Grammar.declarations (s.cursor L)).2 := by
  rcases Nat.lt_or_eq_of_le on.index with hs | hs
  · rcases declaration_cases on hs with ⟨s₁, h, on₁, hc, hlt⟩ | ⟨-, h⟩
    · obtain ⟨s₂, h₂, on₂, hi, hc₂⟩ := declarations_gives ha s₁ on₁
      rw [Grammar.declarations_eq, if_neg (not_atEnd hs), ← hc]
      exact ⟨s₂, (declarations_apply on hs).trans (h.bind.trans h₂.bind), on₂, hi, hc₂⟩
    · exact absurd h ha
  · have he : (s.cursor L).atEnd := List.isEmpty_iff.2 (List.drop_eq_nil_of_le (Nat.le_of_eq hs.symm))
    rw [Grammar.declarations_eq, if_pos he]
    exact ⟨s, declarations_done ha on hs, on, hs, rfl⟩
termination_by L.body.length - s.index

theorem declarations_stops (ha : L.after = []) (s : Spot) (on : s.On L) : declarations.Stops s L.body.length := by
  rcases Nat.lt_or_eq_of_le on.index with hs | hs
  · refine (declarations_apply on hs).trans ?_
    rcases declaration_cases on hs with ⟨s₁, h, on₁, -, hlt⟩ | ⟨h, -⟩
    · exact h.bind.trans ((declarations_stops ha s₁ on₁).bind _)
    · exact h.bind _
  · rw [declarations, ← hs]
    refine (stops_atEnd ?_).bind _
    rw [on.tokens, ha, List.append_nil, hs, List.getElem?_eq_none (Nat.le_refl _)]
termination_by L.body.length - s.index

/-- The index of the first end token of a list. -/
structure FirstEnd (tokens : List Token) (i : Nat) : Prop where
  ending : ∃ t, tokens[i]? = some t ∧ t.type = .eof
  before : ∀ t ∈ tokens.take i, t.type ≠ .eof

theorem exists_firstEnd {tokens : List Token} (h : ∃ t ∈ tokens, t.type = .eof) : ∃ i, FirstEnd tokens i := by
  induction tokens with
  | nil => simp at h
  | cons t rest ih =>
      by_cases ht : t.type = .eof
      · exact ⟨0, ⟨t, rfl, ht⟩, by simp⟩
      · obtain ⟨i, ⟨u, hu, he⟩, hb⟩ := ih (by simpa [ht] using h)
        exact ⟨i + 1, ⟨u, hu, he⟩, by simpa [ht] using hb⟩

/-- The list as a walk meets it. -/
def FirstEnd.layout {tokens : List Token} {i : Nat} {ending : Token} (h : FirstEnd tokens i)
    (hi : tokens[i]? = some ending) : Layout where
  body := tokens.take i
  after := tokens.drop i
  ending
  plain := h.before
  stop := by
    obtain ⟨u, hu, he⟩ := h.ending
    rw [List.head?_drop, hi]
    rintro t ⟨⟩
    rw [hi] at hu
    cases hu
    exact ⟨rfl, he⟩

theorem FirstEnd.ofTokens? {tokens : List Token} {i : Nat} {ending : Token} (h : FirstEnd tokens i)
    (hi : tokens[i]? = some ending) :
    Cursor.ofTokens? tokens = some { rest := tokens.take i, ending } := by
  obtain ⟨u, hu, he⟩ := h.ending
  rw [hi] at hu
  cases hu
  have hd : tokens = tokens.take i ++ ending :: tokens.drop (i + 1) := by
    obtain ⟨hlt, hg⟩ := List.getElem?_eq_some_iff.1 hi
    rw [← hg, ← List.drop_eq_getElem_cons hlt, List.take_append_drop]
  have hn : ∀ t ∈ tokens.take i, (t.type != .eof) = true := fun t hm => bne_iff_ne.2 (h.before t hm)
  have hb : (ending.type != .eof) = false := by rw [he]; decide
  unfold Cursor.ofTokens?
  conv => lhs; rw [hd]
  rw [List.dropWhile_append_of_pos hn, List.takeWhile_append_of_pos hn, List.dropWhile_cons_of_neg (by simp [hb]),
    List.takeWhile_cons_of_neg (by simp [hb]), List.append_nil]

section Prefix

variable {tokens others : List Token} {i : Nat}

theorem getElem?_of_take (ht : others.take (i + 1) = tokens.take (i + 1)) : others[i]? = tokens[i]? := by
  rw [← List.getElem?_take_of_lt (Nat.lt_succ_self i), ht, List.getElem?_take_of_lt (Nat.lt_succ_self i)]

theorem take_of_take (ht : others.take (i + 1) = tokens.take (i + 1)) : others.take i = tokens.take i := by
  have := congrArg (List.take i) ht
  rwa [List.take_take, List.take_take, Nat.min_eq_left (Nat.le_succ i)] at this

/-- Lists that agree up to the first end token have the same one. -/
theorem FirstEnd.congr (h : FirstEnd tokens i) (ht : others.take (i + 1) = tokens.take (i + 1)) : FirstEnd others i :=
  ⟨getElem?_of_take ht ▸ h.ending, take_of_take ht ▸ h.before⟩

end Prefix

theorem FirstEnd.length_body {tokens : List Token} {i : Nat} {ending : Token} (h : FirstEnd tokens i)
    (hi : tokens[i]? = some ending) : (h.layout hi).body.length = i :=
  List.length_take_of_le (Nat.le_of_lt (List.getElem?_eq_some_iff.1 hi).1)

theorem FirstEnd.after_ne {tokens : List Token} {i : Nat} {ending : Token} (h : FirstEnd tokens i)
    (hi : tokens[i]? = some ending) : (h.layout hi).after ≠ [] := fun ha =>
  absurd (List.getElem?_eq_some_iff.1 hi).1 (Nat.not_lt_of_le (List.drop_eq_nil_iff.1 ha))

theorem FirstEnd.on {tokens : List Token} {i : Nat} {ending : Token} (h : FirstEnd tokens i)
    (hi : tokens[i]? = some ending) {s : Spot} (ht : s.tokens = tokens) (hs : s.index ≤ i) : s.On (h.layout hi) :=
  ⟨ht.trans (List.take_append_drop i tokens).symm, (h.length_body hi).symm ▸ hs⟩

/-- The walk does on a list with an end token what the rules do on the tokens before it. -/
theorem FirstEnd.gives {tokens : List Token} {i : Nat} {ending : Token} (h : FirstEnd tokens i)
    (hi : tokens[i]? = some ending) :
    declarations.Gives { tokens } (Program.read { rest := tokens.take i, ending }).1
      { tokens, index := i, reports := (Program.read { rest := tokens.take i, ending }).2.reports } := by
  have on : Spot.On (h.layout hi) { tokens } := h.on hi rfl (Nat.zero_le i)
  obtain ⟨⟨tokens', index, depth, reports⟩, hg, ⟨ht, -⟩, hx, hc⟩ := declarations_gives (h.after_ne hi) _ on
  have ht : tokens' = tokens := ht.trans (List.take_append_drop i tokens)
  have hx : index = i := hx.trans (h.length_body hi)
  have hd : depth = 0 := (congrArg Cursor.depth hc).trans (Grammar.leads_declarations _).depth
  have hr : reports = _ := congrArg Cursor.reports hc
  rw [ht, hx, hd, hr] at hg
  exact hg

theorem read_eq (s : Cursor) :
    Program.read s = ((Program.read s).1, { s with rest := [], reports := (Program.read s).2.reports }) := by
  have leads := Grammar.leads_declarations { s with reports := [] }
  refine Prod.ext rfl (Cursor.mk.injEq .. ▸ ⟨Grammar.rest_declarations _, leads.ending, leads.depth, rfl⟩)

/-- Over a list with an end token the walk over declarations ends, inside the list, at the first end token; what it
gives and reports is what the rules give there, whatever follows that token; every declaration before the end takes
a token at least; and from the end on there is nothing to give or to report. Over any other list the walk runs into the
index just past the last token. -/
theorem declarations_total (tokens : List Token) :
    ((∃ t ∈ tokens, t.type = .eof) → ∃ i program reports, FirstEnd tokens i ∧
      (∃ s, Cursor.ofTokens? tokens = some s ∧ Program.read s = (program, { s with rest := [], reports })) ∧
      (∀ others, others.take (i + 1) = tokens.take (i + 1) →
        declarations.Gives { tokens := others } program { tokens := others, index := i, reports }) ∧
      (∀ before, declarations.Gives { tokens, index := i, reports := before } []
        { tokens, index := i, reports := before }) ∧
      ∀ s : Spot, s.tokens = tokens → s.index < i →
        ∃ stmt s', declaration.Gives s stmt s' ∧ s'.tokens = tokens ∧ s.index < s'.index ∧ s'.index ≤ i) ∧
    ((∀ t ∈ tokens, t.type ≠ .eof) → declarations.Stops { tokens } tokens.length) := by
  constructor
  · intro he
    obtain ⟨i, h⟩ := exists_firstEnd he
    obtain ⟨ending, hi, -⟩ := h.ending
    refine ⟨i, (Program.read { rest := tokens.take i, ending }).1,
      (Program.read { rest := tokens.take i, ending }).2.reports, h, ⟨_, h.ofTokens? hi, ?_⟩, ?_, ?_, ?_⟩
    · exact read_eq _
    · intro others ht
      exact take_of_take ht ▸ (h.congr ht).gives ((getElem?_of_take ht).trans hi)
    · intro before
      exact declarations_done (h.after_ne hi) (h.on hi rfl (Nat.le_refl i)) (h.length_body hi).symm
    · intro s ht hs
      have hb := h.length_body hi
      rcases declaration_cases (h.on hi ht (Nat.le_of_lt hs)) (hb.symm ▸ hs) with ⟨s', hg, on, -, hlt⟩ | ⟨-, ha⟩
      · exact ⟨_, s', hg, on.tokens.trans (List.take_append_drop i tokens), hlt, hb ▸ on.index⟩
      · exact absurd ha (h.after_ne hi)
  · intro he
    let L : Layout := ⟨tokens, [], ⟨.eof, "", none, 0⟩, he, by simp⟩
    exact declarations_stops (L := L) rfl _ ⟨(List.append_nil tokens).symm, Nat.zero_le _⟩

theorem declarations_total_stray :
    let tokens : List Token := [⟨.rightParen, ")", none, 1⟩, ⟨.eof, "", none, 1⟩, ⟨.nilWord, "nil", none, 1⟩]
    (∃ i program reports, FirstEnd tokens i ∧
      declarations.Gives { tokens } program { tokens, index := i, reports }) ∧
      declarations.Stops { tokens := tokens.take 1 } 1 := by
  intro tokens
  obtain ⟨i, program, reports, hi, -, hg, -⟩ := (declarations_total tokens).1 ⟨⟨.eof, "", none, 1⟩, by decide, rfl⟩
  exact ⟨⟨i, program, reports, hi, hg tokens rfl⟩, (declarations_total (tokens.take 1)).2 (by decide)⟩

end Treewalk.Walk
