import Treewalk.Proofs.Grammar.Derivation
import Treewalk.Proofs.Grammar.Frame

/- Soundness of the rules: what a rule finds without a fault is derived from the tokens it took. -/

namespace Treewalk.Grammar

open Cursor

variable {α β : Type} {s t : Cursor} {P : List Token → α → List Token → Prop}

/-- A value found without adding a fault satisfies `P` together with the tokens taken and those left. -/
structure Sound (s : Cursor) (r : Result α) (P : List Token → α → List Token → Prop) : Prop where
  of_found : ∀ a t, r = .found a t →
    Leads s t ∧ (t.reports = s.reports → ∃ ts, s.rest = ts ++ t.rest ∧ P ts a t.rest)

namespace Sound

theorem found {a : α} (h : P [] a s.rest) : Sound s (.found a s) P := by
  refine ⟨?_⟩
  rintro b t ⟨⟩
  exact ⟨Leads.refl s, fun _ => ⟨[], rfl, h⟩⟩

theorem fault {r : Report} : Sound s (.fault r t) P := by
  refine ⟨?_⟩
  rintro a u ⟨⟩

/-- Where a fault is reported, nothing is left to show. -/
theorem reported {a : α} {r : Report} : Sound s (.found a (s.report r)) P := by
  refine ⟨?_⟩
  rintro b t ⟨⟩
  refine ⟨Leads.report s r, fun h => ?_⟩
  simp [Cursor.report] at h

/-- Once a fault was reported on the way, nothing is left to show either. -/
theorem after_report {r : Result α} {Q : List Token → α → List Token → Prop} (h : Sound t r Q) (hl : Leads s t)
    (hn : t.reports ≠ s.reports) : Sound s r P := by
  refine ⟨fun a u hr => ?_⟩
  obtain ⟨htu, -⟩ := h.of_found a u hr
  exact ⟨hl.trans htu, fun hu => absurd (hl.quiet htu hu).1 hn⟩

theorem mono {r : Result α} {Q : List Token → α → List Token → Prop} (h : Sound s r P)
    (hpq : ∀ ts a rest, P ts a rest → Q ts a rest) : Sound s r Q := by
  refine ⟨fun a t hr => ?_⟩
  obtain ⟨hl, hp⟩ := h.of_found a t hr
  refine ⟨hl, fun hq => ?_⟩
  obtain ⟨ts, hts, ha⟩ := hp hq
  exact ⟨ts, hts, hpq ts a _ ha⟩

/-- What is known of the first value enters the second as a premise, so that the second leads on in any case. -/
theorem bind {r : Result α} {f : α → Cursor → Result β} {Q : List Token → β → List Token → Prop} (h : Sound s r P)
    (k : ∀ a t, r = .found a t → t.depth = s.depth →
      Sound t (f a t) fun us b rest => ∀ ts, P ts a (us ++ rest) → Q (ts ++ us) b rest) : Sound s (r.bind f) Q := by
  refine ⟨fun b u hb => ?_⟩
  obtain ⟨a, t, hr, hf⟩ := Result.bind_eq_found hb
  obtain ⟨hst, hp⟩ := h.of_found a t hr
  obtain ⟨htu, hq⟩ := (k a t hr hst.depth).of_found b u hf
  refine ⟨hst.trans htu, fun hu => ?_⟩
  obtain ⟨hqt, hqu⟩ := hst.quiet htu hu
  obtain ⟨ts, hts, ha⟩ := hp hqt
  obtain ⟨us, hus, hb⟩ := hq hqu
  exact ⟨ts ++ us, by rw [hts, hus, List.append_assoc], hb ts (hus ▸ ha)⟩

theorem map {r : Result α} {f : α → β} {Q : List Token → β → List Token → Prop}
    (h : Sound s r fun ts a => Q ts (f a)) : Sound s (r.map f) Q :=
  h.bind fun a t _ _ => found fun ts ha => by rwa [List.append_nil]

theorem taken {types : List TokenType} {token : Token} {r : Result α} (h : s.taken? types = some (token, t))
    (k : token.type ∈ types → t.depth = s.depth → Sound t r fun ts a => P (token :: ts) a) : Sound s r P := by
  obtain ⟨rest, hs, hm, rfl⟩ := taken?_eq_some_iff.1 h
  refine ⟨fun a u hr => ?_⟩
  obtain ⟨hl, hp⟩ := (k hm rfl).of_found a u hr
  refine ⟨(Leads.taken h).trans hl, fun hu => ?_⟩
  obtain ⟨ts, hts, ha⟩ := hp hu
  exact ⟨token :: ts, hs.trans (congrArg (token :: ·) hts), ha⟩

theorem expected (s : Cursor) (type : TokenType) (fault : Fault) :
    Sound s (s.expected type fault) fun ts token _ => ts = [token] ∧ token.type = type := by
  unfold Cursor.expected
  split
  · exact Sound.fault
  · next h => exact taken h fun hm _ => found ⟨rfl, List.mem_singleton.1 hm⟩

/-- A token that ends what was found. -/
theorem ended {type : TokenType} {fault : Fault} {f : Token → α}
    (h : ∀ (token : Token) rest, token.type = type → P [token] (f token) rest) :
    Sound s ((s.expected type fault).map f) P := by
  refine map ((expected s type fault).mono ?_)
  rintro ts token rest ⟨rfl, ht⟩
  exact h token rest ht

theorem level {r : Result α} {report : Report} (h : s.depth < maxNesting → Sound s.deeper r P) :
    Sound s (if s.depth < maxNesting then r.higher else .fault report s) P := by
  split
  · next hd =>
      refine ⟨fun a t hr => ?_⟩
      obtain ⟨u, hu, rfl⟩ := Result.higher_eq_found hr
      obtain ⟨hl, hp⟩ := (h hd).of_found a u hu
      exact ⟨hl.higher, hp⟩
  · exact fault

theorem counted {r : Result α} {count : Nat} (fault : Fault)
    (h : Sound (s.counted count fault) r fun ts a rest => count < maxArguments → P ts a rest) : Sound s r P := by
  refine ⟨fun a t hr => ?_⟩
  obtain ⟨hl, hp⟩ := h.of_found a t hr
  have hc := Leads.counted s count fault
  refine ⟨hc.trans hl, fun ht => ?_⟩
  obtain ⟨hq, ht⟩ := hc.quiet hl ht
  obtain ⟨ts, hts, ha⟩ := hp ht
  refine ⟨ts, hts, ha (Nat.lt_of_not_le fun hle => ?_)⟩
  simp [Cursor.counted, hle] at hq

end Sound

end Treewalk.Grammar
