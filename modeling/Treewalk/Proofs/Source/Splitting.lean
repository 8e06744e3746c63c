import Treewalk.Proofs.Source.Cut

/- A source splits in one way, into its pieces. -/

namespace Treewalk

open Piece

/-- The pieces of a source, in order. -/
def pieces : List Char → List Piece
  | [] => []
  | c :: rest => (cut c rest).piece :: pieces (cut c rest).rest
termination_by cs => cs.length
decreasing_by exact length_cut c rest

/-- The pieces of a source put together are the source. -/
theorem pieces_flatten (cs : List Char) : (pieces cs).flatMap Piece.text = cs := by
  fun_induction pieces cs with
  | case1 => rfl
  | case2 c rest ih => rw [List.flatMap_cons, ih, cut_append]

theorem Shape.ne_nil {form : Form} {text : List Char} (h : Shape form text) : text ≠ [] := by
  cases h with
  | mark hm =>
      have hk : ∀ m ∈ TokenType.marks, m.1 ≠ [] := by decide
      exact hk _ hm
  | whole hn => exact hn
  | _ => simp

theorem Piece.cut_fits (c : Char) (rest : List Char) : (cut c rest).piece.Fits (cut c rest).rest where
  shape := (cut_formed c rest).1
  last := (cut_formed c rest).2
  longest q after hq ho he := by
    rw [cut_append] at he
    exact hq.length_le_cut he ho

/-- Only the piece that is cut fits. -/
theorem Piece.Fits.eq_cut {p : Piece} {after : List Char} (h : p.Fits after) {c : Char} {rest : List Char}
    (he : p.text ++ after = c :: rest) : p = (cut c rest).piece ∧ after = (cut c rest).rest := by
  have hc := cut_fits c rest
  have ha := cut_append c rest
  have hle := h.shape.length_le_cut he h.last
  have hge := h.longest _ _ hc.shape hc.last (ha.trans he.symm)
  obtain ⟨ht, hr⟩ := List.append_inj (he.trans ha.symm) (Nat.le_antisymm hle hge)
  obtain ⟨d, text, hd⟩ := List.exists_cons_of_ne_nil h.shape.ne_nil
  have hf : p.form = (cut c rest).piece.form := by
    rw [← h.shape.form_cut hd]
    exact hc.shape.form_cut (ht.symm.trans hd)
  exact ⟨(congr (congrArg Piece.mk hf) ht : Piece.mk p.form p.text = Piece.mk _ _), hr⟩

/-- A source splits into its pieces and in no other way. -/
theorem splits_iff {source : List Char} {ps : List Piece} : Splits source ps ↔ ps = pieces source := by
  constructor
  · intro h
    induction h with
    | nil => rw [pieces]
    | @cons p after ps hp h ih =>
        cases he : p.text ++ after with
        | nil => exact absurd (List.append_eq_nil_iff.1 he).1 hp.shape.ne_nil
        | cons c rest =>
            obtain ⟨hc, hr⟩ := hp.eq_cut he
            rw [pieces, ← hc, ← hr, ← ih]
  · rintro rfl
    fun_induction pieces source with
    | case1 => exact .nil
    | case2 c rest ih =>
        have hs := Splits.cons (cut_fits c rest) ih
        rwa [cut_append] at hs

end Treewalk
