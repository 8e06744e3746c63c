import Mathlib.Data.List.DropRight
import Treewalk.Proofs.Number.Shortest
import Treewalk.Proofs.Source.Numerals
import Treewalk.Value

/- Printed numbers are numerals that are read as what was printed, and none that is read so has fewer significant
digits. -/

namespace Treewalk

/-- The digits of a text from the first to the last that is not zero. -/
def significant (text : List Char) : List Char := ((text.filter Char.isDigit).dropWhile (· == '0')).rdropWhile (· == '0')

theorem isDigit_of_mem_toDigits {n : Nat} : ∀ c ∈ Nat.toDigits 10 n, c.isDigit :=
  fun _ => Nat.isDigit_of_mem_toDigits (by decide) (by decide)

theorem filter_digits {ds : List Char} (h : ∀ c ∈ ds, c.isDigit) : ds.filter Char.isDigit = ds :=
  List.filter_eq_self.2 h

/-- Zeros at either end are not significant. -/
theorem length_significant_le {text ds : List Char} {a b : Nat}
    (h : text.filter Char.isDigit = List.replicate a '0' ++ (ds ++ List.replicate b '0')) :
    (significant text).length ≤ ds.length := by
  have hzero : ∀ k, ∀ c ∈ List.replicate k '0', (c == '0') = true := fun k c hc => by
    rw [List.eq_of_mem_replicate hc]
    rfl
  unfold significant
  rw [h, List.dropWhile_append_of_pos (hzero a), List.dropWhile_append]
  split
  · rw [List.dropWhile_eq_nil_iff.2 (hzero b)]
    exact Nat.zero_le _
  · have hr : ∀ l : List Char, (l ++ List.replicate b '0').rdropWhile (· == '0') = l.rdropWhile (· == '0') := by
      intro l
      rw [List.rdropWhile, List.reverse_append, List.reverse_replicate, List.dropWhile_append_of_pos (hzero b)]
      rfl
    rw [hr]
    exact ((List.rdropWhile_prefix _ _).length_le).trans (List.dropWhile_suffix _).length_le

/-- What is not significant are zeros at either end. -/
theorem exists_zeros (text : List Char) :
    ∃ a b, text.filter Char.isDigit = List.replicate a '0' ++ (significant text ++ List.replicate b '0') := by
  have hsplit := List.takeWhile_append_dropWhile (p := (· == '0')) (l := text.filter Char.isDigit)
  have hsplit' := List.rdropWhile_append_rtakeWhile (p := (· == '0'))
    (l := (text.filter Char.isDigit).dropWhile (· == '0'))
  have ha : (text.filter Char.isDigit).takeWhile (· == '0') = List.replicate _ '0' :=
    List.eq_replicate_of_mem fun c hc => beq_iff_eq.1 (mem_takeWhile (p := (· == '0')) hc)
  have hb : ((text.filter Char.isDigit).dropWhile (· == '0')).rtakeWhile (· == '0') = List.replicate _ '0' :=
    List.eq_replicate_of_mem fun c hc => beq_iff_eq.1 (List.mem_rtakeWhile_imp (p := (· == '0')) hc)
  rw [hb] at hsplit'
  rw [ha, ← hsplit'] at hsplit
  exact ⟨_, _, hsplit.symm⟩

/-- So many digits denote no more than they can. -/
theorem ofDigitChars_lt {ds : List Char} (hd : ∀ c ∈ ds, c.isDigit) (init : Nat) :
    Nat.ofDigitChars 10 ds init < (init + 1) * 10 ^ ds.length := by
  induction ds generalizing init with
  | nil => simp
  | cons c ds ih =>
      obtain ⟨hc, hds⟩ := List.forall_mem_cons.1 hd
      have hle : c.toNat - '0'.toNat ≤ 9 := by
        simp only [Char.isDigit, Bool.and_eq_true, decide_eq_true_eq] at hc
        have := UInt32.le_iff_toNat_le.1 hc.2
        exact Nat.sub_le_of_le_add this
      rw [Nat.ofDigitChars_cons]
      calc Nat.ofDigitChars 10 ds (10 * init + (c.toNat - '0'.toNat))
          < (10 * init + (c.toNat - '0'.toNat) + 1) * 10 ^ ds.length := ih hds _
        _ ≤ (10 * (init + 1)) * 10 ^ ds.length := Nat.mul_le_mul_right _ (by omega)
        _ = (init + 1) * 10 ^ (c :: ds).length := by
          rw [List.length_cons, Nat.pow_succ]
          ring

/-- What the digits of a text denote is what its significant digits do, at some place. -/
theorem ofDigitChars_significant (text : List Char) :
    ∃ b, Nat.ofDigitChars 10 (text.filter Char.isDigit) 0 = Nat.ofDigitChars 10 (significant text) 0 * 10 ^ b := by
  obtain ⟨a, b, h⟩ := exists_zeros text
  refine ⟨b, ?_⟩
  rw [h, Nat.ofDigitChars_append, Nat.ofDigitChars_append, Nat.ofDigitChars_replicate_zero,
    Nat.ofDigitChars_replicate_zero, Nat.mul_zero, Nat.mul_comm]

theorem isDigit_zeros (k : Nat) : ∀ c ∈ List.replicate k '0', c.isDigit := fun c hc => by
  rw [List.eq_of_mem_replicate hc]
  decide

namespace Numeral

variable {ds : List Char} (hd : ∀ c ∈ ds, c.isDigit) {after : Nat}

include hd

/-- Digits with a point between two of them. -/
theorem inside (hpos : 0 < after) (h : after < ds.length) :
    Numeral (ds.take (ds.length - after) ++ '.' :: ds.drop (ds.length - after))
      ((Nat.ofDigitChars 10 ds 0 : Nat) / 10 ^ after) := by
  have hlen : (ds.drop (ds.length - after)).length = after := by
    rw [List.length_drop]
    omega
  have htake : ds.take (ds.length - after) ≠ [] := fun h => by
    have := congrArg List.length h
    rw [List.length_take, List.length_nil] at this
    omega
  have hdrop : ds.drop (ds.length - after) ≠ [] := List.ne_nil_of_length_pos (by omega)
  have hnum := pointed htake hdrop (by rwa [List.take_append_drop])
  rwa [List.take_append_drop, hlen] at hnum

/-- Digits after a point, with zeros before them. -/
theorem leading (hn : ds ≠ []) (h : ds.length ≤ after) :
    Numeral ('0' :: '.' :: (List.replicate (after - ds.length) '0' ++ ds))
      ((Nat.ofDigitChars 10 ds 0 : Nat) / 10 ^ after) := by
  have hlen : (List.replicate (after - ds.length) '0' ++ ds).length = after := by
    rw [List.length_append, List.length_replicate]
    omega
  have hnum := pointed (List.cons_ne_nil '0' [])
    (List.append_ne_nil_of_right_ne_nil (List.replicate (after - ds.length) '0') hn)
    (List.forall_mem_append.2 ⟨isDigit_zeros 1, List.forall_mem_append.2 ⟨isDigit_zeros _, hd⟩⟩)
  have hzeros : Nat.ofDigitChars 10 (['0'] ++ (List.replicate (after - ds.length) '0' ++ ds)) 0 =
      Nat.ofDigitChars 10 ds 0 := by
    rw [Nat.ofDigitChars_append, Nat.ofDigitChars_append, Nat.ofDigitChars_replicate_zero]
    rfl
  rw [hzeros, hlen] at hnum
  exact hnum

end Numeral

namespace Decimal

def value (d : Decimal) : ℚ := d.digits * 10 ^ ((d.place : ℤ) - point)

/-- The text of a decimal is a numeral of its value. -/
theorem numeral_text (d : Decimal) : Numeral d.text d.value := by
  obtain ⟨n, place⟩ := d
  have hn := Nat.toDigits_ne_nil (n := n) (b := 10)
  have hd := isDigit_of_mem_toDigits (n := n)
  have hv : Nat.ofDigitChars 10 (Nat.toDigits 10 n) 0 = n := Nat.ofDigitChars_toDigits (by decide) (by decide)
  unfold text value
  dsimp only
  generalize Nat.toDigits 10 n = ds at hn hd hv ⊢
  split
  · next h =>
      have hplace : (10 : ℚ) ^ ((place : ℤ) - point) = (10 ^ (place - point) : Nat) := by
        rw [← Nat.cast_sub h, zpow_natCast, Nat.cast_pow, Nat.cast_ofNat]
      have hq : n * 10 ^ (place - point) = Nat.ofDigitChars 10 (ds ++ List.replicate (place - point) '0') 0 := by
        rw [Nat.ofDigitChars_append, Nat.ofDigitChars_replicate_zero, hv, Nat.mul_comm]
      rw [hplace, ← Nat.cast_mul, hq]
      exact .whole (List.append_ne_nil_of_left_ne_nil hn _) (List.forall_mem_append.2 ⟨hd, isDigit_zeros _⟩)
  · next h =>
      have hplace : (10 : ℚ) ^ ((place : ℤ) - point) = (10 ^ (point - place))⁻¹ := by
        rw [← neg_sub, ← Nat.cast_sub (Nat.le_of_not_le h), zpow_neg, zpow_natCast]
      have hpos : 0 < point - place := by omega
      rw [hplace, ← div_eq_mul_inv]
      generalize point - place = after at hpos ⊢
      rw [← hv]
      split
      · next hlt => exact .inside hd hpos hlt
      · next hlt => exact .leading hd hn (Nat.not_lt.1 hlt)

/-- The text of a decimal has no more significant digits than the decimal has digits. -/
theorem length_significant_text (d : Decimal) : (significant d.text).length ≤ (Nat.toDigits 10 d.digits).length := by
  obtain ⟨n, place⟩ := d
  have hd := filter_digits (isDigit_of_mem_toDigits (n := n))
  have hzero : ∀ k, (List.replicate k '0').filter Char.isDigit = List.replicate k '0' := fun k =>
    List.filter_replicate_of_pos (by decide)
  unfold text
  dsimp only
  generalize Nat.toDigits 10 n = ds at hd ⊢
  split
  · have hf : (ds ++ List.replicate (place - point) '0').filter Char.isDigit =
        List.replicate 0 '0' ++ (ds ++ List.replicate (place - point) '0') := by
      rw [List.filter_append, hd, hzero]
      rfl
    exact length_significant_le hf
  · split
    · have hf : (ds.take (ds.length - (point - place)) ++ '.' :: ds.drop (ds.length - (point - place))).filter
          Char.isDigit = List.replicate 0 '0' ++ (ds ++ List.replicate 0 '0') := by
        rw [List.filter_append, List.filter_cons_of_neg (by decide), ← List.filter_append, List.take_append_drop, hd]
        simp
      exact length_significant_le hf
    · have hf : ('0' :: '.' :: List.replicate (point - place - ds.length) '0' ++ ds).filter Char.isDigit =
          List.replicate (point - place - ds.length + 1) '0' ++ (ds ++ List.replicate 0 '0') := by
        rw [List.filter_append, List.filter_cons_of_pos (by decide), List.filter_cons_of_neg (by decide), hd, hzero]
        simp [List.replicate_succ]
      exact length_significant_le hf

end Decimal

/-- The value of a numeral is that of its digits at some place. -/
theorem Numeral.exists_place {text : List Char} {q : ℚ} (h : Numeral text q) :
    ∃ k, q = (Nat.ofDigitChars 10 (text.filter Char.isDigit) 0 : Nat) / 10 ^ k := by
  cases h with
  | whole _ hd => exact ⟨0, by rw [filter_digits hd, pow_zero, div_one]⟩
  | @decimal ds fs _ hd _ hd' =>
      refine ⟨fs.length, ?_⟩
      rw [List.filter_append, List.filter_cons_of_neg (by decide), filter_digits hd, filter_digits hd', decimal_value]

/-- The value of a numeral that is not zero is that of its significant digits at some place. -/
theorem Numeral.exists_significant {text : List Char} {q : ℚ} (h : Numeral text q) (hq : q ≠ 0) :
    ∃ (b : Nat) (e : ℤ), q = b * 10 ^ e ∧ (Nat.toDigits 10 b).length ≤ (significant text).length := by
  obtain ⟨k, rfl⟩ := h.exists_place
  obtain ⟨z, hz⟩ := ofDigitChars_significant text
  have hten : (10 : ℚ) ≠ 0 := by norm_num
  have hd : ∀ c ∈ significant text, c.isDigit := fun c hc =>
    (List.mem_filter.1 ((List.dropWhile_suffix _).subset ((List.rdropWhile_prefix _ _).subset hc))).2
  have hlt := ofDigitChars_lt hd 0
  rw [Nat.zero_add, Nat.one_mul] at hlt
  rw [hz] at hq
  rw [hz]
  refine ⟨Nat.ofDigitChars 10 (significant text) 0, z - k, ?_, ?_⟩
  · rw [zpow_sub₀ hten, zpow_natCast, zpow_natCast]
    push_cast
    rw [mul_div_assoc]
  · have hpos : 0 < (significant text).length := by
      refine List.length_pos_iff.2 fun h => hq ?_
      rw [h]
      simp
    exact (Nat.length_toDigits_le_iff (by decide) hpos).2 hlt

theorem pieces_minus (text : List Char) : pieces ('-' :: text) = ⟨.token .minus, ['-']⟩ :: pieces text := by
  have hc : Piece.cut '-' text = ⟨⟨.token .minus, ['-']⟩, text, 0⟩ := rfl
  rw [pieces, hc]

namespace Number

variable {x : Number}

/-- The text of a finite number is a numeral that is read as its size, after a minus if it has a sign. -/
theorem text_eq (h : x.magnitude < infinity) :
    ∃ lexeme q, x.text = (if x.isNegative then "-" else "") ++ String.ofList lexeme ∧ Numeral lexeme q ∧
      ofDigits lexeme = ofMagnitude x.magnitude ∧
      (significant lexeme).length ≤ if x.magnitude = 0 then 0 else (Nat.toDigits 10 x.shortest.digits).length := by
  have hsign : ∀ lexeme : List Char, String.ofList (if x.isNegative then '-' :: lexeme else lexeme) =
      (if x.isNegative then "-" else "") ++ String.ofList lexeme := by
    intro lexeme
    split
    · rw [← List.singleton_append, String.ofList_append]
    · exact (String.empty_append).symm
  have hnan : x.isNaN = false := decide_eq_false (Nat.not_lt.2 h.le)
  unfold text
  rw [hnan, if_neg Bool.false_ne_true]
  dsimp only
  rw [if_neg h.ne, hsign]
  by_cases hm : x.magnitude = 0
  · have hzero : Numeral ['0'] (Nat.ofDigitChars 10 ['0'] 0 : Nat) :=
      .whole (List.cons_ne_nil _ _) (List.all_eq_true.1 rfl)
    refine ⟨['0'], _, by rw [if_pos hm], hzero, ?_, by rw [if_pos hm]; decide⟩
    rw [hm, ofDigits_eq_iff hzero (by decide)]
    have hnear := near_unitsAt 0
    rwa [show Nat.ofDigitChars 10 ['0'] 0 = 0 from rfl, Nat.cast_zero, zero_mul, ← Nat.cast_zero]
  · have hpos : 0 < x.magnitude := Nat.pos_of_ne_zero hm
    have hnum := x.shortest.numeral_text
    refine ⟨x.shortest.text, _, by rw [if_neg hm], hnum, ?_, ?_⟩
    · rw [ofDigits_eq_iff hnum h]
      have hnear := near_shortest hpos
      rw [gridPoint_eq] at hnear
      exact hnear
    · rw [if_neg hm]
      exact x.shortest.length_significant_text

/-- A numeral that is read as a finite number has as many significant digits as its shortest decimal at least. -/
theorem shortest_le_significant (hx : 0 < x.magnitude) (h : x.magnitude < infinity) {text : List Char} {q : ℚ}
    (hn : Numeral text q) (he : ofDigits text = ofMagnitude x.magnitude) :
    (Nat.toDigits 10 x.shortest.digits).length ≤ (significant text).length := by
  have hnear := (ofDigits_eq_iff hn h).1 he
  have hq : q ≠ 0 := by
    rintro rfl
    rw [zero_mul] at hnear
    exact not_near_zero hx hnear
  obtain ⟨b, e, rfl, hb⟩ := hn.exists_significant hq
  exact (shortest_minimal hx hnear).trans hb

/-- Printed numbers read back. The text of a finite number, as a literal and as a value, is scanned without an error as
one number, after one minus if there is a sign, and that number is the size of what was printed, bit by bit. Whatever
token of a source has that value has no fewer significant digits. -/
theorem text_reads_back (x : Number) (h : x.magnitude < infinity) :
    (Literal.number x).display = x.text ∧ (Value.number x).display = x.text ∧
      Scan.errors (Scan.ofSource x.text) = [] ∧
      (∃ lexeme, x.text = (if x.isNegative then "-" else "") ++ lexeme ∧
        Scan.tokens (Scan.ofSource x.text) =
          (if x.isNegative then [⟨.minus, "-", none, 1⟩] else []) ++
            [⟨.number, lexeme, some (.number (ofMagnitude x.magnitude)), 1⟩, endToken 1]) ∧
      ∀ source, ∀ t ∈ Scan.tokens (Scan.ofSource source), t.literal = some (.number (ofMagnitude x.magnitude)) →
        (significant x.text.toList).length ≤ (significant t.lexeme.toList).length := by
  obtain ⟨lexeme, q, htext, hnum, hread, hdigits⟩ := text_eq h
  have hscan : Scan.ofSource x.text =
      (if x.isNegative then [.token ⟨.minus, "-", none, 1⟩] else []) ++
        [.token ⟨.number, String.ofList lexeme, some (.number (ofMagnitude x.magnitude)), 1⟩, .token (endToken 1)] := by
    rw [← hread, ← hnum.items, htext, Scan.ofSource_eq_items]
    split
    · have hminus : ("-" ++ String.ofList lexeme).toList = '-' :: lexeme := by
        rw [String.toList_append, String.toList_ofList, String.toList_ofList]
        rfl
      rw [hminus, pieces_minus]
      rfl
    · rw [String.empty_append, String.toList_ofList]
      rfl
  refine ⟨rfl, rfl, ?_, ⟨String.ofList lexeme, htext, ?_⟩, fun source t ht hv => ?_⟩
  · rw [hscan]
    split <;> rfl
  · rw [hscan]
    split <;> rfl
  · have hsig : significant x.text.toList = significant lexeme := by
      rw [htext, String.toList_append, String.toList_ofList, significant, List.filter_append]
      split <;> rfl
    rw [hsig]
    refine hdigits.trans ?_
    split
    · exact Nat.zero_le _
    · next hm =>
      obtain ⟨q', hq', he⟩ := Scan.numeral_of_mem ht hv
      exact shortest_le_significant (Nat.pos_of_ne_zero hm) h hq' he

/-- The least number but zero, with a sign. -/
theorem text_reads_back_least : (⟨0x8000000000000001⟩ : Number).magnitude < infinity ∧
    Scan.errors (Scan.ofSource (⟨0x8000000000000001⟩ : Number).text) = [] ∧
      ∃ lexeme, Scan.tokens (Scan.ofSource (⟨0x8000000000000001⟩ : Number).text) =
        [⟨.minus, "-", none, 1⟩, ⟨.number, lexeme, some (.number ⟨1⟩), 1⟩, endToken 1] := by
  have hfinite : (⟨0x8000000000000001⟩ : Number).magnitude < infinity := by decide
  obtain ⟨-, -, herrors, ⟨lexeme, -, htokens⟩, -⟩ := text_reads_back ⟨0x8000000000000001⟩ hfinite
  exact ⟨hfinite, herrors, lexeme, htokens⟩

end Number

end Treewalk
