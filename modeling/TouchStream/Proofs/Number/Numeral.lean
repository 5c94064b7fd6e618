import TouchStream.Number.Decimal
import Mathlib.Algebra.Ring.Nat
import Mathlib.Data.List.TakeDrop

/-!
# Reading written numerals

A numeral that is well written (`Numeral.IsWritten`) is scanned to its end wherever the text after
it cannot go on with it (`Numeral.Stops`).

* `digitsValue_digitsOf`, `isDigit_of_mem_digitsOf`: the digits of a number stand for it.
* `Numeral.scan_text`: what is scanned is the numeral that was written.
* `Numeral.isWritten_ofInt`, `Numeral.integer_ofInt`: integers are well written.
-/

namespace TouchStream

/-! ## Digits -/

theorem digitsValue_eq (ds : List Char) : digitsValue ds = Nat.ofDigitChars 10 ds 0 :=
  Nat.ofDigitChars_eq_foldl.symm

theorem digitsValue_digitsOf (n : Nat) : digitsValue (digitsOf n) = n := by
  rw [digitsValue_eq, digitsOf, Nat.ofDigitChars_ten_toDigits]

theorem isDigit_of_mem_digitsOf {n : Nat} {c : Char} (h : c ∈ digitsOf n) : c.isDigit = true :=
  Nat.isDigit_of_mem_toDigits (by decide) (by decide) h

theorem digitsOf_ne_nil (n : Nat) : digitsOf n ≠ [] := Nat.toDigits_ne_nil

theorem digitsOf_zero : digitsOf 0 = ['0'] := Nat.toDigits_zero 10

/-- Only the digits of zero begin with a zero. -/
theorem head_digitsOf {n : Nat} (h : n ≠ 0) : (digitsOf n).head? ≠ some '0' := by
  induction n using Nat.strongRecOn with
  | ind n ih =>
    rw [digitsOf, Nat.toDigits_eq_if (by decide)]
    split
    · simpa using h
    · rename_i hge
      obtain ⟨d, ds, hds⟩ := List.exists_cons_of_ne_nil (digitsOf_ne_nil (n / 10))
      have hhead := ih (n / 10) (by omega) (by omega)
      rw [digitsOf] at hds hhead
      rw [hds] at hhead ⊢
      exact hhead

theorem lt_pow_length_digitsOf (n : Nat) : n < 10 ^ (digitsOf n).length :=
  (Nat.length_toDigits_le_iff (by decide) (List.length_pos_iff.mpr (digitsOf_ne_nil n))).mp (Nat.le_refl _)

theorem pow_length_digitsOf_le {n : Nat} (h : 0 < n) : 10 ^ ((digitsOf n).length - 1) ≤ n := by
  by_cases hone : (digitsOf n).length - 1 = 0
  · rw [hone]
    omega
  · refine Nat.le_of_not_lt fun hlt => ?_
    have hle : (digitsOf n).length ≤ (digitsOf n).length - 1 :=
      (Nat.length_toDigits_le_iff (by decide) (Nat.pos_of_ne_zero hone)).mpr hlt
    omega

theorem digitsValue_append (ds es : List Char) :
    digitsValue (ds ++ es) = digitsValue ds * 10 ^ es.length + digitsValue es := by
  rw [digitsValue_eq, digitsValue_eq, digitsValue_eq, Nat.ofDigitChars_append,
    Nat.ofDigitChars_eq_ofDigitChars_zero, Nat.mul_comm]

theorem digitsValue_zeros (n : Nat) : digitsValue (List.replicate n '0') = 0 := by
  rw [digitsValue_eq, Nat.ofDigitChars_replicate_zero, Nat.mul_zero]

/-! ## Runs of characters -/

theorem ne_of_kind {kind : Char → Bool} {c d : Char} (hc : kind c = true) (hd : kind d = false) : c ≠ d := by
  rintro rfl
  rw [hc] at hd
  cases hd

/-- A run of characters of a kind ends where another one follows. -/
theorem span_append {kind : Char → Bool} {run rest : List Char} (hrun : ∀ c ∈ run, kind c = true)
    (hrest : ∀ c ∈ rest.head?, kind c = false) : (run ++ rest).span kind = (run, rest) := by
  have hstop : rest.takeWhile kind = [] ∧ rest.dropWhile kind = rest := by
    cases rest with
    | nil => exact ⟨rfl, rfl⟩
    | cons c cs =>
      have hc := hrest c (by simp)
      simp [hc]
  rw [List.span_eq_takeWhile_dropWhile, List.takeWhile_append_of_pos hrun, List.dropWhile_append_of_pos hrun,
    hstop.1, hstop.2, List.append_nil]

theorem scanDigits_append {ds rest : List Char} (hds : ∀ c ∈ ds, c.isDigit = true)
    (hrest : ∀ c ∈ rest.head?, c.isDigit = false) : Numeral.scanDigits (ds ++ rest) = (ds, rest) :=
  span_append hds hrest

namespace Numeral

/-! ## Well written numerals -/

/-- The digits of a numeral are digits, and no superfluous zero leads them. -/
structure IsWritten (n : Numeral) : Prop where
  whole_ne_nil : n.whole ≠ []
  whole_digits : ∀ c ∈ n.whole, c.isDigit = true
  whole_head : n.whole.head? = some '0' → n.whole = ['0']
  fraction_digits : ∀ c ∈ n.fraction, c.isDigit = true

/-- A text that cannot go on with a numeral before it. -/
def Stops (rest : List Char) : Prop :=
  ∀ c ∈ rest.head?, c.isDigit = false ∧ c ≠ '.' ∧ c ≠ 'e' ∧ c ≠ 'E'

theorem stops_nil : Stops [] := by simp [Stops]

theorem stops_cons {c : Char} {cs : List Char} :
    Stops (c :: cs) ↔ c.isDigit = false ∧ c ≠ '.' ∧ c ≠ 'e' ∧ c ≠ 'E' := by
  simp [Stops]

variable {n : Numeral} {rest : List Char}

theorem scanExponent_text (e : Option Int) (hrest : Stops rest) :
    scanExponent (exponentText e ++ rest) = some (e, rest) := by
  cases e with
  | none =>
    cases rest with
    | nil => rfl
    | cons c cs =>
      obtain ⟨-, -, he, hE⟩ := stops_cons.mp hrest
      simp only [exponentText, List.nil_append, scanExponent]
      split
      · rename_i h
        exact absurd (List.cons.inj h).1 he
      · rename_i h
        exact absurd (List.cons.inj h).1 hE
      · rfl
  | some e =>
    have hdigits : scanDigits (digitsOf e.natAbs ++ rest) = (digitsOf e.natAbs, rest) :=
      scanDigits_append (fun c hc => isDigit_of_mem_digitsOf hc) (fun c hc => (hrest c hc).1)
    have hne := digitsOf_ne_nil e.natAbs
    have hvalue := digitsValue_digitsOf e.natAbs
    rw [exponentText]
    generalize digitsOf e.natAbs = ds at hdigits hne hvalue ⊢
    obtain ⟨d, ds, rfl⟩ := List.exists_cons_of_ne_nil hne
    by_cases hneg : e < 0
    · have hback : -((e.natAbs : Nat) : Int) = e := by omega
      simp only [hneg, if_true, List.cons_append, scanExponent, scanExponentDigits, scanSign]
      rw [← List.cons_append, hdigits]
      simp only [hvalue, hback]
    · have hback : ((e.natAbs : Nat) : Int) = e := by omega
      simp only [hneg, if_false, List.cons_append, scanExponent, scanExponentDigits, scanSign]
      rw [← List.cons_append, hdigits]
      simp only [hvalue, hback, Bool.false_eq_true, if_false]

/-- What follows the fraction of a numeral is no digit. -/
theorem exponentText_stops (e : Option Int) (hrest : Stops rest) :
    ∀ c ∈ (exponentText e ++ rest).head?, c.isDigit = false := by
  cases e with
  | none => exact fun c hc => (hrest c hc).1
  | some e =>
    intro c hc
    obtain rfl : 'e' = c := by simpa [exponentText] using hc
    rfl

theorem scanFraction_text (h : n.IsWritten) (hrest : Stops rest) :
    scanFraction ((if n.fraction.isEmpty then [] else '.' :: n.fraction) ++
      (exponentText n.exponent ++ rest)) = some (n.fraction, exponentText n.exponent ++ rest) := by
  have hstop := exponentText_stops n.exponent hrest
  cases hf : n.fraction with
  | nil =>
    have hpoint : ∀ cs, exponentText n.exponent ++ rest ≠ '.' :: cs := by
      intro cs hcs
      cases he : n.exponent with
      | none =>
        rw [he] at hcs
        exact (hrest '.' (by simp only [exponentText, List.nil_append] at hcs; simp [hcs])).2.1 rfl
      | some e =>
        rw [he] at hcs
        simp [exponentText] at hcs
    show scanFraction (exponentText n.exponent ++ rest) = _
    generalize exponentText n.exponent ++ rest = cs at hpoint
    unfold scanFraction
    split
    · exact absurd rfl (hpoint _)
    · rfl
  | cons d ds =>
    have hdigits := scanDigits_append (hf ▸ h.fraction_digits) hstop
    simp only [List.isEmpty_cons, Bool.false_eq_true, if_false, List.cons_append, scanFraction]
    rw [← List.cons_append, hdigits]

theorem scanUnsigned_text (h : n.IsWritten) (hrest : Stops rest) :
    scanUnsigned n.negative (n.whole ++ ((if n.fraction.isEmpty then [] else '.' :: n.fraction) ++
      (exponentText n.exponent ++ rest))) = some (n, rest) := by
  have hfraction := scanFraction_text h hrest
  have hexponent := scanExponent_text n.exponent hrest
  have hstop : ∀ c ∈ ((if n.fraction.isEmpty then [] else '.' :: n.fraction) ++
      (exponentText n.exponent ++ rest)).head?, c.isDigit = false := by
    intro c hc
    cases hf : n.fraction with
    | nil =>
      rw [hf] at hc
      exact exponentText_stops n.exponent hrest c hc
    | cons d ds =>
      rw [hf] at hc
      obtain rfl : '.' = c := by simpa using hc
      rfl
  have hdigits := scanDigits_append h.whole_digits hstop
  obtain ⟨negative, whole, fraction, exponent⟩ := n
  obtain ⟨d, ds, rfl⟩ := List.exists_cons_of_ne_nil h.whole_ne_nil
  rw [scanUnsigned, hdigits]
  cases ds with
  | nil => simp only [hfraction, hexponent]
  | cons e ds =>
    have hzero : d ≠ '0' := by
      rintro rfl
      cases h.whole_head rfl
    split
    · rename_i heq
      cases heq
    · rename_i heq
      exact absurd (List.cons.inj (Prod.mk.inj heq).1).1 hzero
    · rename_i heq
      obtain ⟨rfl, rfl⟩ := Prod.mk.inj heq
      simp only [hfraction, hexponent]

/-- A numeral that is well written is read back, whatever follows that cannot go on with it. -/
theorem scan_text (h : n.IsWritten) (hrest : Stops rest) : scan (n.text ++ rest) = some (n, rest) := by
  have hunsigned := scanUnsigned_text h hrest
  rw [text, List.append_assoc, List.append_assoc, List.append_assoc]
  cases hneg : n.negative with
  | true =>
    rw [hneg] at hunsigned
    exact hunsigned
  | false =>
    rw [hneg] at hunsigned
    obtain ⟨d, ds, hwhole⟩ := List.exists_cons_of_ne_nil h.whole_ne_nil
    have hd : d ≠ '-' := by
      rintro rfl
      have := h.whole_digits '-' (by simp [hwhole])
      simp at this
    rw [hwhole] at hunsigned ⊢
    simp only [Bool.false_eq_true, if_false, List.nil_append, List.cons_append] at hunsigned ⊢
    unfold scan
    split
    · rename_i heq
      exact absurd (List.cons.inj heq).1 hd
    · exact hunsigned

/-- The text of a numeral begins with a minus or a digit. -/
theorem text_head (h : n.IsWritten) :
    ∃ c cs, n.text = c :: cs ∧ (c = '-' ∨ c.isDigit = true) := by
  obtain ⟨d, ds, hwhole⟩ := List.exists_cons_of_ne_nil h.whole_ne_nil
  rw [text, hwhole]
  cases n.negative with
  | true => exact ⟨'-', _, rfl, Or.inl rfl⟩
  | false => exact ⟨d, _, rfl, Or.inr (h.whole_digits d (by simp [hwhole]))⟩

/-! ## Integers -/

theorem isWritten_ofInt (i : Int) : (ofInt i).IsWritten where
  whole_ne_nil := digitsOf_ne_nil _
  whole_digits := fun _ hc => isDigit_of_mem_digitsOf hc
  whole_head := by
    intro hhead
    by_cases hi : i.natAbs = 0
    · simp only [ofInt, hi, digitsOf_zero]
    · exact absurd hhead (head_digitsOf hi)
  fraction_digits := by simp [ofInt]

theorem integer_ofInt (i : Int) : (ofInt i).integer = i := by
  simp only [integer, ofInt, digitsValue_digitsOf, decide_eq_true_eq]
  split <;> omega

theorem isInteger_ofInt (i : Int) : (ofInt i).isInteger = true := rfl

end Numeral

end TouchStream
