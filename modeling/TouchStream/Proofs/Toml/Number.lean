import TouchStream.Proofs.Number.Numeral
import TouchStream.Toml.Scalar

/-!
# TOML numerals read back

A numeral without an exponent, at the end of its line, is read as the number that it stands for
(`Toml.scalar_numeral`). Before a scalar is read as a number it is tried as a date and as a time, so what has to
be shown first is that a numeral is neither.

* `digitRun_append`: a run of digits ends where no digit or underscore follows.
* `moment_none`, `moment_none_of_head`: nothing that is printed begins with a date or a time.
* `numeral_text`: a numeral is read back.
-/

namespace TouchStream.Toml

/-! ## Runs of digits -/

theorem isDigit_iff {c : Char} : c.isDigit = true ↔ '0' ≤ c ∧ c ≤ '9' := by
  simp [Char.isDigit, Char.le_def]

theorem isSome_digitIn (c : Char) : (digitIn? 10 c).isSome = c.isDigit := by
  by_cases hc : '0' ≤ c ∧ c ≤ '9'
  · have hvalue : c.toNat - '0'.toNat < 10 := by
      have h : c.toNat ≤ 57 := hc.2
      have : '0'.toNat = 48 := rfl
      omega
    rw [digitIn?, if_pos hc, isDigit_iff.mpr hc]
    simpa using hvalue
  · have hno : c.isDigit = false := by
      rw [← Bool.not_eq_true, isDigit_iff]
      exact hc
    rw [digitIn?, if_neg hc, hno]
    split
    · simp
    · split
      · simp
      · rfl

theorem isSpaced_digits {ds : List Char} (hne : ds ≠ []) (hds : ∀ c ∈ ds, c.isDigit = true) :
    isSpaced ds = true := by
  have hunderscore : ('_' : Char).isDigit ≠ true := by decide
  fun_induction isSpaced ds with
  | case1 => exact absurd rfl hne
  | case2 => exact absurd (hds '_' (by simp)) hunderscore
  | case3 => rfl
  | case4 => exact absurd (hds '_' (by simp)) hunderscore
  | case5 c rest _ hrest _ ih =>
    exact ih (by simpa using hrest) fun d hd => hds d (List.mem_cons_of_mem c hd)

/-- A text that does not go on with a run of digits before it. -/
def EndsDigits (rest : List Char) : Prop := ∀ c ∈ rest.head?, c.isDigit = false ∧ c ≠ '_'

theorem digitRun_append {ds rest : List Char} (hne : ds ≠ []) (hds : ∀ c ∈ ds, c.isDigit = true)
    (hrest : EndsDigits rest) : digitRun? 10 (ds ++ rest) = some (ds, rest) := by
  have hspan : (ds ++ rest).span (fun c => c == '_' || (digitIn? 10 c).isSome) = (ds, rest) := by
    apply span_append
    · intro c hc
      rw [isSome_digitIn, hds c hc, Bool.or_true]
    · intro c hc
      obtain ⟨hdigit, hunderscore⟩ := hrest c hc
      rw [isSome_digitIn, hdigit, beq_eq_false_iff_ne.mpr hunderscore, Bool.or_false]
  have hfilter : ds.filter (· ≠ '_') = ds := by
    rw [List.filter_eq_self]
    intro c hc
    exact decide_eq_true (ne_of_kind (hds c hc) (by decide))
  rw [digitRun?, hspan]
  simp only [isSpaced_digits hne hds, hfilter, if_true]

/-! ## Neither dates nor times -/

theorem fixedNumber_some {digits low high n : ℕ} {cs rest : List Char}
    (h : fixedNumber? digits low high cs = some (n, rest)) :
    (cs.take digits).length = digits ∧ (∀ c ∈ cs.take digits, c.isDigit = true) ∧ rest = cs.drop digits := by
  rw [fixedNumber?] at h
  split at h
  · rename_i hall
    obtain ⟨hlength, hdigits, -⟩ := hall
    cases h
    exact ⟨hlength, List.all_eq_true.mp hdigits, rfl⟩
  · cases h

/-- After some digits of a number stands another one, or what ends the number. -/
theorem after_digits {ds rest : List Char} (hds : ∀ c ∈ ds, c.isDigit = true)
    (hrest : ∀ c ∈ rest.head?, c.isDigit = false ∧ c ≠ '-' ∧ c ≠ ':') {k : ℕ}
    (hk : ((ds ++ rest).take k).length = k) (htake : ∀ c ∈ (ds ++ rest).take k, c.isDigit = true) :
    after? '-' ((ds ++ rest).drop k) = none ∧ after? ':' ((ds ++ rest).drop k) = none := by
  have hnot : ∀ c ∈ ((ds ++ rest).drop k).head?, c ≠ '-' ∧ c ≠ ':' := by
    intro c hc
    rw [List.head?_drop] at hc
    rcases Nat.lt_or_ge k ds.length with hlt | hge
    · rw [List.getElem?_append_left hlt, List.getElem?_eq_getElem hlt, Option.mem_some_iff] at hc
      have := hds c (hc ▸ List.getElem_mem hlt)
      constructor <;> rintro rfl <;> exact absurd this (by decide)
    · cases rest with
      | nil =>
        rw [List.append_nil, List.getElem?_eq_none hge] at hc
        cases hc
      | cons r rest =>
        obtain ⟨hdigit, hminus, hcolon⟩ := hrest r (by simp)
        rcases Nat.eq_or_lt_of_le hge with heq | hlt
        · rw [← heq, List.getElem?_append_right (Nat.le_refl _), Nat.sub_self] at hc
          obtain rfl : r = c := by simpa using hc
          exact ⟨hminus, hcolon⟩
        · -- the digits would reach beyond what ends the number
          have hmem : r ∈ (ds ++ r :: rest).take k := by
            obtain ⟨j, hj⟩ := Nat.exists_eq_succ_of_ne_zero (Nat.sub_ne_zero_of_lt hlt)
            rw [List.take_append, hj, List.take_succ_cons]
            exact List.mem_append_right _ List.mem_cons_self
          rw [htake r hmem] at hdigit
          cases hdigit
  cases h : (ds ++ rest).drop k with
  | nil => exact ⟨rfl, rfl⟩
  | cons c cs =>
    rw [h] at hnot
    obtain ⟨hminus, hcolon⟩ := hnot c (by simp)
    have h1 : ('-' == c) = false := beq_eq_false_iff_ne.mpr (Ne.symm hminus)
    have h2 : (':' == c) = false := beq_eq_false_iff_ne.mpr (Ne.symm hcolon)
    simp [after?, h1, h2]

theorem moment_none {ds rest : List Char} (hds : ∀ c ∈ ds, c.isDigit = true)
    (hrest : ∀ c ∈ rest.head?, c.isDigit = false ∧ c ≠ '-' ∧ c ≠ ':') : moment? (ds ++ rest) = none := by
  have hdate : date? (ds ++ rest) = none := by
    unfold date?
    cases hyear : fixedNumber? 4 0 9999 (ds ++ rest) with
    | none => rfl
    | some found =>
      obtain ⟨year, cs⟩ := found
      obtain ⟨hlength, hdigits, rfl⟩ := fixedNumber_some hyear
      simp only [bind, Option.bind, (after_digits hds hrest hlength hdigits).1]
  have htime : time? (ds ++ rest) = none := by
    unfold time?
    cases hhour : fixedNumber? 2 0 23 (ds ++ rest) with
    | none => rfl
    | some found =>
      obtain ⟨hour, cs⟩ := found
      obtain ⟨hlength, hdigits, rfl⟩ := fixedNumber_some hhour
      simp only [bind, Option.bind, (after_digits hds hrest hlength hdigits).2]
  rw [moment?, momentEnd?, hdate]
  simp only [htime, Option.map_none]

theorem fixedNumber_none {c : Char} {cs : List Char} (hc : c.isDigit = false) (digits low high : ℕ) :
    fixedNumber? (digits + 1) low high (c :: cs) = none := by
  cases h : fixedNumber? (digits + 1) low high (c :: cs) with
  | none => rfl
  | some found =>
    obtain ⟨-, hdigits, -⟩ := fixedNumber_some h
    rw [hdigits c (by simp)] at hc
    cases hc

/-- Dates and times begin with a digit. -/
theorem moment_none_of_head {c : Char} {cs : List Char} (hc : c.isDigit = false) : moment? (c :: cs) = none := by
  have hdate : date? (c :: cs) = none := by
    unfold date?
    rw [fixedNumber_none hc]
    rfl
  have htime : time? (c :: cs) = none := by
    unfold time?
    rw [fixedNumber_none hc]
    rfl
  rw [moment?, momentEnd?, hdate]
  simp only [htime, Option.map_none]

/-! ## Numbers -/

/-- A text that does not go on with a numeral before it. -/
def EndsNumeral (rest : List Char) : Prop :=
  ∀ c ∈ rest.head?, c.isDigit = false ∧ c ≠ '_' ∧ c ≠ '.' ∧ c ≠ 'e' ∧ c ≠ 'E'

/-- The point of a numeral with the digits after it. -/
def pointText (fraction : List Char) : List Char := if fraction.isEmpty then [] else '.' :: fraction

section Ends

variable {rest : List Char}

theorem EndsNumeral.endsDigits (h : EndsNumeral rest) : EndsDigits rest := fun c hc => ⟨(h c hc).1, (h c hc).2.1⟩

theorem endsDigits_point (fraction : List Char) (h : EndsNumeral rest) : EndsDigits (pointText fraction ++ rest) := by
  cases fraction with
  | nil => exact h.endsDigits
  | cons d ds =>
    intro c hc
    obtain rfl : '.' = c := by simpa [pointText] using hc
    decide

theorem exponent_none (h : EndsNumeral rest) : exponent? rest = some (none, rest) := by
  cases rest with
  | nil => rfl
  | cons c cs =>
    obtain ⟨-, -, -, he, hE⟩ := h c (by simp)
    have h1 : (c == 'e') = false := beq_eq_false_iff_ne.mpr he
    have h2 : (c == 'E') = false := beq_eq_false_iff_ne.mpr hE
    simp [exponent?, h1, h2]

theorem fraction_text {fraction : List Char} (hdigits : ∀ c ∈ fraction, c.isDigit = true) (h : EndsNumeral rest) :
    fraction? (pointText fraction ++ rest) = some (fraction, rest) := by
  cases fraction with
  | nil =>
    show fraction? rest = _
    unfold fraction?
    split
    · exact absurd rfl (h '.' (by simp)).2.2.1
    · rfl
  | cons d ds =>
    show digitRun? 10 (d :: ds ++ rest) = _
    exact digitRun_append (List.cons_ne_nil d ds) hdigits h.endsDigits

/-- A numeral without an exponent is read back after its sign. -/
theorem numeral_text {n : Numeral} (h : n.IsWritten) (hexp : n.exponent = none) (hrest : EndsNumeral rest) :
    numeral? n.negative (n.whole ++ (pointText n.fraction ++ rest)) = some (n, rest) := by
  have hwhole := digitRun_append h.whole_ne_nil h.whole_digits (endsDigits_point n.fraction hrest)
  have hfraction := fraction_text h.fraction_digits hrest
  have hexponent := exponent_none hrest
  obtain ⟨negative, whole, fraction, exponent⟩ := n
  obtain rfl : exponent = none := hexp
  rw [numeral?, hwhole]
  split
  · rename_i heq
    cases heq
  · rename_i heq
    -- a leading zero stands alone
    obtain ⟨hzero, -⟩ := Prod.mk.inj (Option.some.inj heq)
    have hone := h.whole_head (by rw [hzero]; rfl)
    rw [hzero] at hone
    cases hone
  · rename_i heq
    obtain ⟨rfl, rfl⟩ := Prod.mk.inj (Option.some.inj heq)
    simp only [hfraction, hexponent, Option.map_some]

end Ends

theorem signedNumber_digit {d : Char} {cs : List Char} (hd : d.isDigit = true) (negative : Bool) :
    signedNumber? negative (d :: cs) =
      match numeral? negative (d :: cs) with
      | none => none
      | some (n, rest) => (numeralDatum? n).map (·, rest) := by
  unfold signedNumber?
  split
  · rename_i heq
    rw [(List.cons.inj heq).1] at hd
    exact absurd hd (by decide)
  · rename_i heq
    rw [(List.cons.inj heq).1] at hd
    exact absurd hd (by decide)
  · rfl

theorem scalar_minus (cs : List Char) : scalar? ('-' :: cs) = signedNumber? true cs := by
  show (moment? ('-' :: cs)).or (number? ('-' :: cs)) = _
  rw [moment_none_of_head (by decide), Option.none_or]
  rfl

/-- A zero is not the beginning of an integer in another base where no letter follows it. -/
theorem scalar_digit {d : Char} {ds after : List Char} (hd : d.isDigit = true) (hzero : d = '0' → ds = [])
    (hafter : ∀ c ∈ after.head?, c ≠ 'x' ∧ c ≠ 'o' ∧ c ≠ 'b') (hmoment : moment? (d :: (ds ++ after)) = none) :
    scalar? (d :: (ds ++ after)) = signedNumber? false (d :: (ds ++ after)) := by
  have hother : ∀ {c : Char} {cs : List Char}, c.isDigit = false → d :: (ds ++ after) ≠ c :: cs := by
    intro c cs hc heq
    rw [(List.cons.inj heq).1, hc] at hd
    cases hd
  have hscalar : scalar? (d :: (ds ++ after)) = number? (d :: (ds ++ after)) := by
    unfold scalar?
    split
    · exact absurd ‹_› (hother (by decide))
    · exact absurd ‹_› (hother (by decide))
    · exact absurd ‹_› (hother (by decide))
    · exact absurd ‹_› (hother (by decide))
    · rw [hmoment, Option.none_or]
  rw [hscalar]
  unfold number?
  split
  · rename_i heq
    obtain ⟨h0, htail⟩ := List.cons.inj heq
    rw [hzero h0, List.nil_append] at htail
    exact absurd rfl (hafter 'x' (by rw [htail]; rfl)).1
  · rename_i heq
    obtain ⟨h0, htail⟩ := List.cons.inj heq
    rw [hzero h0, List.nil_append] at htail
    exact absurd rfl (hafter 'o' (by rw [htail]; rfl)).2.1
  · rename_i heq
    obtain ⟨h0, htail⟩ := List.cons.inj heq
    rw [hzero h0, List.nil_append] at htail
    exact absurd rfl (hafter 'b' (by rw [htail]; rfl)).2.2
  · exact absurd ‹_› (hother (by decide))
  · exact absurd ‹_› (hother (by decide))
  · rfl

/-- **A numeral at the end of a line is read back.** -/
theorem scalar_numeral {n : Numeral} (h : n.IsWritten) (hexp : n.exponent = none) (tail : List Char) :
    scalar? (n.text ++ '\n' :: tail) = (numeralDatum? n).map (·, '\n' :: tail) := by
  have hline : EndsNumeral ('\n' :: tail) := by simp [EndsNumeral]
  have hnumeral := numeral_text h hexp hline
  have hafter : ∀ c ∈ (pointText n.fraction ++ '\n' :: tail).head?, c = '.' ∨ c = '\n' := by
    cases n.fraction <;> simp [pointText]
  have htext : n.text ++ '\n' :: tail =
      (if n.negative then ['-'] else []) ++ (n.whole ++ (pointText n.fraction ++ '\n' :: tail)) := by
    rw [Numeral.text, hexp, Numeral.exponentText, pointText]
    simp
  rw [htext]
  generalize pointText n.fraction ++ '\n' :: tail = after at *
  have hmoment : moment? (n.whole ++ after) = none := by
    apply moment_none h.whole_digits
    intro c hc
    rcases hafter c hc with rfl | rfl <;> decide
  obtain ⟨d, ds, hwhole⟩ := List.exists_cons_of_ne_nil h.whole_ne_nil
  have hd : d.isDigit = true := h.whole_digits d (by rw [hwhole]; exact List.mem_cons_self)
  rw [hwhole, List.cons_append] at hnumeral hmoment ⊢
  cases hneg : n.negative with
  | true =>
    rw [hneg] at hnumeral
    show scalar? ('-' :: d :: (ds ++ after)) = _
    rw [scalar_minus, signedNumber_digit hd, hnumeral]
  | false =>
    rw [hneg] at hnumeral
    show scalar? (d :: (ds ++ after)) = _
    have hzero : d = '0' → ds = [] := by
      rintro rfl
      have hone := h.whole_head (by rw [hwhole]; rfl)
      rw [hwhole] at hone
      exact (List.cons.inj hone).2
    have hbase : ∀ c ∈ after.head?, c ≠ 'x' ∧ c ≠ 'o' ∧ c ≠ 'b' := by
      intro c hc
      rcases hafter c hc with rfl | rfl <;> decide
    rw [scalar_digit hd hzero hbase hmoment, signedNumber_digit hd, hnumeral]

end TouchStream.Toml
