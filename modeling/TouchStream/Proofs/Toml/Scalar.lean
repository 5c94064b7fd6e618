import TouchStream.Proofs.Number.Shortest
import TouchStream.Proofs.Number.Single
import TouchStream.Proofs.Toml.Number
import TouchStream.Toml.Printer
import TouchStream.Toml.Reader

/-!
# TOML values read back

What is printed for a field is read, at the end of its line, as the data that it stands for
(`Toml.Scalar.scalar_write`). Floating values are written in 64 bits, so nothing is lost on the way there and
back (`Toml.ofDouble_carried`).
-/

namespace TouchStream.Toml

/-! ## Texts -/

/-- A character that is printed as itself between double quotes. -/
def IsPlainChar (c : Char) : Prop := isPrintable c = true ∧ c ≠ '\"' ∧ c ≠ '\\'

instance (c : Char) : Decidable (IsPlainChar c) := inferInstanceAs (Decidable (_ ∧ _ ∧ _))

theorem chars_plain {s : List Char} (hs : ∀ c ∈ s, IsPlainChar c) (tail : List Char) :
    StringForm.chars? ⟨'\"', false⟩ false (s ++ '\"' :: tail) = some (s, tail) := by
  induction s with
  | nil =>
    have hclose : StringForm.close? ⟨'\"', false⟩ ('\"' :: tail) = some ([], tail) := by
      simp [StringForm.close?]
    rw [List.nil_append]
    unfold StringForm.chars?
    rw [hclose]
  | cons c s ih =>
    obtain ⟨hprint, hquote, hslash⟩ := hs c List.mem_cons_self
    have hclose : StringForm.close? ⟨'\"', false⟩ (c :: (s ++ '\"' :: tail)) = none := by
      simp [StringForm.close?, hquote]
    have hline : (c == '\n') = false := beq_eq_false_iff_ne.mpr (ne_of_kind hprint (by decide))
    have hreturn : (c == '\r') = false := beq_eq_false_iff_ne.mpr (ne_of_kind hprint (by decide))
    have hescape : (c == '\\') = false := beq_eq_false_iff_ne.mpr hslash
    rw [List.cons_append]
    unfold StringForm.chars?
    rw [hclose]
    simp only [hline, hreturn, hescape, hprint, Bool.false_and, Bool.false_eq_true, if_false, if_true]
    rw [ih fun d hd => hs d (List.mem_cons_of_mem c hd)]
    rfl

theorem scalar_text {s : String} (hne : s.toList ≠ []) (hs : ∀ c ∈ s.toList, IsPlainChar c) (tail : List Char) :
    scalar? ('\"' :: s.toList ++ ['\"'] ++ tail) = some (.text s, tail) := by
  have hchars := chars_plain hs tail
  have hback : String.ofList s.toList = s := String.ofList_toList
  obtain ⟨c, cs, hcs⟩ := List.exists_cons_of_ne_nil hne
  obtain ⟨-, hquote, -⟩ := hs c (by rw [hcs]; exact List.mem_cons_self)
  have hform : stringForm? ('\"' :: (s.toList ++ '\"' :: tail)) =
      some (⟨'\"', false⟩, s.toList ++ '\"' :: tail) := by
    rw [hcs, List.cons_append]
    unfold stringForm?
    split
    · rename_i heq
      exact absurd (List.cons.inj (List.cons.inj heq).2).1 hquote
    · rename_i heq
      rw [(List.cons.inj heq).2]
    · rename_i heq
      exact absurd (List.cons.inj heq).1 (by decide)
    · rename_i heq
      exact absurd (List.cons.inj heq).1 (by decide)
    · rename_i hother _ _
      exact absurd rfl (hother _)
  rw [List.append_assoc, List.singleton_append, List.cons_append]
  show (string? ('\"' :: (s.toList ++ '\"' :: tail))).map _ = _
  rw [string?, hform]
  simp only [StringForm.tail?, hchars, Option.map_some, hback]

/-! ## Printed values -/

/-- A 32-bit value as it is read from its text. The sign of what is no number is not written. -/
def carried (x : Float32) : Double :=
  let y := Single.toDouble x
  if y.isFinite || y.isInfinite then y else .notANumber

theorem ofDouble_toDouble (x : Float32) : Single.ofDouble (Single.toDouble x) = x := by
  rw [Single.ofDouble, Single.toDouble, BinaryFormat.convert_double_single, Single.ofRank_rank]

theorem ofDouble_carried (x : Float32) : Single.ofDouble (carried x) = x := by
  rw [carried]
  split
  · exact ofDouble_toDouble x
  · rename_i h
    refine Single.eq_of_lt_rank (by decide +kernel) ?_
    -- neither finite nor infinite in 64 bits, so neither in 32
    rw [Bool.or_eq_true, not_or, Double.isFinite, Double.isInfinite, decide_eq_true_eq, beq_iff_eq] at h
    by_contra hle
    rcases (Nat.not_lt.mp hle).lt_or_eq with hlt | heq
    · exact h.1 (BinaryFormat.convert_single_double hlt).1
    · refine h.2 ?_
      rw [Single.toDouble, heq]
      rfl

/-- The data that a printed value stands for. -/
def Scalar.datum : Scalar → Datum
  | text s => .text s
  | boolean b => .boolean b
  | integer n => .integer n
  | single x => .real (carried x)

/-- A value that is printed as it is, without escapes. -/
def Scalar.IsPlain : Scalar → Prop
  | text s => s.toList ≠ [] ∧ ∀ c ∈ s.toList, IsPlainChar c
  | _ => True

-- Through the characters of the text, for there are too many others.
instance : DecidablePred Scalar.IsPlain
  | .text s => decidable_of_iff (s.toList ≠ [] ∧ s.toList.all (fun c => decide (IsPlainChar c)) = true) (by
      simp [Scalar.IsPlain])
  | .boolean _ => isTrue trivial
  | .integer _ => isTrue trivial
  | .single _ => isTrue trivial

/-- A character that begins neither an array nor a table, and no blank. -/
def IsScalarHead (c : Char) : Prop := c ≠ '[' ∧ c ≠ '\x7b' ∧ isBlank c = false

theorem exponent_numeral (f : BinaryFormat) (negative : Bool) (n : ℕ) :
    (floatStyle.numeral f negative n).exponent = none := by
  have hplaced : floatStyle.positional ((f.shortest floatStyle.tie n).2 +
      (digitsOf (f.shortest floatStyle.tie n).1).length - 1) = true := rfl
  rw [FloatStyle.numeral]
  dsimp only
  rw [if_pos hplaced]
  rcases FloatStyle.positionalNumeral_cases negative (digitsOf (f.shortest floatStyle.tie n).1)
    (f.shortest floatStyle.tie n).2 with ⟨-, heq⟩ | ⟨-, -, heq⟩ | ⟨-, -, heq⟩ <;> rw [heq]

theorem numeralDatum_ofInt {n : ℕ} (hn : n ≤ 0x7FFFFFFFFFFFFFFF) :
    numeralDatum? (.ofInt n) = some (.integer n) := by
  rw [numeralDatum?, Numeral.isInteger_ofInt, if_pos rfl, Numeral.integer_ofInt, integerDatum?, if_pos (by omega)]

theorem numeralDatum_double {y : Double} (hy : y.isFinite = true) :
    numeralDatum? (floatStyle.numeral .double y.negative y.rank) = some (.real y) := by
  have hlt : y.rank < BinaryFormat.double.infinityRank := of_decide_eq_true hy
  have hback : Double.ofDecimal (floatStyle.numeral .double y.negative y.rank).decimal = y := by
    rw [Double.ofDecimal, Decimal.rank_double, FloatStyle.rankOf_numeral floatStyle _ hlt]
    congr 1
    exact FloatStyle.negative_numeral _ _ _ _
  have hinf : y.isInfinite = false := beq_eq_false_iff_ne.mpr hlt.ne
  rw [numeralDatum?, FloatStyle.isInteger_numeral, if_neg Bool.false_ne_true, hback]
  simp only [hinf, Bool.false_and, Bool.false_eq_true, if_false]

theorem scalar_single (x : Float32) (tail : List Char) :
    scalar? (writeSingle x ++ '\n' :: tail) = some (.real (carried x), '\n' :: tail) := by
  rw [writeSingle, carried]
  generalize Single.toDouble x = y
  by_cases hfinite : y.isFinite = true
  · rw [if_pos hfinite, hfinite, Bool.true_or, if_pos rfl, scalar_numeral
      (FloatStyle.isWritten_numeral floatStyle _ (of_decide_eq_true hfinite)) (exponent_numeral _ _ _),
      numeralDatum_double hfinite]
    rfl
  · rw [Bool.not_eq_true] at hfinite
    rw [hfinite, if_neg Bool.false_ne_true, Bool.false_or]
    by_cases hinf : y.isInfinite = true
    · have hrank : y = .infinity y.negative := by
        rw [Double.infinity, ← beq_iff_eq.mp hinf]
      rw [hinf, if_pos rfl, if_pos rfl]
      cases hneg : y.negative with
      | true =>
        rw [hrank, hneg]
        exact scalar_minus _
      | false =>
        rw [hrank, hneg]
        show (moment? ('i' :: 'n' :: 'f' :: '\n' :: tail)).or _ = _
        rw [moment_none_of_head (by decide), Option.none_or]
        rfl
    · rw [if_neg hinf, if_neg hinf]
      show (moment? ('n' :: 'a' :: 'n' :: '\n' :: tail)).or _ = _
      rw [moment_none_of_head (by decide), Option.none_or]
      rfl

/-- **A printed value is read back at the end of its line.** -/
theorem Scalar.scalar_write {v : Scalar} {written : List Char} (hv : v.IsPlain) (h : v.write? = some written)
    (tail : List Char) : scalar? (written ++ '\n' :: tail) = some (v.datum, '\n' :: tail) := by
  cases v with
  | text s =>
    obtain rfl := Option.some.inj h
    exact scalar_text hv.1 hv.2 _
  | boolean b =>
    obtain rfl := Option.some.inj h
    cases b <;> rfl
  | integer n =>
    rw [write?] at h
    split at h
    · rename_i hn
      obtain rfl := Option.some.inj h
      have hwritten : digitsOf n = (Numeral.ofInt n).text := by
        simp [Numeral.text, Numeral.ofInt, Numeral.exponentText]
      rw [hwritten, scalar_numeral (Numeral.isWritten_ofInt n) rfl, numeralDatum_ofInt hn]
      rfl
    · cases h
  | single x =>
    obtain rfl := Option.some.inj h
    exact scalar_single x tail

theorem isScalarHead_digit {c : Char} (hc : c.isDigit = true) : IsScalarHead c := by
  have hspace : c ≠ ' ' := ne_of_kind hc (by decide)
  have htab : c ≠ '\t' := ne_of_kind hc (by decide)
  refine ⟨ne_of_kind hc (by decide), ne_of_kind hc (by decide), ?_⟩
  rw [isBlank, beq_eq_false_iff_ne.mpr hspace, beq_eq_false_iff_ne.mpr htab, Bool.or_false]

theorem Scalar.write_head {v : Scalar} {written : List Char} (h : v.write? = some written) :
    ∃ c cs, written = c :: cs ∧ IsScalarHead c := by
  have hhead : ∀ c ∈ ['\"', 't', 'f', 'i', 'n', '-'], IsScalarHead c := by
    simp [IsScalarHead, isBlank]
  cases v with
  | text s =>
    obtain rfl := Option.some.inj h
    exact ⟨_, _, rfl, hhead _ (by decide)⟩
  | boolean b =>
    obtain rfl := Option.some.inj h
    cases b
    · exact ⟨_, _, rfl, hhead _ (by decide)⟩
    · exact ⟨_, _, rfl, hhead _ (by decide)⟩
  | integer n =>
    rw [write?] at h
    split at h
    · obtain rfl := Option.some.inj h
      obtain ⟨d, ds, hds⟩ := List.exists_cons_of_ne_nil (digitsOf_ne_nil n)
      exact ⟨d, ds, hds, isScalarHead_digit (isDigit_of_mem_digitsOf (by rw [hds]; exact List.mem_cons_self))⟩
    · cases h
  | single x =>
    obtain rfl := Option.some.inj h
    rw [writeSingle]
    split
    · rename_i hfinite
      obtain ⟨c, cs, htext, hc⟩ := Numeral.text_head
        (FloatStyle.isWritten_numeral floatStyle (Single.toDouble x).negative (of_decide_eq_true hfinite))
      refine ⟨c, cs, htext, ?_⟩
      rcases hc with rfl | hdigit
      · exact hhead _ (by decide)
      · exact isScalarHead_digit hdigit
    · split
      · cases (Single.toDouble x).negative
        · exact ⟨_, _, rfl, hhead _ (by decide)⟩
        · exact ⟨_, _, rfl, hhead _ (by decide)⟩
      · exact ⟨_, _, rfl, hhead _ (by decide)⟩

theorem value_scalar {c : Char} {cs : List Char} (hc : IsScalarHead c) : value? (c :: cs) = scalar? (c :: cs) := by
  obtain ⟨harray, htable, -⟩ := hc
  rw [value?, valueOf?]
  · exact fun _ _ h => harray (List.cons.inj h).1
  · exact fun _ _ h => htable (List.cons.inj h).1
  · exact fun _ _ _ h => harray (List.cons.inj h).1
  · exact fun _ _ _ h => htable (List.cons.inj h).1

end TouchStream.Toml
