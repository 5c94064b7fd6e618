import TouchStream.Json.Printer
import TouchStream.Json.Reader
import TouchStream.Proofs.Number.Numeral

/-!
# Reading JSON that was written

A value whose numbers are well written and whose strings can be held (`Json.IsWritten`) is read back
from its text.

* `Reader.stringTail_written`: a string is read to its closing quote, escapes included.
* `Reader.readsBack`: a value is read back whatever follows its text, as long as that cannot go on
  with a number. The induction is on the fuel, for values, items and members together.
* `read_render`: a whole text is read back.
-/

namespace TouchStream.Json

open Numeral (Stops stops_cons stops_nil)

/-! ## Values that can be read back -/

mutual

/-- Every number in a value is well written, and every string can be held. -/
def IsWritten : Json → Prop
  | null => True
  | boolean _ => True
  | number n => n.IsWritten
  | string s => s.isSome = true
  | array vs => AreWritten vs
  | object ms => MembersWritten ms

/-- All items of an array can be read back. -/
def AreWritten : List Json → Prop
  | [] => True
  | v :: vs => IsWritten v ∧ AreWritten vs

/-- All members of an object can be read back. -/
def MembersWritten : List (Option String × Json) → Prop
  | [] => True
  | (name, v) :: ms => name.isSome = true ∧ IsWritten v ∧ MembersWritten ms

end

/-! ## Lengths of texts -/

theorem length_writeChar (c : Char) (tail : List Char) : tail.length < (writeChar c tail).length := by
  unfold writeChar
  repeat' split
  all_goals simp only [List.length_cons]; omega

theorem length_writeString (s : Option String) (tail : List Char) :
    tail.length < (writeString s tail).length := by
  cases s with
  | none =>
    simp only [writeString, List.length_cons]
    omega
  | some s =>
    simp only [writeString, writeText, List.length_cons]
    induction s.toList with
    | nil =>
      simp only [List.foldr_nil, List.length_cons]
      omega
    | cons c cs ih =>
      have := length_writeChar c (cs.foldr writeChar ('\"' :: tail))
      rw [List.foldr_cons]
      omega

mutual

theorem length_write (v : Json) (h : IsWritten v) (tail : List Char) :
    tail.length < (write v tail).length := by
  match v with
  | null => simp only [write, List.length_cons]; omega
  | boolean true => simp only [write, List.length_cons]; omega
  | boolean false => simp only [write, List.length_cons]; omega
  | number n =>
    obtain ⟨c, cs, htext, -⟩ := Numeral.text_head h
    simp only [write, htext, List.cons_append, List.length_cons, List.length_append]
    omega
  | string s => exact length_writeString s tail
  | array [] => simp only [write, List.length_cons]; omega
  | array (v :: vs) =>
    have hv := length_write v h.1 (writeItems vs (']' :: tail))
    have hvs := length_writeItems vs h.2 (']' :: tail)
    simp only [write, List.length_cons] at hv hvs ⊢
    omega
  | object [] => simp only [write, List.length_cons]; omega
  | object ((k, v) :: ms) =>
    have hk := length_writeString k (':' :: write v (writeMembers ms ('\x7d' :: tail)))
    have hv := length_write v h.2.1 (writeMembers ms ('\x7d' :: tail))
    have hms := length_writeMembers ms h.2.2 ('\x7d' :: tail)
    simp only [write, List.length_cons] at hk hv hms ⊢
    omega

theorem length_writeItems (vs : List Json) (h : AreWritten vs) (tail : List Char) :
    tail.length ≤ (writeItems vs tail).length := by
  match vs with
  | [] => exact Nat.le_refl _
  | v :: vs =>
    have hv := length_write v h.1 (writeItems vs tail)
    have hvs := length_writeItems vs h.2 tail
    simp only [writeItems, List.length_cons]
    omega

theorem length_writeMembers (ms : List (Option String × Json)) (h : MembersWritten ms)
    (tail : List Char) : tail.length ≤ (writeMembers ms tail).length := by
  match ms with
  | [] => exact Nat.le_refl _
  | (k, v) :: ms =>
    have hk := length_writeString k (':' :: write v (writeMembers ms tail))
    have hv := length_write v h.2.1 (writeMembers ms tail)
    have hms := length_writeMembers ms h.2.2 tail
    simp only [writeMembers, List.length_cons] at hk ⊢
    omega

end

namespace Reader

/-! ## Strings -/

/-- An escaped control character is read back. -/
theorem numberIn_hexDigits : ∀ n < 32,
    numberIn? 16 ['0', '0', hexDigit (n / 16), hexDigit (n % 16)] = some n := by
  decide

theorem pieces_writeChar (c : Char) (tail : List Char) :
    pieces (writeChar c tail) = (pieces tail).map fun (ps, rest) => (.char c :: ps, rest) := by
  have hescaped (e : Char) (he : escapedChar e = some c) (hu : e ≠ 'u') :
      pieces ('\\' :: e :: tail) = (pieces tail).map fun (ps, rest) => (.char c :: ps, rest) := by
    rw [pieces, he]
    · cases pieces tail <;> rfl
    · exact fun _ _ _ _ _ h => absurd h hu
  unfold writeChar
  split
  · rename_i h
    exact hescaped '\"' (by rw [h]; rfl) (by decide)
  split
  · rename_i h
    exact hescaped '\\' (by rw [h]; rfl) (by decide)
  split
  · rename_i h
    exact hescaped 'n' (by rw [h]; rfl) (by decide)
  split
  · rename_i h
    exact hescaped 'r' (by rw [h]; rfl) (by decide)
  split
  · rename_i h
    exact hescaped 't' (by rw [h]; rfl) (by decide)
  split
  · rename_i h
    exact hescaped 'b' (by rw [h]; rfl) (by decide)
  split
  · rename_i h
    exact hescaped 'f' (by rw [h]; rfl) (by decide)
  split
  · rename_i h
    have hchar : pieceOfUnit c.toNat = .char c := by
      rw [pieceOfUnit, if_neg (by omega), Char.ofNat_toNat]
    rw [pieces, numberIn_hexDigits c.toNat h, ← hchar]
    cases pieces tail <;> rfl
  · rename_i hquote hslash _ _ _ _ _ hcontrol
    rw [pieces, if_neg hcontrol]
    · cases pieces tail <;> rfl
    · exact hquote
    · exact fun _ _ _ _ _ h => absurd h hslash
    · exact fun _ _ h => absurd h hslash

theorem pieces_foldr (cs tail : List Char) :
    pieces (cs.foldr writeChar ('\"' :: tail)) = some (cs.map .char, tail) := by
  induction cs with
  | nil => rfl
  | cons c cs ih => rw [List.foldr_cons, pieces_writeChar, ih]; rfl

theorem joinPieces_chars (cs : List Char) : joinPieces (cs.map .char) = some cs := by
  induction cs with
  | nil => rfl
  | cons c cs ih => rw [List.map_cons, joinPieces, ih]; rfl

/-- A string is read to its closing quote. -/
theorem stringTail_written (s : String) (tail : List Char) :
    stringTail (s.toList.foldr writeChar ('\"' :: tail)) = some (some s, tail) := by
  rw [stringTail, pieces_foldr]
  simp only [Option.map_some, joinPieces_chars, String.ofList_toList]

/-! ## Blanks -/

theorem skipBlanks_cons {c : Char} (hc : isBlank c = false) (cs : List Char) :
    skipBlanks (c :: cs) = c :: cs := by
  rw [skipBlanks, List.dropWhile_cons_of_neg]
  simp [hc]

/-- The characters with which a value may begin. -/
def opens (c : Char) : Bool :=
  c == 'n' || c == 't' || c == 'f' || c == '\"' || c == '[' || c == '\x7b' || c == '-' || c.isDigit

theorem write_head (v : Json) (h : IsWritten v) (tail : List Char) :
    ∃ c cs, write v tail = c :: cs ∧ opens c = true := by
  match v with
  | null => exact ⟨_, _, rfl, rfl⟩
  | boolean true => exact ⟨_, _, rfl, rfl⟩
  | boolean false => exact ⟨_, _, rfl, rfl⟩
  | number n =>
    obtain ⟨c, cs, htext, hc⟩ := Numeral.text_head h
    refine ⟨c, cs ++ tail, by rw [write, htext, List.cons_append], ?_⟩
    rcases hc with rfl | hc
    · rfl
    · simp [opens, hc]
  | string (some s) => exact ⟨_, _, rfl, rfl⟩
  | array [] => exact ⟨_, _, rfl, rfl⟩
  | array (_ :: _) => exact ⟨_, _, rfl, rfl⟩
  | object [] => exact ⟨_, _, rfl, rfl⟩
  | object (_ :: _) => exact ⟨_, _, rfl, rfl⟩

/-- What opens a value is neither blank nor a closing bracket. -/
theorem not_blank_of_opens {c : Char} (h : opens c = true) :
    isBlank c = false ∧ c ≠ ']' ∧ c ≠ '\x7d' := by
  refine ⟨?_, ?_, ?_⟩
  · by_contra hblank
    simp only [isBlank, Bool.not_eq_false, Bool.or_eq_true, beq_iff_eq] at hblank
    rcases hblank with ((rfl | rfl) | rfl) | rfl <;> simp [opens] at h
  · rintro rfl
    simp [opens] at h
  · rintro rfl
    simp [opens] at h

theorem skipBlanks_write (v : Json) (h : IsWritten v) (tail : List Char) :
    skipBlanks (write v tail) = write v tail := by
  obtain ⟨c, cs, htext, hc⟩ := write_head v h tail
  rw [htext, skipBlanks_cons (not_blank_of_opens hc).1]

/-! ## Values -/

theorem value_numeral {n : Numeral} (h : n.IsWritten) {tail : List Char} (htail : Stops tail)
    (fuel : Nat) : value (fuel + 1) (n.text ++ tail) = some (number n, tail) := by
  have hscan := Numeral.scan_text h htail
  obtain ⟨c, cs, htext, hc⟩ := Numeral.text_head h
  rw [htext, List.cons_append] at hscan ⊢
  have hne (d : Char) (hd : d ≠ '-' ∧ d.isDigit = false) : c ≠ d := by
    rintro rfl
    rcases hc with rfl | hc
    · exact hd.1 rfl
    · exact absurd hc (by simp [hd.2])
  unfold value
  split
  · rename_i heq
    exact absurd (List.cons.inj heq).1 (hne 'n' (by decide))
  · rename_i heq
    exact absurd (List.cons.inj heq).1 (hne 't' (by decide))
  · rename_i heq
    exact absurd (List.cons.inj heq).1 (hne 'f' (by decide))
  · rename_i heq
    exact absurd (List.cons.inj heq).1 (hne '\"' (by decide))
  · rename_i heq
    exact absurd (List.cons.inj heq).1 (hne '[' (by decide))
  · rename_i heq
    exact absurd (List.cons.inj heq).1 (hne '\x7b' (by decide))
  · rw [hscan]
    rfl

theorem items_last {fuel : Nat} {cs rest : List Char} {v : Json}
    (h : value fuel cs = some (v, ']' :: rest)) : items (fuel + 1) cs = some ([v], rest) := by
  rw [items, h]
  rfl

theorem items_more {fuel : Nat} {cs rest rest' : List Char} {v : Json} {vs : List Json}
    (h : value fuel cs = some (v, ',' :: rest))
    (hmore : items fuel (skipBlanks rest) = some (vs, rest')) :
    items (fuel + 1) cs = some (v :: vs, rest') := by
  rw [items, h]
  show (items fuel (skipBlanks rest)).map _ = _
  rw [hmore]
  rfl

variable {k : String}

theorem members_last {fuel : Nat} {cs rest : List Char} {v : Json}
    (h : value fuel (skipBlanks cs) = some (v, '\x7d' :: rest)) :
    members (fuel + 1) (writeString (some k) (':' :: cs)) = some ([(some k, v)], rest) := by
  rw [writeString, writeText, members, stringTail_written]
  simp only [skipBlanks_cons (c := ':') rfl, h]
  rfl

theorem members_more {fuel : Nat} {cs rest rest' : List Char} {v : Json}
    {ms : List (Option String × Json)}
    (h : value fuel (skipBlanks cs) = some (v, ',' :: rest))
    (hmore : members fuel (skipBlanks rest) = some (ms, rest')) :
    members (fuel + 1) (writeString (some k) (':' :: cs)) = some ((some k, v) :: ms, rest') := by
  rw [writeString, writeText, members, stringTail_written]
  simp only [skipBlanks_cons (c := ':') rfl, h]
  show (members fuel (skipBlanks rest)).map _ = _
  rw [hmore]
  rfl

/-- With some fuel the three readers read back what was written, if the text is no longer than the
fuel. -/
structure ReadsBack (fuel : Nat) : Prop where
  value : ∀ v, IsWritten v → ∀ tail, Stops tail →
    (write v tail).length ≤ fuel + tail.length → value fuel (write v tail) = some (v, tail)
  items : ∀ v vs, IsWritten v → AreWritten vs → ∀ tail,
    (write v (writeItems vs (']' :: tail))).length ≤ fuel + tail.length →
      items fuel (write v (writeItems vs (']' :: tail))) = some (v :: vs, tail)
  members : ∀ k v ms, IsWritten v → MembersWritten ms → ∀ tail,
    (writeString (some k) (':' :: write v (writeMembers ms ('\x7d' :: tail)))).length ≤
        fuel + tail.length →
      members fuel (writeString (some k) (':' :: write v (writeMembers ms ('\x7d' :: tail)))) =
        some ((some k, v) :: ms, tail)

namespace ReadsBack

variable {fuel : Nat}

theorem value_succ (h : ReadsBack fuel) {v : Json} (hv : IsWritten v) {tail : List Char}
    (htail : Stops tail) (hfuel : (write v tail).length ≤ fuel + 1 + tail.length) :
    Reader.value (fuel + 1) (write v tail) = some (v, tail) := by
  match v with
  | null => rfl
  | boolean true => rfl
  | boolean false => rfl
  | number n => exact value_numeral hv htail fuel
  | string (some s) =>
    show (stringTail (s.toList.foldr writeChar ('\"' :: tail))).map _ = _
    rw [stringTail_written]
    rfl
  | array [] => rfl
  | array (v :: vs) =>
    obtain ⟨c, cs, htext, hc⟩ := write_head v hv.1 (writeItems vs (']' :: tail))
    have hitems := h.items v vs hv.1 hv.2 tail (by
      simp only [write, List.length_cons] at hfuel
      omega)
    simp only [write, Reader.value]
    rw [skipBlanks_write v hv.1]
    rw [htext] at hitems ⊢
    split
    · rename_i heq
      exact absurd (List.cons.inj heq).1 (not_blank_of_opens hc).2.1
    · rw [hitems]
      rfl
  | object [] => rfl
  | object ((some k, v) :: ms) =>
    have hmembers := h.members k v ms hv.2.1 hv.2.2 tail (by
      simp only [write, List.length_cons] at hfuel
      omega)
    show (Reader.members fuel (writeString (some k) _)).map _ = _
    rw [hmembers]
    rfl

theorem items_succ (h : ReadsBack fuel) {v : Json} {vs : List Json} (hv : IsWritten v)
    (hvs : AreWritten vs) {tail : List Char}
    (hfuel : (write v (writeItems vs (']' :: tail))).length ≤ fuel + 1 + tail.length) :
    Reader.items (fuel + 1) (write v (writeItems vs (']' :: tail))) = some (v :: vs, tail) := by
  have hlength := length_write v hv (writeItems vs (']' :: tail))
  have hmore := length_writeItems vs hvs (']' :: tail)
  rw [List.length_cons] at hmore
  match vs with
  | [] =>
    rw [writeItems] at hfuel hmore ⊢
    exact items_last (h.value v hv _ (by simp [stops_cons]) (by omega))
  | v' :: vs =>
    have hvalue := h.value v hv (writeItems (v' :: vs) (']' :: tail))
      (by simp [writeItems, stops_cons]) (by omega)
    apply items_more hvalue
    rw [skipBlanks_write v' hvs.1]
    apply h.items v' vs hvs.1 hvs.2 tail
    simp only [writeItems, List.length_cons] at hlength hfuel
    omega

theorem members_succ (h : ReadsBack fuel) {k : String} {v : Json}
    {ms : List (Option String × Json)} (hv : IsWritten v) (hms : MembersWritten ms)
    {tail : List Char}
    (hfuel : (writeString (some k) (':' :: write v (writeMembers ms ('\x7d' :: tail)))).length ≤
      fuel + 1 + tail.length) :
    Reader.members (fuel + 1)
        (writeString (some k) (':' :: write v (writeMembers ms ('\x7d' :: tail)))) =
      some ((some k, v) :: ms, tail) := by
  have hname := length_writeString (some k) (':' :: write v (writeMembers ms ('\x7d' :: tail)))
  have hlength := length_write v hv (writeMembers ms ('\x7d' :: tail))
  have hmore := length_writeMembers ms hms ('\x7d' :: tail)
  rw [List.length_cons] at hname hmore
  match ms with
  | [] =>
    rw [writeMembers] at hfuel hname hmore ⊢
    apply members_last
    rw [skipBlanks_write v hv]
    exact h.value v hv _ (by simp [stops_cons]) (by omega)
  | (some k', v') :: ms =>
    have hvalue := h.value v hv (writeMembers ((some k', v') :: ms) ('\x7d' :: tail))
      (by simp [writeMembers, stops_cons]) (by omega)
    rw [← skipBlanks_write v hv] at hvalue
    apply members_more hvalue
    rw [show skipBlanks (writeString (some k') _) = _ from skipBlanks_cons rfl _]
    apply h.members k' v' ms hms.2.1 hms.2.2 tail
    simp only [writeMembers, List.length_cons] at hlength hname hfuel
    omega

end ReadsBack

theorem readsBack (fuel : Nat) : ReadsBack fuel := by
  induction fuel with
  | zero =>
    refine ⟨fun v hv tail _ hfuel => ?_, fun v vs hv hvs tail hfuel => ?_,
      fun k v ms hv hms tail hfuel => ?_⟩
    · have := length_write v hv tail
      omega
    · have hlength := length_write v hv (writeItems vs (']' :: tail))
      have hmore := length_writeItems vs hvs (']' :: tail)
      rw [List.length_cons] at hmore
      omega
    · have hname := length_writeString (some k) (':' :: write v (writeMembers ms ('\x7d' :: tail)))
      have hlength := length_write v hv (writeMembers ms ('\x7d' :: tail))
      have hmore := length_writeMembers ms hms ('\x7d' :: tail)
      rw [List.length_cons] at hname hmore
      omega
  | succ fuel ih =>
    exact ⟨fun _ hv _ htail hfuel => ih.value_succ hv htail hfuel,
      fun _ _ hv hvs _ hfuel => ih.items_succ hv hvs hfuel,
      fun _ _ _ hv hms _ hfuel => ih.members_succ hv hms hfuel⟩

end Reader

/-- **A value is read back from its text.** -/
theorem read_render {v : Json} (h : v.IsWritten) : read? v.render = some v := by
  have hlength : (write v []).length ≤ (write v []).length + 1 + ([] : List Char).length :=
    Nat.le_succ _
  have hvalue := (Reader.readsBack _).value v h [] stops_nil hlength
  have hempty : Reader.skipBlanks [] = [] := rfl
  rw [read?, render, String.toList_ofList, Reader.skipBlanks_write v h]
  simp only [hvalue, hempty, List.isEmpty_nil, if_true]

end TouchStream.Json
