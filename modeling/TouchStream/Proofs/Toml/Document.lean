import TouchStream.Proofs.Toml.Scalar
import Mathlib.Data.List.Forall2

/-!
# TOML documents read back

The text of some sections is read back statement by statement, and the statements fill one table for each section
(`Toml.readDatum_render`), provided that the names are plain and none stands twice where it could be taken for
another (`Toml.ArePlain`).

* `Reads`: a text that is read as some statements, whatever lines follow it. Such texts can be put together
  (`Reads.append`).
* `Section.reads`: what is read for a section.
* `foldlM_sections`: what the statements of the sections do to a document.
-/

namespace TouchStream.Toml

/-- What all of a list is turned into, item by item. -/
theorem forall₂_of_mapM {α β : Type} {f : α → Option β} {xs : List α} {ys : List β} (h : xs.mapM f = some ys) :
    List.Forall₂ (fun x y => f x = some y) xs ys := by
  induction xs generalizing ys with
  | nil =>
    obtain rfl : [] = ys := Option.some.inj h
    exact List.Forall₂.nil
  | cons x xs ih =>
    rw [List.mapM_cons, Option.bind_eq_bind, Option.bind_eq_some_iff] at h
    obtain ⟨y, hy, h⟩ := h
    rw [Option.bind_eq_bind, Option.bind_eq_some_iff] at h
    obtain ⟨ys', hys, h⟩ := h
    obtain rfl : y :: ys' = ys := Option.some.inj h
    exact List.Forall₂.cons hy (ih hys)

theorem mapM_eq_none {α β : Type} {f : α → Option β} {xs : List α} : xs.mapM f = none ↔ ∃ x ∈ xs, f x = none := by
  induction xs with
  | nil => simp
  | cons x xs ih =>
    rw [List.mapM_cons, List.exists_mem_cons_iff, ← ih]
    cases f x with
    | none => simp
    | some y => cases xs.mapM f <;> simp

/-! ## What can be written -/

theorem Section.write_eq_none (s : Section) : s.write? = none ↔ ∃ field ∈ s.fields, field.2.write? = none := by
  rw [write?, Option.map_eq_none_iff, mapM_eq_none]
  simp only [writeField?, Option.map_eq_none_iff]

/-- Some sections can be written when all their values can be. -/
theorem render_eq_none (sections : List Section) :
    render? sections = none ↔ ∃ s ∈ sections, ∃ field ∈ s.fields, field.2.write? = none := by
  rw [render?, write?, Option.map_eq_none_iff, Option.map_eq_none_iff, mapM_eq_none]
  simp only [Section.write_eq_none]

/-! ## Lines -/

/-- What is read for a text is so many statements, and after them what is read for the lines after it. -/
def Reads (text : List Char) (statements : List Statement) : Prop :=
  ∀ fuel rest, (text ++ rest).length < fuel →
    ∃ fuel', rest.length < fuel' ∧
      statementsOf? fuel (text ++ rest) = (statementsOf? fuel' rest).map (statements ++ ·)

namespace Reads

theorem nil : Reads [] [] := by
  intro fuel rest hfuel
  refine ⟨fuel, hfuel, ?_⟩
  simp

theorem append {text₁ text₂ : List Char} {ss₁ ss₂ : List Statement} (h₁ : Reads text₁ ss₁) (h₂ : Reads text₂ ss₂) :
    Reads (text₁ ++ text₂) (ss₁ ++ ss₂) := by
  intro fuel rest hfuel
  rw [List.append_assoc] at hfuel ⊢
  obtain ⟨fuel₁, hfuel₁, heq₁⟩ := h₁ fuel (text₂ ++ rest) hfuel
  obtain ⟨fuel₂, hfuel₂, heq₂⟩ := h₂ fuel₁ rest hfuel₁
  refine ⟨fuel₂, hfuel₂, ?_⟩
  rw [heq₁, heq₂, Option.map_map]
  congr 1
  funext ss
  exact (List.append_assoc ss₁ ss₂ ss).symm

theorem blank : Reads ['\n'] [] := by
  intro fuel rest hfuel
  obtain ⟨fuel, rfl⟩ := Nat.exists_eq_succ_of_ne_zero (Nat.ne_zero_of_lt hfuel)
  refine ⟨fuel, Nat.lt_of_succ_lt_succ hfuel, ?_⟩
  simp [statementsOf?, skipBlanks, isBlank, lineEnd?, skipComment, newline?]

/-- A line with a statement. -/
theorem line {c : Char} {cs : List Char} {s : Statement} (hblank : isBlank c = false)
    (hhead : c ≠ '#' ∧ c ≠ '\n' ∧ c ≠ '\r')
    (h : ∀ rest, statement? (c :: (cs ++ '\n' :: rest)) = some (s, '\n' :: rest)) :
    Reads (c :: (cs ++ ['\n'])) [s] := by
  intro fuel rest hfuel
  have htext : c :: (cs ++ ['\n']) ++ rest = c :: (cs ++ '\n' :: rest) := by simp
  rw [htext] at hfuel ⊢
  obtain ⟨fuel, rfl⟩ := Nat.exists_eq_succ_of_ne_zero (Nat.ne_zero_of_lt hfuel)
  have hskip : skipBlanks (c :: (cs ++ '\n' :: rest)) = c :: (cs ++ '\n' :: rest) := by
    rw [skipBlanks, List.dropWhile_cons_of_neg (by rw [hblank]; exact Bool.false_ne_true)]
  have hcomment : skipComment (c :: (cs ++ '\n' :: rest)) = c :: (cs ++ '\n' :: rest) := by
    unfold skipComment
    split
    · rename_i heq
      exact absurd (List.cons.inj heq).1 hhead.1
    · rfl
  have hend : lineEnd? (c :: (cs ++ '\n' :: rest)) = none := by
    rw [lineEnd?, hskip, hcomment]
    dsimp only
    unfold newline?
    split
    · rename_i heq
      exact absurd (List.cons.inj heq).1 hhead.2.1
    · rename_i heq
      exact absurd (List.cons.inj heq).1 hhead.2.2
    · rfl
  have hnext : lineEnd? ('\n' :: rest) = some rest := by
    simp [lineEnd?, skipBlanks, isBlank, skipComment, newline?]
  refine ⟨fuel, ?_, ?_⟩
  · simp only [List.length_cons, List.length_append] at hfuel
    omega
  · rw [statementsOf?, hskip]
    simp only [hend, h rest, hnext]
    rfl

end Reads

/-! ## Keys -/

/-- A name that is written without quotes. -/
def IsBareName (name : String) : Prop := name.toList ≠ [] ∧ ∀ c ∈ name.toList, isBare c = true

instance (name : String) : Decidable (IsBareName name) :=
  decidable_of_iff (name.toList ≠ [] ∧ name.toList.all isBare = true) (by simp [IsBareName])

theorem IsBareName.head {name : String} (h : IsBareName name) :
    ∃ c cs, name.toList = c :: cs ∧ isBare c = true := by
  obtain ⟨c, cs, hcs⟩ := List.exists_cons_of_ne_nil h.1
  exact ⟨c, cs, hcs, h.2 c (by rw [hcs]; exact List.mem_cons_self)⟩

theorem isBlank_of_isBare {c : Char} (hc : isBare c = true) : isBlank c = false := by
  have hspace : c ≠ ' ' := ne_of_kind hc (by decide)
  have htab : c ≠ '\t' := ne_of_kind hc (by decide)
  rw [isBlank, beq_eq_false_iff_ne.mpr hspace, beq_eq_false_iff_ne.mpr htab, Bool.or_false]

theorem skipBlanks_bare {name : String} (h : IsBareName name) (rest : List Char) :
    skipBlanks (name.toList ++ rest) = name.toList ++ rest := by
  obtain ⟨c, cs, hcs, hbare⟩ := h.head
  have hc : isBlank c = false := isBlank_of_isBare hbare
  rw [skipBlanks, hcs, List.cons_append, List.dropWhile_cons_of_neg (by rw [hc]; exact Bool.false_ne_true)]

theorem keyPart_bare {name : String} (h : IsBareName name) {rest : List Char}
    (hrest : ∀ c ∈ rest.head?, isBare c = false) : keyPart? (name.toList ++ rest) = some (name, rest) := by
  have hspan := span_append h.2 hrest
  have hback : String.ofList name.toList = name := String.ofList_toList
  obtain ⟨c, cs, hcs, hc⟩ := h.head
  rw [hcs] at hspan hback ⊢
  unfold keyPart?
  split
  · rename_i heq
    exact absurd (List.cons.inj heq).1 (ne_of_kind hc (by decide))
  · rename_i heq
    exact absurd (List.cons.inj heq).1 (ne_of_kind hc (by decide))
  · simp only [hspan, hback]

/-- A bare name, with blanks after it, is read as a key of one part. -/
theorem key_bare {name : String} (h : IsBareName name) {rest : List Char}
    (hrest : ∀ c ∈ rest.head?, isBare c = false) (hdot : (skipBlanks rest).head? ≠ some '.') :
    key? (name.toList ++ rest) = some (⟨[], name⟩, skipBlanks rest) := by
  rw [key?, nestingLimit, keyOf?, skipBlanks_bare h, keyPart_bare h hrest]
  dsimp only
  split
  · rename_i heq
    rw [heq] at hdot
    exact absurd rfl hdot
  · rfl

/-! ## Statements -/

theorem statement_header {name : String} (h : IsBareName name) (rest : List Char) :
    statement? ('[' :: name.toList ++ ']' :: rest) = some (.header ⟨[], name⟩, rest) := by
  have hkey : key? (name.toList ++ ']' :: rest) = some (⟨[], name⟩, ']' :: rest) :=
    key_bare h (by simp [isBare]) (by simp [skipBlanks, isBlank])
  obtain ⟨c, cs, hcs, hbare⟩ := h.head
  have hc : c ≠ '[' := ne_of_kind hbare (by decide)
  rw [List.cons_append]
  unfold statement?
  split
  · rename_i heq
    rw [hcs] at heq
    exact absurd (List.cons.inj (List.cons.inj heq).2).1 hc
  · rename_i heq
    rw [← (List.cons.inj heq).2, hkey]
    rfl
  · rename_i hno
    exact absurd rfl (hno _)

theorem statement_assignment {name : String} (h : IsBareName name) {v : Scalar} {written : List Char}
    (hv : v.IsPlain) (hw : v.write? = some written) (rest : List Char) :
    statement? (name.toList ++ ([' ', '=', ' '] ++ written ++ '\n' :: rest)) =
      some (.assignment ⟨[], name⟩ v.datum, '\n' :: rest) := by
  obtain ⟨d, ds, hwritten, hd⟩ := Scalar.write_head hw
  have hkey : key? (name.toList ++ ([' ', '=', ' '] ++ written ++ '\n' :: rest)) =
      some (⟨[], name⟩, '=' :: ' ' :: (written ++ '\n' :: rest)) :=
    key_bare h (by simp [isBare]) (by simp [skipBlanks, isBlank])
  have hvalue : value? (skipBlanks (' ' :: (written ++ '\n' :: rest))) = some (v.datum, '\n' :: rest) := by
    have hskip : skipBlanks (' ' :: (written ++ '\n' :: rest)) = written ++ '\n' :: rest := by
      rw [hwritten]
      simp [skipBlanks, hd.2.2, show isBlank ' ' = true from rfl]
    rw [hskip, ← Scalar.scalar_write hv hw rest, hwritten]
    exact value_scalar hd
  obtain ⟨c, cs, hcs, hbare⟩ := h.head
  have hc : c ≠ '[' := ne_of_kind hbare (by decide)
  unfold statement?
  split
  · rename_i heq
    rw [hcs] at heq
    exact absurd (List.cons.inj heq).1 hc
  · rename_i heq
    rw [hcs] at heq
    exact absurd (List.cons.inj heq).1 hc
  · rw [hkey]
    simp only [hvalue, Option.map_some]

/-! ## Sections -/

/-- The names in a section are bare and distinct, and its texts need no escapes. -/
structure Section.IsPlain (s : Section) : Prop where
  name : IsBareName s.name
  fields : ∀ field ∈ s.fields, IsBareName field.1 ∧ field.2.IsPlain
  nodup : (s.fields.map Prod.fst).Nodup

/-- What is read for a field. -/
def assignment (field : String × Scalar) : Statement := .assignment ⟨[], field.1⟩ field.2.datum

/-- What is read for a section. -/
def Section.statements (s : Section) : List Statement := .header ⟨[], s.name⟩ :: s.fields.map assignment

theorem reads_field {field : String × Scalar} (hname : IsBareName field.1) (hv : field.2.IsPlain)
    {text : List Char} (h : writeField? field = some text) : Reads text [assignment field] := by
  rw [writeField?, Option.map_eq_some_iff] at h
  obtain ⟨written, hw, rfl⟩ := h
  obtain ⟨c, cs, hcs, hc⟩ := hname.head
  have hhead : c ≠ '#' ∧ c ≠ '\n' ∧ c ≠ '\r' :=
    ⟨ne_of_kind hc (by decide), ne_of_kind hc (by decide), ne_of_kind hc (by decide)⟩
  have htext : field.1.toList ++ [' ', '=', ' '] ++ written ++ ['\n'] =
      c :: (cs ++ [' ', '=', ' '] ++ written ++ ['\n']) := by
    rw [hcs]
    rfl
  rw [htext]
  apply Reads.line (isBlank_of_isBare hc) hhead
  intro rest
  have hstatement := statement_assignment hname hv hw rest
  rw [hcs] at hstatement
  simpa [assignment] using hstatement

theorem reads_fields {fields : List (String × Scalar)} {texts : List (List Char)}
    (hfields : ∀ field ∈ fields, IsBareName field.1 ∧ field.2.IsPlain)
    (h : List.Forall₂ (fun field text => writeField? field = some text) fields texts) :
    Reads texts.flatten (fields.map assignment) := by
  induction h with
  | nil => exact Reads.nil
  | cons hfield _ ih =>
    obtain ⟨hname, hv⟩ := hfields _ List.mem_cons_self
    rw [List.flatten_cons, List.map_cons, ← List.singleton_append]
    apply (reads_field hname hv hfield).append
    exact ih fun field hmem => hfields field (List.mem_cons_of_mem _ hmem)

theorem Section.reads {s : Section} (hs : s.IsPlain) {text : List Char} (h : s.write? = some text) :
    Reads text s.statements := by
  rw [write?, Option.map_eq_some_iff] at h
  obtain ⟨texts, htexts, rfl⟩ := h
  have hheader : Reads ('[' :: (s.name.toList ++ [']'] ++ ['\n'])) [.header ⟨[], s.name⟩] := by
    apply Reads.line (by decide) (by decide)
    intro rest
    rw [List.append_assoc, List.singleton_append]
    exact statement_header hs.name _
  have htext : '[' :: s.name.toList ++ [']', '\n'] ++ texts.flatten =
      '[' :: (s.name.toList ++ [']'] ++ ['\n']) ++ texts.flatten := by simp
  rw [htext, statements, ← List.singleton_append]
  exact hheader.append (reads_fields hs.fields (forall₂_of_mapM htexts))

/-- The sections are plain and have distinct names. -/
structure ArePlain (sections : List Section) : Prop where
  plain : ∀ s ∈ sections, s.IsPlain
  nodup : (sections.map Section.name).Nodup

theorem reads_sections {sections : List Section} {texts : List (List Char)} (hplain : ∀ s ∈ sections, s.IsPlain)
    (h : List.Forall₂ (fun s text => s.write? = some text) sections texts) :
    Reads (texts.intersperse ['\n']).flatten (sections.flatMap Section.statements) := by
  induction h with
  | nil => exact Reads.nil
  | cons hfirst hmore ih =>
    have hs := Section.reads (hplain _ List.mem_cons_self) hfirst
    have hrest := ih fun s hmem => hplain s (List.mem_cons_of_mem _ hmem)
    rw [List.flatMap_cons]
    cases hmore with
    | nil => simpa using hs
    | cons =>
      -- a blank line before the next section
      rw [List.intersperse_cons_cons, List.flatten_cons, List.flatten_cons]
      apply hs.append
      rw [← List.nil_append (List.flatMap _ _)]
      exact Reads.blank.append hrest

theorem statements_eq {text : List Char} {ss : List Statement} (h : Reads text ss) : statements? text = some ss := by
  obtain ⟨fuel, hfuel, heq⟩ := h (text.length + 1) [] (by simp)
  obtain ⟨fuel, rfl⟩ := Nat.exists_eq_succ_of_ne_zero (Nat.ne_zero_of_lt hfuel)
  rw [List.append_nil] at heq
  rw [statements?, heq]
  simp [statementsOf?, skipBlanks]

/-! ## Tables -/

theorem lookup_of_fresh {t : Table} {key : String} (h : key ∉ t.map Prod.fst) : t.lookup key = none := by
  rw [List.lookup_eq_none_iff]
  intro entry hentry
  rw [bne_iff_ne]
  rintro rfl
  exact h (List.mem_map_of_mem hentry)

theorem lookup_last {t : Table} {key : String} {e : Entry} (h : key ∉ t.map Prod.fst) :
    (t ++ [(key, e)]).lookup key = some e := by
  rw [List.lookup_append, lookup_of_fresh h, Option.none_or, List.lookup_cons_self]

theorem put_fresh {t : Table} {key : String} {e : Entry} (h : key ∉ t.map Prod.fst) :
    t.put key e = t ++ [(key, e)] := by
  induction t with
  | nil => rfl
  | cons entry t ih =>
    rw [List.map_cons, List.mem_cons, not_or] at h
    obtain ⟨hne, hnot⟩ := h
    obtain ⟨k, old⟩ := entry
    have hkey : (k == key) = false := beq_eq_false_iff_ne.mpr (Ne.symm hne)
    rw [Table.put, if_neg (by rw [hkey]; exact Bool.false_ne_true), ih hnot, List.cons_append]

theorem put_last {t : Table} {key : String} {old e : Entry} (h : key ∉ t.map Prod.fst) :
    Table.put key e (t ++ [(key, old)]) = t ++ [(key, e)] := by
  induction t with
  | nil =>
    show Table.put key e [(key, old)] = [(key, e)]
    rw [Table.put, if_pos (beq_self_eq_true key)]
  | cons entry t ih =>
    rw [List.map_cons, List.mem_cons, not_or] at h
    obtain ⟨hne, hnot⟩ := h
    obtain ⟨k, other⟩ := entry
    have hkey : (k == key) = false := beq_eq_false_iff_ne.mpr (Ne.symm hne)
    rw [List.cons_append, Table.put, if_neg (by rw [hkey]; exact Bool.false_ne_true), ih hnot, List.cons_append]

/-- The entry of a field. -/
def fieldEntry (field : String × Scalar) : String × Entry := (field.1, .value field.2.datum)

/-- The entry of a section. -/
def Section.entry (s : Section) : String × Entry := (s.name, .table .header (s.fields.map fieldEntry))

theorem add_assignment {t u : Table} {name : String} {field : String × Scalar} (hname : name ∉ t.map Prod.fst)
    (hfield : field.1 ∉ u.map Prod.fst) :
    Document.add ⟨[name], t ++ [(name, .table .header u)]⟩ (assignment field) =
      some ⟨[name], t ++ [(name, .table .header (u ++ [fieldEntry field]))]⟩ := by
  have hassign : assign ⟨[], field.1⟩ field.2.datum u = some (u ++ [fieldEntry field]) := by
    rw [assign, assignAt, lookup_of_fresh hfield, put_fresh hfield]
    rfl
  rw [assignment, Document.add, within, lookup_last hname]
  simp only [within, hassign, Option.map_some, put_last hname]

theorem foldlM_fields {t u : Table} {name : String} {fields : List (String × Scalar)} (hname : name ∉ t.map Prod.fst)
    (h : (u.map Prod.fst ++ fields.map Prod.fst).Nodup) :
    (fields.map assignment).foldlM Document.add ⟨[name], t ++ [(name, .table .header u)]⟩ =
      some ⟨[name], t ++ [(name, .table .header (u ++ fields.map fieldEntry))]⟩ := by
  induction fields generalizing u with
  | nil => simp
  | cons field fields ih =>
    have hfresh : field.1 ∉ u.map Prod.fst := by
      intro hmem
      exact (List.nodup_append.mp h).2.2 _ hmem _ List.mem_cons_self rfl
    have hlater : ((u ++ [fieldEntry field]).map Prod.fst ++ fields.map Prod.fst).Nodup := by
      rw [List.map_append, List.append_assoc]
      exact h
    rw [List.map_cons, List.foldlM_cons, add_assignment hname hfresh, Option.bind_eq_bind, Option.bind_some,
      ih hlater, List.append_assoc]
    rfl

theorem foldlM_section {t : Table} {s : Section} (opened : List String) (hs : s.IsPlain)
    (hname : s.name ∉ t.map Prod.fst) :
    s.statements.foldlM Document.add ⟨opened, t⟩ = some ⟨[s.name], t ++ [s.entry]⟩ := by
  have hopen : Document.add ⟨opened, t⟩ (.header ⟨[], s.name⟩) =
      some ⟨[s.name], t ++ [(s.name, .table .header [])]⟩ := by
    rw [Document.add, openTable, openEntry, lookup_of_fresh hname, Option.map_some, put_fresh hname]
    rfl
  have hnodup : (([] : Table).map Prod.fst ++ s.fields.map Prod.fst).Nodup := hs.nodup
  rw [Section.statements, List.foldlM_cons, hopen, Option.bind_eq_bind, Option.bind_some,
    foldlM_fields hname hnodup]
  rfl

theorem foldlM_sections {t : Table} {sections : List Section} (opened : List String)
    (hplain : ∀ s ∈ sections, s.IsPlain) (h : (t.map Prod.fst ++ sections.map Section.name).Nodup) :
    ((sections.flatMap Section.statements).foldlM Document.add ⟨opened, t⟩).map Document.table =
      some (t ++ sections.map Section.entry) := by
  induction sections generalizing t opened with
  | nil => simp
  | cons s sections ih =>
    have hfresh : s.name ∉ t.map Prod.fst := by
      intro hmem
      exact (List.nodup_append.mp h).2.2 _ hmem _ List.mem_cons_self rfl
    have hlater : ((t ++ [s.entry]).map Prod.fst ++ sections.map Section.name).Nodup := by
      rw [List.map_append, List.append_assoc]
      exact h
    rw [List.flatMap_cons, List.foldlM_append, foldlM_section opened (hplain s List.mem_cons_self) hfresh,
      Option.bind_eq_bind, Option.bind_some,
      ih [s.name] (fun s' hmem => hplain s' (List.mem_cons_of_mem _ hmem)) hlater, List.append_assoc]
    rfl

/-! ## Data -/

/-- A section as data. -/
def Section.datum (s : Section) : Datum := .record (s.fields.map fun field => (field.1, field.2.datum))

theorem entriesData_eq (t : Table) : entriesData t = t.map fun entry => (entry.1, entry.2.datum) := by
  induction t with
  | nil => rw [entriesData, List.map_nil]
  | cons entry t ih => rw [entriesData, ih, List.map_cons]

theorem datum_entry (s : Section) : s.entry.2.datum = s.datum := by
  rw [Section.entry, Entry.datum, entriesData_eq, List.map_map]
  rfl

/-- **The text of plain sections is read as one record for each of them.** -/
theorem readDatum_render {sections : List Section} (h : ArePlain sections) {text : String}
    (hw : render? sections = some text) :
    readDatum? text = some (.record (sections.map fun s => (s.name, s.datum))) := by
  rw [render?, write?, Option.map_map, Option.map_eq_some_iff] at hw
  obtain ⟨texts, htexts, rfl⟩ := hw
  have hsections := forall₂_of_mapM htexts
  have hstatements := statements_eq (reads_sections h.plain hsections)
  have hmark : dropByteOrderMark (texts.intersperse ['\n']).flatten = (texts.intersperse ['\n']).flatten := by
    cases hsections with
    | nil => rfl
    | cons hfirst hmore =>
      rw [Section.write?, Option.map_eq_some_iff] at hfirst
      obtain ⟨lines, -, rfl⟩ := hfirst
      cases hmore <;> rfl
  have hfold := foldlM_sections (t := []) [] h.plain h.nodup
  rw [Option.map_eq_some_iff] at hfold
  obtain ⟨doc, hdoc, htable⟩ := hfold
  rw [readDatum?, Function.comp_apply, String.toList_ofList, read?, hmark, hstatements]
  dsimp only
  rw [hdoc, Option.map_some, Option.map_some, htable, List.nil_append, Table.datum, entriesData_eq, List.map_map]
  congr 3
  funext s
  show (s.name, s.entry.2.datum) = _
  rw [datum_entry]

end TouchStream.Toml
