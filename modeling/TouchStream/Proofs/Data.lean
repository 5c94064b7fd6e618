import Mathlib.Data.List.Nodup
import TouchStream.Data.Records

/-!
# Fields of records

From a record that is written with every field, in the order of the field names, each field is read again
(`Datum.fields_zip`), and a list of records item by item (`Datum.list_map`).
-/

namespace TouchStream

namespace Datum

variable {dialect : Dialect}

/-! ## Records -/

/-- From a record without repetitions each field is taken by its name. -/
theorem fields_record {members : List (String × Datum)} (h : (members.map Prod.fst).Nodup) (names : List String) :
    (record members).fields? dialect names = some (names.map fun name => members.lookup name) := by
  have hcount : ∀ name, members.countP (·.1 == name) ≤ 1 := by
    intro name
    have hone := List.nodup_iff_count_le_one.mp h name
    rwa [List.count, List.countP_map] at hone
  rw [fields?, if_neg]
  simp only [List.any_eq_true, decide_eq_true_eq, not_exists, not_and, Nat.not_lt]
  exact fun name _ => hcount name

theorem lookup_zip {names : List String} (h : names.Nodup) {values : List Datum}
    (hlength : names.length = values.length) :
    (names.map fun name => (names.zip values).lookup name) = values.map some := by
  induction names generalizing values with
  | nil =>
    cases values with
    | nil => rfl
    | cons v vs => cases hlength
  | cons name names ih =>
    cases values with
    | nil => cases hlength
    | cons v vs =>
      obtain ⟨hnot, hnodup⟩ := List.nodup_cons.mp h
      rw [List.map_cons, List.map_cons, List.zip_cons_cons, List.lookup_cons_self,
        ← ih hnodup (Nat.succ.inj hlength)]
      congr 1
      refine List.map_congr_left fun other hother => ?_
      have hne : (other == name) = false := beq_eq_false_iff_ne.mpr fun heq => hnot (heq ▸ hother)
      rw [List.lookup_cons, hne]

theorem fields_zip {names : List String} (h : names.Nodup) {values : List Datum}
    (hlength : names.length = values.length) :
    (record (names.zip values)).fields? dialect names = some (values.map some) := by
  rw [fields_record, lookup_zip h hlength]
  rwa [List.map_fst_zip (Nat.le_of_eq hlength)]

/-! ## Lists -/

/-- A list is read where each of its items is. -/
theorem list_map {α : Type} {read : Datum → Option α} {write : α → Datum} {good : α → Bool}
    (h : ∀ a, read (write a) = if good a then some a else none) (items : List α) :
    (list (items.map write)).list? read = if items.all good then some items else none := by
  rw [list?]
  induction items with
  | nil => rfl
  | cons a items ih =>
    rw [List.map_cons, List.mapM_cons, h, ih, List.all_cons]
    cases good a <;> cases items.all good <;> rfl

end Datum

end TouchStream
