import TouchStream.Json.Records
import TouchStream.Proofs.Data
import TouchStream.Proofs.Json.Single

/-!
# Records read back from JSON

A record is written with every field in the order of the field names, so each field is found again
(`Json.fields_ofRecord`), and each value is read from its field as it was written: integers and named values
always, floating values where they are finite.

* `Json.sample_ofSample`, `Json.configuration_ofConfiguration`, ...: what is read from the JSON value of a record.
* `Json.IsKept`: what a reader of whole values needs. All records have it, finite or not.
* `Json.records_reread`: the same for the texts.
-/

namespace TouchStream

namespace Json

theorem datum_ofFields (fields : List (String × Json)) :
    (ofFields fields).datum = .record (fields.map fun field => (field.1, field.2.datum)) := by
  have h : datumMembers (fields.map fun field => (some field.1, field.2))
      = some (fields.map fun field => (field.1, field.2.datum)) := by
    induction fields with
    | nil => rw [List.map_nil, datumMembers, List.map_nil]
    | cons field fields ih => rw [List.map_cons, datumMembers, ih, List.map_cons, Option.map_some]
  rw [ofFields, datum, h]

theorem datumItems_map {α : Type} (write : α → Json) (items : List α) :
    datumItems (items.map write) = items.map fun a => (write a).datum := by
  induction items with
  | nil => rw [List.map_nil, datumItems, List.map_nil]
  | cons a items ih => rw [List.map_cons, datumItems, ih, List.map_cons]

/-- The fields of a record are read back in their order. -/
theorem fields_ofRecord {dialect : Dialect} {names : List String} {values : List Json} (h : names.Nodup)
    (hlength : names.length = values.length) :
    (ofRecord names values).datum.fields? dialect names = some (values.map fun v => some v.datum) := by
  rw [ofRecord, datum_ofFields]
  have hzip : (names.zip values).map (fun field => (field.1, field.2.datum)) = names.zip (values.map datum) := by
    rw [List.zip_map_right]
    rfl
  rw [hzip, Datum.fields_zip h (by rw [List.length_map, hlength]), List.map_map]
  rfl

/-! ## Integers -/

theorem fitsInteger_ofInt {i : Int} (hlow : -0x8000000000000000 ≤ i) (hhigh : i ≤ 0xFFFFFFFFFFFFFFFF) :
    (Numeral.ofInt i).fitsInteger = true := by
  rw [Numeral.fitsInteger, Numeral.isInteger_ofInt, Bool.true_and, Numeral.integer_ofInt, Numeral.ofInt]
  dsimp only
  split
  · rename_i hneg
    simp only [decide_eq_true_eq] at hneg
    simp only [decide_eq_true_eq, Bool.and_eq_true]
    omega
  · exact decide_eq_true hhigh

theorem datum_ofInt {i : Int} (hlow : -0x8000000000000000 ≤ i) (hhigh : i ≤ 0xFFFFFFFFFFFFFFFF) :
    (ofInt i).datum = .integer i := by
  rw [ofInt, datum, numberDatum, if_pos (fitsInteger_ofInt hlow hhigh), Numeral.integer_ofInt]

theorem int32_ofInt (i : Int32) : (ofInt i.toInt).datum.int32? = some i := by
  have hlow := i.le_toInt
  have hhigh := i.toInt_lt
  rw [datum_ofInt (by omega) (by omega), Datum.int32?, Datum.integerBetween?, if_pos (by omega),
    Option.map_some, Int32.ofInt_toInt]

theorem uint64_ofUInt64 (n : UInt64) : (ofUInt64 n).datum.uint64? = some n := by
  have hlt := n.toNat_lt
  rw [ofUInt64, ofNat, datum_ofInt (by omega) (by omega), Datum.uint64?, Datum.integerBetween?,
    if_pos (by omega), Option.map_some, Int.toNat_natCast, UInt64.ofNat_toNat]

theorem uint32_ofNat (n : UInt32) : (ofNat n.toNat).datum.uint32? = some n := by
  have hlt := n.toNat_lt
  rw [ofNat, datum_ofInt (by omega) (by omega), Datum.uint32?, Datum.integerBetween?,
    if_pos (by omega), Option.map_some, Int.toNat_natCast, UInt32.ofNat_toNat]

/-! ## Named values -/

theorem choice_ofChoice {α : Type} [BEq α] (dialect : Dialect) {table : List (α × String)} {x : α}
    (h : Datum.named? table ((table.lookup x).getD "") = some x) :
    (ofChoice table x).datum.choice? dialect table = some x := by
  rw [ofChoice, ofText, datum, Datum.choice?, h]

end Json

/-! ## Finite records

Whether all floating values of a record are finite. -/

def Point.isFinite (p : Point) : Bool := Single.isFinite p.x && Single.isFinite p.y

def Contact.isFinite (c : Contact) : Bool := c.point.isFinite

def Sample.isFinite (s : Sample) : Bool := s.contacts.all Contact.isFinite

def ScriptedPath.isFinite (p : ScriptedPath) : Bool := p.positions.all Point.isFinite

def Display.isFinite (d : Display) : Bool := Single.isFinite d.dpi && Single.isFinite d.pixelRatio

def RecognizerSettings.isFinite (s : RecognizerSettings) : Bool :=
  Single.isFinite s.tapSlop && Single.isFinite s.touchSlop && Single.isFinite s.routeStep

def Configuration.isFinite (c : Configuration) : Bool :=
  c.recognizer.isFinite && c.display.all Display.isFinite

namespace Json

section Reading

variable (dialect : Dialect)

theorem point_ofPoint (p : Point) :
    (ofPoint p).datum.point? = if p.isFinite then some p else none := by
  rw [ofPoint, datum, datumItems, datumItems, datumItems, Datum.point?, single_ofSingle, single_ofSingle,
    Point.isFinite]
  cases Single.isFinite p.x <;> cases Single.isFinite p.y <;> rfl

theorem contact_ofContact (c : Contact) :
    (ofContact c).datum.contact? dialect = if c.isFinite then some c else none := by
  rw [Datum.contact?, ofContact, fields_ofRecord (by decide) rfl, Contact.isFinite, Point.isFinite]
  simp only [List.map_cons, List.map_nil, Datum.required?, Option.bind_some, int32_ofInt, single_ofSingle]
  cases Single.isFinite c.point.x <;> cases Single.isFinite c.point.y <;> rfl

theorem sample_ofSample (s : Sample) :
    (ofSample s).datum.sample? dialect = if s.isFinite then some s else none := by
  have haction : (ofChoice PointerAction.table s.action).datum.choice? dialect PointerAction.table
      = some s.action := choice_ofChoice dialect (by cases s.action <;> rfl)
  have hsource : (ofChoice PointerSource.table s.source).datum.choice? dialect PointerSource.table
      = some s.source := choice_ofChoice dialect (by cases s.source <;> rfl)
  have hcontacts := Datum.list_map (contact_ofContact dialect) s.contacts
  rw [Datum.sample?, ofSample, fields_ofRecord (by decide) rfl, Sample.isFinite]
  simp only [List.map_cons, List.map_nil, Datum.required?, Datum.optional?, Option.bind_some, int32_ofInt,
    haction, hsource, uint64_ofUInt64, datum, datumItems_map, hcontacts]
  cases s.contacts.all Contact.isFinite <;> rfl

theorem keyEvent_ofKeyEvent (k : KeyEvent) : (ofKeyEvent k).datum.keyEvent? dialect = some k := by
  have haction : (ofChoice KeyAction.table k.action).datum.choice? dialect KeyAction.table
      = some k.action := choice_ofChoice dialect (by cases k.action <;> rfl)
  rw [Datum.keyEvent?, ofKeyEvent, fields_ofRecord (by decide) rfl]
  simp only [List.map_cons, List.map_nil, Datum.required?, Option.bind_some, int32_ofInt, haction,
    uint64_ofUInt64]
  rfl

theorem accessibilityEvent_ofAccessibilityEvent (a : AccessibilityEvent) :
    (ofAccessibilityEvent a).datum.accessibilityEvent? dialect = some a := by
  have hkind : (ofChoice AccessibilityKind.table a.kind).datum.choice? dialect AccessibilityKind.table
      = some a.kind := choice_ofChoice dialect (by cases a.kind <;> decide)
  have hgesture : (ofChoice Gesture.table a.gesture).datum.choice? dialect Gesture.table
      = some a.gesture := choice_ofChoice dialect (by cases a.gesture <;> decide)
  rw [Datum.accessibilityEvent?, ofAccessibilityEvent, fields_ofRecord (by decide) rfl]
  simp only [List.map_cons, List.map_nil, Datum.required?, Option.bind_some, hkind, hgesture, uint64_ofUInt64]
  rfl

theorem scriptedPath_ofScriptedPath (p : ScriptedPath) :
    (ofScriptedPath p).datum.scriptedPath? dialect = if p.isFinite then some p else none := by
  have hpositions := Datum.list_map point_ofPoint p.positions
  rw [Datum.scriptedPath?, ofScriptedPath, fields_ofRecord (by decide) rfl, ScriptedPath.isFinite]
  simp only [List.map_cons, List.map_nil, Datum.required?, Datum.optional?, Option.bind_some, datum,
    datumItems_map, hpositions, uint64_ofUInt64]
  cases p.positions.all Point.isFinite <;> rfl

theorem display_ofDisplay (d : Display) :
    (ofDisplay d).datum.display? dialect = if d.isFinite then some d else none := by
  rw [Datum.display?, ofDisplay, fields_ofRecord (by decide) rfl, Display.isFinite]
  simp only [List.map_cons, List.map_nil, Datum.required?, Option.bind_some, uint32_ofNat, single_ofSingle]
  cases Single.isFinite d.dpi <;> cases Single.isFinite d.pixelRatio <;> rfl

theorem filterSettings_ofFilterSettings (s : FilterSettings) :
    (ofFilterSettings s).datum.filterSettings? dialect = some s := by
  have hdelay : (ofChoice ClickDelay.table s.clickDelay).datum.choice? dialect ClickDelay.table
      = some s.clickDelay := choice_ofChoice dialect (by cases s.clickDelay <;> rfl)
  have hwindow : (ofChoice RepeatWindow.table s.repeatWindow).datum.choice? dialect RepeatWindow.table
      = some s.repeatWindow := choice_ofChoice dialect (by cases s.repeatWindow <;> rfl)
  rw [Datum.filterSettings?, ofFilterSettings, fields_ofRecord (by decide) rfl]
  simp only [List.map_cons, List.map_nil, Datum.optional?, hdelay, hwindow, datum, Datum.bool?]
  rfl

theorem recognizerSettings_ofRecognizerSettings (s : RecognizerSettings) :
    (ofRecognizerSettings s).datum.recognizerSettings? dialect = if s.isFinite then some s else none := by
  rw [Datum.recognizerSettings?, ofRecognizerSettings, fields_ofRecord (by decide) rfl,
    RecognizerSettings.isFinite]
  simp only [List.map_cons, List.map_nil, Datum.optional?, uint64_ofUInt64, single_ofSingle]
  cases Single.isFinite s.tapSlop <;> cases Single.isFinite s.touchSlop <;>
    cases Single.isFinite s.routeStep <;> rfl

theorem display_ofOption (d : Option Display) :
    ((d.map ofDisplay).getD null).datum.nullable? (Datum.display? dialect) =
      if d.all Display.isFinite then some d else none := by
  cases d with
  | none => rfl
  | some d =>
    have hdisplay := display_ofDisplay dialect d
    rw [Option.map_some, Option.getD_some, Option.all_some]
    rw [ofDisplay, ofRecord, datum_ofFields] at hdisplay ⊢
    rw [Datum.nullable?, hdisplay]
    · cases d.isFinite <;> rfl
    · exact fun h => by cases h

theorem configuration_ofConfiguration (c : Configuration) :
    (ofConfiguration c).datum.configuration? dialect = if c.isFinite then some c else none := by
  rw [Datum.configuration?, ofConfiguration, fields_ofRecord (by decide) rfl, Configuration.isFinite]
  simp only [List.map_cons, List.map_nil, Datum.optional?, filterSettings_ofFilterSettings,
    recognizerSettings_ofRecognizerSettings, display_ofOption]
  cases c.recognizer.isFinite <;> cases c.display.all Display.isFinite <;> rfl

end Reading

/-! ## Values that are kept -/

/-- A value that can be read back from its text and that a reader of whole values accepts, nested no deeper than a
limit. -/
structure IsKept (v : Json) (limit : Nat) : Prop where
  written : v.IsWritten
  plain : v.isPlain = true
  nested : v.depth ≤ limit

theorem isKept_array {vs : List Json} {limit : Nat} (h : ∀ v ∈ vs, v.IsKept limit) :
    (array vs).IsKept (limit + 1) := by
  suffices hitems : AreWritten vs ∧ arePlain vs = true ∧ depthItems vs ≤ limit by
    exact ⟨hitems.1, hitems.2.1, Nat.succ_le_succ hitems.2.2⟩
  induction vs with
  | nil => exact ⟨trivial, rfl, Nat.zero_le _⟩
  | cons v vs ih =>
    obtain ⟨hwritten, hplain, hnested⟩ := ih fun w hw => h w (List.mem_cons_of_mem v hw)
    have hv := h v List.mem_cons_self
    refine ⟨⟨hv.written, hwritten⟩, ?_, ?_⟩
    · rw [arePlain, hv.plain, hplain, Bool.and_self]
    · rw [depthItems]
      exact max_le hv.nested hnested

theorem isKept_ofFields {fields : List (String × Json)} {limit : Nat}
    (h : ∀ field ∈ fields, field.2.IsKept limit) : (ofFields fields).IsKept (limit + 1) := by
  rw [ofFields]
  suffices hmembers : MembersWritten (fields.map fun field => (some field.1, field.2)) ∧
      membersPlain (fields.map fun field => (some field.1, field.2)) = true ∧
      depthMembers (fields.map fun field => (some field.1, field.2)) ≤ limit by
    exact ⟨hmembers.1, hmembers.2.1, Nat.succ_le_succ hmembers.2.2⟩
  induction fields with
  | nil => exact ⟨trivial, rfl, Nat.zero_le _⟩
  | cons field fields ih =>
    obtain ⟨hwritten, hplain, hnested⟩ := ih fun other hother => h other (List.mem_cons_of_mem field hother)
    have hfield := h field List.mem_cons_self
    rw [List.map_cons]
    refine ⟨⟨rfl, hfield.written, hwritten⟩, ?_, ?_⟩
    · rw [membersPlain, hfield.plain, hplain]
      rfl
    · rw [depthMembers]
      exact max_le hfield.nested hnested

theorem isKept_ofRecord {names : List String} {values : List Json} {limit : Nat}
    (h : ∀ v ∈ values, v.IsKept limit) : (ofRecord names values).IsKept (limit + 1) :=
  isKept_ofFields fun field hfield => h field.2 (List.of_mem_zip hfield).2

theorem isKept_ofSingle (x : Float32) (limit : Nat) : (ofSingle x).IsKept limit :=
  ⟨isWritten_ofSingle x, isPlain_ofSingle x, by rw [depth_ofSingle]; exact Nat.zero_le _⟩

theorem isKept_ofInt {i : Int} (hlow : -0x8000000000000000 ≤ i) (hhigh : i ≤ 0xFFFFFFFFFFFFFFFF) (limit : Nat) :
    (ofInt i).IsKept limit :=
  ⟨Numeral.isWritten_ofInt i, by rw [ofInt, isPlain, fitsInteger_ofInt hlow hhigh, Bool.true_or],
    Nat.zero_le _⟩

theorem isKept_ofInt32 (i : Int32) (limit : Nat) : (ofInt i.toInt).IsKept limit := by
  have hlow := i.le_toInt
  have hhigh := i.toInt_lt
  exact isKept_ofInt (by omega) (by omega) limit

theorem isKept_ofUInt64 (n : UInt64) (limit : Nat) : (ofUInt64 n).IsKept limit := by
  have hlt := n.toNat_lt
  exact isKept_ofInt (by omega) (by omega) limit

theorem isKept_ofUInt32 (n : UInt32) (limit : Nat) : (ofNat n.toNat).IsKept limit := by
  have hlt := n.toNat_lt
  exact isKept_ofInt (by omega) (by omega) limit

theorem isKept_ofChoice {α : Type} [BEq α] (table : List (α × String)) (x : α) (limit : Nat) :
    (ofChoice table x).IsKept limit := ⟨rfl, rfl, Nat.zero_le _⟩

theorem isKept_boolean (b : Bool) (limit : Nat) : (boolean b).IsKept limit := ⟨trivial, rfl, Nat.zero_le _⟩

theorem isKept_ofPoint (p : Point) : (ofPoint p).IsKept 1 :=
  isKept_array (by simp only [List.forall_mem_cons, isKept_ofSingle]; simp)

theorem isKept_ofContact (c : Contact) : (ofContact c).IsKept 1 :=
  isKept_ofRecord (by simp only [List.forall_mem_cons, isKept_ofInt32, isKept_ofSingle]; simp)

theorem isKept_ofSample (s : Sample) : (ofSample s).IsKept 3 := by
  have hcontacts : (array (s.contacts.map ofContact)).IsKept 2 :=
    isKept_array (List.forall_mem_map.mpr fun c _ => isKept_ofContact c)
  exact isKept_ofRecord (by
    simp only [List.forall_mem_cons, isKept_ofInt32, isKept_ofChoice, isKept_ofUInt64, hcontacts]; simp)

theorem isKept_ofKeyEvent (k : KeyEvent) : (ofKeyEvent k).IsKept 1 :=
  isKept_ofRecord (by
    simp only [List.forall_mem_cons, isKept_ofInt32, isKept_ofChoice, isKept_ofUInt64]; simp)

theorem isKept_ofAccessibilityEvent (a : AccessibilityEvent) : (ofAccessibilityEvent a).IsKept 1 :=
  isKept_ofRecord (by simp only [List.forall_mem_cons, isKept_ofChoice, isKept_ofUInt64]; simp)

theorem isKept_ofScriptedPath (p : ScriptedPath) : (ofScriptedPath p).IsKept 3 := by
  have hpositions : (array (p.positions.map ofPoint)).IsKept 2 :=
    isKept_array (List.forall_mem_map.mpr fun q _ => isKept_ofPoint q)
  exact isKept_ofRecord (by simp only [List.forall_mem_cons, isKept_ofUInt64, hpositions]; simp)

theorem isKept_ofDisplay (d : Display) : (ofDisplay d).IsKept 1 :=
  isKept_ofRecord (by simp only [List.forall_mem_cons, isKept_ofUInt32, isKept_ofSingle]; simp)

theorem isKept_ofFilterSettings (s : FilterSettings) : (ofFilterSettings s).IsKept 1 :=
  isKept_ofRecord (by simp only [List.forall_mem_cons, isKept_ofChoice, isKept_boolean]; simp)

theorem isKept_ofRecognizerSettings (s : RecognizerSettings) : (ofRecognizerSettings s).IsKept 1 :=
  isKept_ofRecord (by simp only [List.forall_mem_cons, isKept_ofUInt64, isKept_ofSingle]; simp)

theorem isKept_ofConfiguration (c : Configuration) : (ofConfiguration c).IsKept 2 := by
  have hdisplay : ((c.display.map ofDisplay).getD null).IsKept 1 := by
    cases c.display with
    | none => exact ⟨trivial, rfl, Nat.zero_le _⟩
    | some d => exact isKept_ofDisplay d
  exact isKept_ofRecord (by
    simp only [List.forall_mem_cons, isKept_ofFilterSettings, isKept_ofRecognizerSettings, hdisplay]; simp)

/-! ## Reading records back -/

/-- What is read from the text of a value. -/
def reread {α : Type} (read : Dialect → Datum → Option α) (v : Json) : Option α :=
  (readDatum? v.render).bind (read dialect)

theorem reread_eq {α : Type} {read : Dialect → Datum → Option α} {v : Json} (h : v.IsWritten) :
    reread read v = read dialect v.datum := by
  rw [reread, readDatum?, read_render h, Option.map_some, Option.bind_some]

/-- **Records are read back from their JSON texts where all their floating values are finite, and only there.** -/
theorem records_reread :
    (∀ s : Sample, reread Datum.sample? (ofSample s) = if s.isFinite then some s else none) ∧
      (∀ p : ScriptedPath, reread Datum.scriptedPath? (ofScriptedPath p) = if p.isFinite then some p else none) ∧
      (∀ a : AccessibilityEvent, reread Datum.accessibilityEvent? (ofAccessibilityEvent a) = some a) ∧
      (∀ k : KeyEvent, reread Datum.keyEvent? (ofKeyEvent k) = some k) ∧
      (∀ d : Display, reread Datum.display? (ofDisplay d) = if d.isFinite then some d else none) ∧
      ∀ c : Configuration, reread Datum.configuration? (ofConfiguration c) = if c.isFinite then some c else none := by
  refine ⟨fun s => ?_, fun p => ?_, fun a => ?_, fun k => ?_, fun d => ?_, fun c => ?_⟩
  · rw [reread_eq (isKept_ofSample s).written, sample_ofSample]
  · rw [reread_eq (isKept_ofScriptedPath p).written, scriptedPath_ofScriptedPath]
  · rw [reread_eq (isKept_ofAccessibilityEvent a).written, accessibilityEvent_ofAccessibilityEvent]
  · rw [reread_eq (isKept_ofKeyEvent k).written, keyEvent_ofKeyEvent]
  · rw [reread_eq (isKept_ofDisplay d).written, display_ofDisplay]
  · rw [reread_eq (isKept_ofConfiguration c).written, configuration_ofConfiguration]

end Json

end TouchStream
