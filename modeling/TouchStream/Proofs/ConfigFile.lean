import TouchStream.ConfigFile
import TouchStream.Proofs.Data
import TouchStream.Proofs.Toml.Document

/-!
# Configuration files read back

A configuration is written section by section, with every field in the order of the field names, and each field is
found again. All values are kept as they are: integers as far as they can be written, and floating values of every
kind, since what is no number is one value.

* `Toml.arePlain_ofConfiguration`: the sections can be read back.
* `Toml.configuration_sections`: what is read from them.
* `ConfigFile.print_eq_none`: a configuration cannot be written when one of its durations is too long.
* `ConfigFile.load_save`: what is loaded after a configuration has been saved.
-/

namespace TouchStream

namespace Toml

/-! ## Plain sections -/

theorem isPlain_ofRecord {name : String} {names : List String} {values : List Scalar} (hname : IsBareName name)
    (hnames : ∀ n ∈ names, IsBareName n) (hnodup : names.Nodup) (hlength : names.length = values.length)
    (hvalues : ∀ v ∈ values, v.IsPlain) : (ofRecord name names values).IsPlain where
  name := hname
  fields := by
    intro field hfield
    obtain ⟨hkey, hvalue⟩ := List.of_mem_zip hfield
    exact ⟨hnames _ hkey, hvalues _ hvalue⟩
  nodup := by
    rw [ofRecord, List.map_fst_zip hlength.le]
    exact hnodup

theorem isPlain_filter (s : FilterSettings) :
    (ofRecord "screen_touch" Datum.filterFields (ofFilterSettings s)).IsPlain := by
  have hdelay : (ofChoice ClickDelay.table s.clickDelay).IsPlain := by
    cases s.clickDelay <;> decide
  have hwindow : (ofChoice RepeatWindow.table s.repeatWindow).IsPlain := by
    cases s.repeatWindow <;> decide
  apply isPlain_ofRecord (by decide) (by decide) (by decide) rfl
  simp only [ofFilterSettings, List.forall_mem_cons, hdelay, hwindow]
  simp [Scalar.IsPlain]

theorem isPlain_recognizer (s : RecognizerSettings) :
    (ofRecord "gesture" Datum.recognizerFields (ofRecognizerSettings s)).IsPlain := by
  apply isPlain_ofRecord (by decide) (by decide) (by decide) rfl
  simp [ofRecognizerSettings, ofUInt64, Scalar.IsPlain]

theorem isPlain_display (d : Display) : (ofRecord "display" Datum.displayFields (ofDisplay d)).IsPlain := by
  apply isPlain_ofRecord (by decide) (by decide) (by decide) rfl
  simp [ofDisplay, Scalar.IsPlain]

theorem arePlain_ofConfiguration (c : Configuration) : ArePlain (ofConfiguration c) where
  plain := by
    rw [ofConfiguration]
    simp only [List.forall_mem_append, List.forall_mem_cons, isPlain_filter, isPlain_recognizer]
    cases c.display with
    | none => simp
    | some d => simp [isPlain_display]
  nodup := by
    rw [ofConfiguration]
    cases c.display with
    | none =>
      show ["screen_touch", "gesture"].Nodup
      decide
    | some d =>
      show ["screen_touch", "gesture", "display"].Nodup
      decide

/-! ## What can be written -/

theorem write_integer (n : ℕ) : (Scalar.integer n).write? = none ↔ 2 ^ 63 - 1 < n := by
  rw [Scalar.write?]
  split
  · rename_i hn
    simp only [reduceCtorEq, false_iff]
    omega
  · rename_i hn
    simp only [true_iff]
    omega

theorem write_single (x : Float32) : (Scalar.single x).write? ≠ none := by
  intro h
  cases h

theorem write_ofRecord {name : String} {names : List String} {values : List Scalar}
    (hlength : names.length = values.length) :
    (∃ field ∈ (ofRecord name names values).fields, field.2.write? = none) ↔ ∃ v ∈ values, v.write? = none := by
  have hvalues : (names.zip values).map Prod.snd = values := List.map_snd_zip hlength.ge
  conv_rhs => rw [← hvalues]
  simp only [ofRecord, List.mem_map, exists_exists_and_eq_and]

/-! ## Fields -/

/-- The fields of a section are read back in their order. -/
theorem fields_ofRecord {dialect : Dialect} {name : String} {names : List String} {values : List Scalar}
    (h : names.Nodup) (hlength : names.length = values.length) :
    (ofRecord name names values).datum.fields? dialect names = some (values.map fun v => some v.datum) := by
  have hzip : (names.zip values).map (fun field => (field.1, field.2.datum)) =
      names.zip (values.map Scalar.datum) := by
    rw [List.zip_map_right]
    rfl
  rw [ofRecord, Section.datum, hzip, Datum.fields_zip h (by rw [List.length_map, hlength]), List.map_map]
  rfl

theorem uint64_integer (n : UInt64) : (ofUInt64 n).datum.uint64? = some n := by
  have hlt := n.toNat_lt
  rw [ofUInt64, Scalar.datum, Datum.uint64?, Datum.integerBetween?, if_pos (by omega), Option.map_some,
    Int.toNat_natCast, UInt64.ofNat_toNat]

theorem uint32_integer (n : UInt32) : (Scalar.integer n.toNat).datum.uint32? = some n := by
  have hlt := n.toNat_lt
  rw [Scalar.datum, Datum.uint32?, Datum.integerBetween?, if_pos (by omega), Option.map_some,
    Int.toNat_natCast, UInt32.ofNat_toNat]

theorem single_datum (x : Float32) : (Scalar.single x).datum.single? = some x := by
  rw [Scalar.datum, Datum.single?, ofDouble_carried]

variable (dialect : Dialect)

theorem filterSettings_section (s : FilterSettings) :
    (ofRecord "screen_touch" Datum.filterFields (ofFilterSettings s)).datum.filterSettings? dialect = some s := by
  have hdelay : (ofChoice ClickDelay.table s.clickDelay).datum.choice? dialect ClickDelay.table
      = some s.clickDelay := by cases s.clickDelay <;> rfl
  have hwindow : (ofChoice RepeatWindow.table s.repeatWindow).datum.choice? dialect RepeatWindow.table
      = some s.repeatWindow := by cases s.repeatWindow <;> rfl
  have hignore : (Scalar.boolean s.ignoreRepeat).datum.bool? = some s.ignoreRepeat := rfl
  rw [Datum.filterSettings?, fields_ofRecord (by decide) rfl, ofFilterSettings]
  simp only [List.map_cons, List.map_nil, Datum.optional?, hdelay, hignore, hwindow]
  rfl

theorem recognizerSettings_section (s : RecognizerSettings) :
    (ofRecord "gesture" Datum.recognizerFields (ofRecognizerSettings s)).datum.recognizerSettings? dialect =
      some s := by
  rw [Datum.recognizerSettings?, fields_ofRecord (by decide) rfl, ofRecognizerSettings]
  simp only [List.map_cons, List.map_nil, Datum.optional?, uint64_integer, single_datum]
  rfl

theorem display_section (d : Display) :
    (ofRecord "display" Datum.displayFields (ofDisplay d)).datum.display? dialect = some d := by
  rw [Datum.display?, fields_ofRecord (by decide) rfl, ofDisplay]
  simp only [List.map_cons, List.map_nil, Datum.required?, Option.bind_some, uint32_integer, single_datum]
  rfl

/-- The sections of a configuration are read back, and no display where there is no section for it. -/
theorem configuration_sections (c : Configuration) :
    (Datum.record ((ofConfiguration c).map fun s => (s.name, s.datum))).configuration? dialect = some c := by
  obtain ⟨filter, recognizer, display⟩ := c
  have hfilter := filterSettings_section dialect filter
  have hrecognizer := recognizerSettings_section dialect recognizer
  have hnames := (arePlain_ofConfiguration ⟨filter, recognizer, display⟩).nodup
  rw [Datum.configuration?, Datum.fields_record (by rw [List.map_map]; exact hnames)]
  cases display with
  | none =>
    have hlookup : (Datum.configurationFields.map fun name =>
        ((ofConfiguration ⟨filter, recognizer, none⟩).map fun s => (s.name, s.datum)).lookup name) =
        [some (ofRecord "screen_touch" Datum.filterFields (ofFilterSettings filter)).datum,
         some (ofRecord "gesture" Datum.recognizerFields (ofRecognizerSettings recognizer)).datum, none] := rfl
    rw [hlookup]
    simp only [Datum.optional?, hfilter, hrecognizer]
    rfl
  | some d =>
    have hdisplay : (ofRecord "display" Datum.displayFields (ofDisplay d)).datum.nullable?
        (Datum.display? dialect) = some (some d) := congrArg (Option.map some) (display_section dialect d)
    have hlookup : (Datum.configurationFields.map fun name =>
        ((ofConfiguration ⟨filter, recognizer, some d⟩).map fun s => (s.name, s.datum)).lookup name) =
        [some (ofRecord "screen_touch" Datum.filterFields (ofFilterSettings filter)).datum,
         some (ofRecord "gesture" Datum.recognizerFields (ofRecognizerSettings recognizer)).datum,
         some (ofRecord "display" Datum.displayFields (ofDisplay d)).datum] := rfl
    rw [hlookup]
    simp only [Datum.optional?, hfilter, hrecognizer, hdisplay]
    rfl

end Toml

/-! ## Durations and distances -/

/-- Nothing is below what is no number. -/
theorem Single.not_le_of_isNaN {x y : Float32} (h : y.isNaN = true) : ¬ x ≤ y := by
  intro hle
  have hcompare : decide (x.toModel ≤ y.toModel) = true := hle
  replace hle : x.toModel.unpack.le y.toModel.unpack = true := of_decide_eq_true hcompare
  rw [Float32.isNaN, Float32.Model.isNaN] at h
  cases hy : y.toModel.unpack with
  | notANumber =>
    rw [hy] at hle
    cases hx : x.toModel.unpack <;> rw [hx] at hle <;> cases hle
  | _ =>
    rw [hy] at h
    cases h

namespace RecognizerSettings

/-- The durations of the limits. -/
def durations (s : RecognizerSettings) : List Micros :=
  [s.doubleTapTimeout, s.minDoubleTapInterval, s.longPressTimeout, s.notStartedTimeout, s.startedTimeout]

/-- The distances of the limits. -/
def distances (s : RecognizerSettings) : List Float32 := [s.tapSlop, s.touchSlop, s.routeStep]

/-- Limits with a distance that is no number have a fault. -/
theorem check_of_isNaN {s : RecognizerSettings} {x : Float32} (hx : x ∈ s.distances) (h : x.isNaN = true) :
    s.check ≠ .ok () := by
  have hnot : ¬ 0 ≤ x := Single.not_le_of_isNaN h
  have hdistances : s.distancesOk = false := by
    rw [← Bool.not_eq_true, distancesOk, Bool.and_eq_true, Bool.and_eq_true, decide_eq_true_eq, decide_eq_true_eq,
      decide_eq_true_eq]
    rintro ⟨⟨htap, htouch⟩, hstep⟩
    simp only [distances, List.mem_cons, List.not_mem_nil, or_false] at hx
    rcases hx with rfl | rfl | rfl
    · exact hnot htap
    · exact hnot htouch
    · exact hnot hstep
  intro hcheck
  rw [check] at hcheck
  split at hcheck
  · cases hcheck
  · split at hcheck
    · cases hcheck
    · rw [hdistances, if_neg Bool.false_ne_true] at hcheck
      cases hcheck

end RecognizerSettings

namespace ConfigFile

/-- A configuration cannot be written where one of its durations does not fit into 64 bits with a sign. -/
theorem print_eq_none (c : Configuration) :
    print? c = none ↔ ∃ t ∈ c.recognizer.durations, 2 ^ 63 - 1 < t.toNat := by
  have hfilter : ¬ ∃ field ∈ (Toml.ofRecord "screen_touch" Datum.filterFields
      (Toml.ofFilterSettings c.filter)).fields, field.2.write? = none := by
    rw [Toml.write_ofRecord rfl]
    simp [Toml.ofFilterSettings, Toml.ofChoice, Toml.Scalar.write?]
  have hdisplay : ∀ d, ¬ ∃ field ∈ (Toml.ofRecord "display" Datum.displayFields (Toml.ofDisplay d)).fields,
      field.2.write? = none := by
    intro d
    have hwidth := d.width.toNat_lt
    have hheight := d.height.toNat_lt
    rw [Toml.write_ofRecord rfl]
    rintro ⟨v, hv, hnone⟩
    simp only [Toml.ofDisplay, List.mem_cons, List.not_mem_nil, or_false] at hv
    rcases hv with rfl | rfl | rfl | rfl
    · have := (Toml.write_integer _).mp hnone
      omega
    · have := (Toml.write_integer _).mp hnone
      omega
    · exact Toml.write_single _ hnone
    · exact Toml.write_single _ hnone
  have hrecognizer : (∃ field ∈ (Toml.ofRecord "gesture" Datum.recognizerFields
      (Toml.ofRecognizerSettings c.recognizer)).fields, field.2.write? = none) ↔
      ∃ t ∈ c.recognizer.durations, 2 ^ 63 - 1 < t.toNat := by
    rw [Toml.write_ofRecord rfl]
    simp only [Toml.ofRecognizerSettings, RecognizerSettings.durations, List.exists_mem_cons_iff, Toml.ofUInt64,
      Toml.write_integer, Toml.write_single]
    simp
  rw [print?, Toml.render_eq_none, Toml.ofConfiguration, ← hrecognizer]
  simp only [List.cons_append, List.nil_append, List.exists_mem_cons_iff]
  cases c.display with
  | none => simp [hfilter]
  | some d =>
    simp only [Option.map_some, Option.toList_some, List.exists_mem_cons_iff, hfilter, hdisplay]
    simp

theorem text_file (s : String) : (FileState.file s.toUTF8).text? = some s := by
  have hvalid : s.toUTF8.IsValidUTF8 := s.isValidUTF8
  rw [FileState.text?, String.fromUTF8?, dif_pos hvalid]
  rfl

theorem parse_print {c : Configuration} {text : String} (h : print? c = some text) : parse? text = some c := by
  rw [parse?, Toml.readDatum_render (Toml.arePlain_ofConfiguration c) h, Option.bind_some,
    Toml.configuration_sections]

theorem load_file {c : Configuration} {text : String} (h : parse? text = some c) :
    load (.file text.toUTF8) =
      match c.recognizer.check with
      | .error fault => .error (.invalid fault)
      | .ok () => .ok c := by
  rw [load]
  · rw [text_file]
    cases hcheck : c.recognizer.check <;> simp only [h, hcheck]
  · exact fun hplace => by cases hplace

theorem save_of_print (c : Configuration) {place : FileState} (hplace : place ≠ .unreadable) :
    save c false place =
      match print? c with
      | none => (place, .error .unwritable)
      | some text => (.file text.toUTF8, .ok ()) := by
  unfold save
  rw [if_neg Bool.false_ne_true]
  cases print? c with
  | none => rfl
  | some text =>
    cases place with
    | absent => rfl
    | unreadable => exact absurd rfl hplace
    | file content => rfl

/-- **Configurations are read back from their files.** Saving one fails where a duration of the recognizer does not
fit into 64 bits with a sign, and leaves what was there. Otherwise loading it fails where the recognizer cannot work
with its limits, which includes all those with a distance that is no number, and gives the same configuration,
bit by bit, elsewhere. -/
theorem load_save (c : Configuration) {place : FileState} (hplace : place ≠ .unreadable) :
    ((save c false place).2 = .error .unwritable ↔ ∃ t ∈ c.recognizer.durations, 2 ^ 63 - 1 < t.toNat) ∧
      ((save c false place).2 = .error .unwritable → (save c false place).1 = place) ∧
      ((save c false place).2 ≠ .error .unwritable →
        (save c false place).2 = .ok () ∧
          (∀ fault, load (save c false place).1 = .error (.invalid fault) ↔ c.recognizer.check = .error fault) ∧
          (c.recognizer.check = .ok () → load (save c false place).1 = .ok c)) ∧
      ∀ x ∈ c.recognizer.distances, x.isNaN = true → c.recognizer.check ≠ .ok () := by
  have hsave := save_of_print c hplace
  refine ⟨?_, ?_, ?_, fun x hx => RecognizerSettings.check_of_isNaN hx⟩
  · rw [← print_eq_none, hsave]
    cases print? c <;> simp
  · rw [hsave]
    cases print? c <;> simp
  · rw [hsave]
    cases hprint : print? c with
    | none =>
      intro h
      exact absurd rfl h
    | some text =>
      intro _
      have hload := load_file (parse_print hprint)
      refine ⟨rfl, ?_, ?_⟩
      · intro fault
        rw [hload]
        cases c.recognizer.check <;> simp
      · intro hcheck
        rw [hload, hcheck]

/-- A negative zero and an infinite distance are kept, and so are an infinite density and a ratio that is no number. -/
theorem load_save_extremes :
    let c : Configuration :=
      { filter := ⟨.long, true, .longest⟩
        recognizer := ⟨9223372036854775807, 0, 1, 1, 1, -0.0, 1 / 0, 0.1⟩
        display := some ⟨1080, 0, -1 / 0, 0 / 0⟩ }
    FileState.absent ≠ .unreadable ∧ load (save c false .absent).1 = .ok c := by
  intro c
  have hplace : FileState.absent ≠ .unreadable := by
    intro h
    cases h
  obtain ⟨hfails, -, hsaved, -⟩ := load_save c hplace
  have hdurations : ¬ ∃ t ∈ c.recognizer.durations, 2 ^ 63 - 1 < t.toNat := by decide
  have hcheck : c.recognizer.check = .ok () := by decide +kernel
  exact ⟨hplace, (hsaved (mt hfails.mp hdurations)).2.2 hcheck⟩

end ConfigFile

end TouchStream
