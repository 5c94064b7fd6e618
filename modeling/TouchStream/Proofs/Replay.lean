import TouchStream.Proofs.ConfigFile
import TouchStream.Proofs.Json.Records
import TouchStream.Proofs.Pipeline.Run
import TouchStream.Replay

/-!
# Replaying scripted paths

A recording may hold scripted paths in the place of their samples. No list of paths is taken for samples, since a
path has no pointer (`Replay.sample_path`), so the recording of some paths and that of their samples stand for the
same samples (`Replay.recording_paths`, `Replay.recording_samples`), and a run prints the same lines for both
(`Replay.run_paths_eq_run_samples`).
-/

namespace TouchStream

/-! ## The samples of a path -/

theorem ScriptedPath.mem_samples {p : ScriptedPath} {s : Sample} (h : s ∈ p.samples) :
    ∃ action point time, s = .touch action point time ∧ point ∈ p.positions := by
  rw [samples] at h
  split at h
  · cases h
  · rename_i first rest hpositions
    rw [hpositions]
    rw [List.cons_append, List.mem_cons, List.mem_append, List.mem_mapIdx, List.mem_singleton] at h
    rcases h with rfl | ⟨i, hi, rfl⟩ | rfl
    · exact ⟨_, _, _, rfl, List.mem_cons_self⟩
    · exact ⟨_, _, _, rfl, List.mem_cons_of_mem _ (List.getElem_mem hi)⟩
    · refine ⟨_, _, _, rfl, ?_⟩
      rcases List.eq_nil_or_concat rest with hnil | ⟨rest', last, hlast⟩
      · rw [hnil]
        exact List.mem_cons_self
      · rw [hlast]
        simp

theorem ScriptedPath.isFinite_samples {paths : List ScriptedPath} (h : ∀ p ∈ paths, p.isFinite = true) :
    (paths.flatMap samples).all Sample.isFinite = true := by
  rw [List.all_eq_true]
  intro s hs
  obtain ⟨p, hp, hs⟩ := List.mem_flatMap.mp hs
  obtain ⟨action, point, time, rfl, hpoint⟩ := mem_samples hs
  have hfinite := List.all_eq_true.mp (h p hp) point hpoint
  simp [Sample.isFinite, Sample.touch, Contact.isFinite, hfinite]

namespace Replay

variable {paths : List ScriptedPath}

/-! ## Recordings -/

theorem recording_of_datum {v : Json} (h : v.IsKept 127) :
    recording? v.render = (v.datum.list? (Datum.sample? Json.dialect)).or
      ((v.datum.list? (Datum.scriptedPath? Json.dialect)).map fun paths => paths.flatMap ScriptedPath.samples) := by
  have hnested : v.depth ≤ depthLimit := h.nested
  rw [recording?, Json.read_render h.written]
  simp only [h.plain, hnested, decide_true, Bool.and_self, if_true]

/-- No scripted path is a sample: it names no pointer. -/
theorem sample_path (p : ScriptedPath) : (Json.ofScriptedPath p).datum.sample? Json.dialect = none := by
  rw [Json.ofScriptedPath, Json.ofRecord, Json.datum_ofFields]
  rfl

theorem recording_samples {samples : List Sample} (h : samples.all Sample.isFinite = true) :
    recording? (Json.array (samples.map Json.ofSample)).render = some samples := by
  have hkept : (Json.array (samples.map Json.ofSample)).IsKept 4 :=
    Json.isKept_array (List.forall_mem_map.mpr fun s _ => Json.isKept_ofSample s)
  rw [recording_of_datum ⟨hkept.written, hkept.plain, hkept.nested.trans (by decide)⟩, Json.datum,
    Json.datumItems_map, Datum.list_map (Json.sample_ofSample Json.dialect), if_pos h, Option.some_or]

theorem recording_paths (h : ∀ p ∈ paths, p.isFinite = true) :
    recording? (Json.array (paths.map Json.ofScriptedPath)).render = some (paths.flatMap ScriptedPath.samples) := by
  have hkept : (Json.array (paths.map Json.ofScriptedPath)).IsKept 4 :=
    Json.isKept_array (List.forall_mem_map.mpr fun p _ => Json.isKept_ofScriptedPath p)
  rw [recording_of_datum ⟨hkept.written, hkept.plain, hkept.nested.trans (by decide)⟩, Json.datum,
    Json.datumItems_map, Datum.list_map (Json.scriptedPath_ofScriptedPath Json.dialect),
    if_pos (List.all_eq_true.mpr h), Option.map_some]
  cases paths with
  | nil => rfl
  | cons p paths =>
    -- the first path already is no sample
    rw [List.map_cons, Datum.list?, List.mapM_cons, sample_path]
    rfl

/-! ## Runs -/

/-- A file with the text of a value. -/
def holding (v : Json) : FileState := .file v.render.toUTF8

theorem samples_holding {files : String → FileState} {path : String} {v : Json} {samples : List Sample}
    (hfile : files path = holding v) (h : recording? v.render = some samples) :
    Replay.samples files path = .ok samples := by
  rw [Replay.samples, hfile, holding, ConfigFile.text_file]
  simp only [h]

theorem run_eq {files : String → FileState} {configPath path : String} {config : Configuration}
    {samples : List Sample} {p : Pipeline} (hconfig : configuration files configPath = .ok config)
    (hsamples : Replay.samples files path = .ok samples) (hpipeline : pipeline config = .ok p) :
    run files [configPath, path] = .ok (play p samples) := by
  rw [run, hconfig, hsamples]
  simp only [bind, Except.bind, hpipeline]
  rfl

/-- A configuration that is loaded has passed its check. -/
theorem check_of_load {place : FileState} {config : Configuration} (h : ConfigFile.load place = .ok config) :
    config.recognizer.check = .ok () := by
  unfold ConfigFile.load at h
  split at h
  · obtain rfl := Except.ok.inj h
    exact Pipeline.check_default
  · split at h
    · cases h
    · split at h
      · cases h
      · split at h
        · cases h
        · rename_i hcheck
          obtain rfl := Except.ok.inj h
          exact hcheck

theorem check_of_configuration {files : String → FileState} {path : String} {config : Configuration}
    (h : configuration files path = .ok config) : config.recognizer.check = .ok () := by
  rw [configuration] at h
  split at h
  · obtain rfl := Except.ok.inj h
    exact Pipeline.check_default
  · cases hload : ConfigFile.load (files path) with
    | error e =>
      rw [hload] at h
      cases h
    | ok loaded =>
      rw [hload] at h
      obtain rfl := Except.ok.inj h
      exact check_of_load hload

/-- **A run prints the same lines for a file with scripted paths as for a file with their samples.** -/
theorem run_paths_eq_run_samples {files : String → FileState} {configPath pathsFile samplesFile : String}
    {config : Configuration} (hconfig : configuration files configPath = .ok config)
    (hfinite : ∀ p ∈ paths, p.isFinite = true)
    (hpaths : files pathsFile = holding (.array (paths.map Json.ofScriptedPath)))
    (hsamples : files samplesFile = holding (.array ((paths.flatMap ScriptedPath.samples).map Json.ofSample))) :
    ∃ p, pipeline config = .ok p ∧
      run files [configPath, pathsFile] = .ok (play p (paths.flatMap ScriptedPath.samples)) ∧
      run files [configPath, samplesFile] = .ok (play p (paths.flatMap ScriptedPath.samples)) := by
  obtain ⟨p, hpipeline⟩ : ∃ p, pipeline config = .ok p := by
    rw [pipeline, Pipeline.build_eq_built rfl (check_of_configuration hconfig)]
    exact ⟨_, rfl⟩
  have hread₁ := samples_holding hpaths (recording_paths hfinite)
  have hread₂ := samples_holding hsamples (recording_samples (ScriptedPath.isFinite_samples hfinite))
  exact ⟨p, hpipeline, run_eq hconfig hread₁ hpipeline, run_eq hconfig hread₂ hpipeline⟩

/-- A stroke of two points and the path without points, with the default configuration. -/
theorem run_stroke_eq_run_samples :
    let paths : List ScriptedPath := [⟨[⟨10, 20⟩, ⟨300, 20⟩], 50000, 0⟩, ⟨[], 7, 3⟩]
    let files : String → FileState := fun path =>
      if path = "paths" then holding (.array (paths.map Json.ofScriptedPath))
      else holding (.array ((paths.flatMap ScriptedPath.samples).map Json.ofSample))
    (configuration files "-" = .ok {} ∧ (∀ p ∈ paths, p.isFinite = true)) ∧
      ∃ p, pipeline {} = .ok p ∧
        run files ["-", "paths"] = .ok (play p (paths.flatMap ScriptedPath.samples)) ∧
        run files ["-", "samples"] = .ok (play p (paths.flatMap ScriptedPath.samples)) := by
  intro paths files
  have hfinite : ∀ p ∈ paths, p.isFinite = true := by decide +kernel
  exact ⟨⟨rfl, hfinite⟩, run_paths_eq_run_samples rfl hfinite rfl rfl⟩

end Replay

end TouchStream
