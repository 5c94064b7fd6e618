import TouchStream.ConfigFile
import TouchStream.Json.Records
import TouchStream.Pipeline

/-!
# Replaying recordings

A recording is a JSON text with a list of samples or of scripted paths. It is fed to a pipeline, and every
sample that the pipeline forwards and every decision becomes a line.

* `Replay.recording?`: the samples of a recording.
* `Replay.play`: the lines for some samples.
* `Replay.run`: the whole run, from the arguments to the lines or the error.
-/

namespace TouchStream.Replay

/-! ## Recordings -/

/-- How deep a recording may be nested. -/
def depthLimit : Nat := 127

/-- The samples of a recording. A list that can be read as samples is one of samples; else it is one of
scripted paths. -/
def recording? (text : String) : Option (List Sample) :=
  match Json.read? text with
  | none => none
  | some v =>
    if v.isPlain && v.depth ≤ depthLimit then
      let d := v.datum
      let paths? := d.list? (Datum.scriptedPath? Json.dialect)
      (d.list? (Datum.sample? Json.dialect)).or
        (paths?.map fun paths => paths.flatMap ScriptedPath.samples)
    else none

/-! ## Lines -/

/-- A time, right-aligned in ten columns. -/
def timeColumn (t : Micros) : String :=
  let digits := digitsOf t.toNat
  String.ofList (List.replicate (10 - digits.length) ' ' ++ digits)

/-- The line for a forwarded event. Only samples have one. -/
def deliveryLine? : Event → Option String
  | .pointer s => some (timeColumn s.time ++ "us forwarded " ++ s.action.name)
  | _ => none

/-- The line for a decision, with the time at which the pipeline is. -/
def decisionLine (now : Micros) (d : Decision) : String :=
  timeColumn now ++ "us gesture " ++ d.text

/-- The lines for the reports of one step: first the forwarded samples, then the decisions. -/
def linesOf (now : Micros) (reports : List Report) : List String :=
  (deliveriesOf reports).filterMap deliveryLine? ++ (decisionsOf reports).map (decisionLine now)

/-- The lines for some samples, and the pipeline after them. -/
def feed : Pipeline → List Sample → Pipeline × List String
  | p, [] => (p, [])
  | p, s :: rest =>
    let (p, _, reports) := p.pointer s
    let lines := linesOf p.clock reports
    let (p, more) := feed p rest
    (p, lines ++ more)

/-- The lines for some samples, the timers that are pending after the last one included. -/
def play (p : Pipeline) (samples : List Sample) : List String :=
  let (p, lines) := feed p samples
  let (p, reports) := p.flush
  lines ++ linesOf p.clock reports

/-! ## Runs -/

/-- Why a run fails. -/
inductive Failure
  | usage
  | configuration (path : String)
  | reading (path : String)
  | parsing (path : String)
  | building
deriving DecidableEq, Repr

/-- The text of a failure. -/
def Failure.message : Failure → String
  | usage => "usage: a11y-touch <config.toml|-> <samples.json>"
  | configuration path => "loading config " ++ path
  | reading path => "reading " ++ path
  | parsing path => "parsing " ++ path
  | building => "building pipeline"

/-- The configuration that the first argument names. A dash stands for the defaults. -/
def configuration (files : String → FileState) (path : String) : Except Failure Configuration :=
  if path = "-" then .ok {}
  else (ConfigFile.load (files path)).mapError fun _ => .configuration path

/-- The samples in the file that the second argument names. -/
def samples (files : String → FileState) (path : String) : Except Failure (List Sample) :=
  match (files path).text? with
  | none => .error (.reading path)
  | some text =>
    match recording? text with
    | none => .error (.parsing path)
    | some samples => .ok samples

/-- The pipeline of a run: what is forwarded is delivered. -/
def pipeline (config : Configuration) : Except Failure Pipeline :=
  let plan : Pipeline.Plan :=
    { config := config, listener := some .attentive, output := [.sink] }
  plan.build.mapError fun _ => .building

/-- The lines of a run with some arguments, or why it fails. -/
def run (files : String → FileState) : List String → Except Failure (List String)
  | [configPath, samplesPath] => do
    let config ← configuration files configPath
    let samples ← samples files samplesPath
    let p ← pipeline config
    return play p samples
  | _ => .error .usage

end TouchStream.Replay
