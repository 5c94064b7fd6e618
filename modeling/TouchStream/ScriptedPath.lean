import TouchStream.Sample

/-!
# Scripted paths

A scripted path is a polyline with a duration. It stands for the samples of a finger that follows it: a
down at the first position, a move at each later one, evenly timed, and an up at the last one.
-/

namespace TouchStream

/-- A polyline that one finger follows. -/
structure ScriptedPath where
  positions : List Point
  /-- The time from the first position to the last. -/
  duration : Micros
  /-- The time of the first position. -/
  start : Micros
deriving DecidableEq, Repr

namespace ScriptedPath

/-- The time of the last sample. -/
def endTime (p : ScriptedPath) : Micros := p.start.later p.duration

/-- `k` times the duration, in twice the width of a time. -/
def moveProduct (p : ScriptedPath) (k : Nat) : BitVec 128 :=
  p.duration.toBitVec.setWidth 128 * .ofNat 128 k

/-- `k / steps` of the duration, rounded down and cut to the width of a time. -/
def moveOffset (p : ScriptedPath) (steps k : Nat) : Micros :=
  .ofBitVec ((p.moveProduct k / .ofNat 128 steps).setWidth 64)

/-- The time of the `k`-th of `steps` moves: `k / steps` of the duration after the start, rounded down. -/
def moveTime (p : ScriptedPath) (steps k : Nat) : Micros := p.start.later (p.moveOffset steps k)

/-- The samples of the finger that follows the path. -/
def samples (p : ScriptedPath) : List Sample :=
  match p.positions with
  | [] => []
  | first :: rest =>
    .touch .down first p.start
      :: rest.mapIdx (fun i point => .touch .move point (p.moveTime rest.length (i + 1)))
      ++ [.touch .up (rest.getLastD first) p.endTime]

end ScriptedPath

end TouchStream
