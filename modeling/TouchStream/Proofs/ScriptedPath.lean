import Mathlib.Algebra.Ring.Nat
import TouchStream.ScriptedPath

/-!
# The times of scripted paths

The moves of a scripted path come at equal shares of its duration, each rounded down to whole
microseconds and stopped at the last time there is. The shares are exact as long as the path has
fewer than 2⁶⁴ positions: then the product fits into 128 bits and the quotient into 64
(`toNat_moveProduct`, `toNat_moveOffset`).

* `share_succ`: from one share to the next it is the same time, or a microsecond more.
* `times_samples`: the times of all samples of a path.
* `EvenlyTimed`: samples that visit the positions in order and are evenly timed.
* `samples_evenlyTimed`: those of a scripted path are.
-/

namespace TouchStream

namespace ScriptedPath

variable {p : ScriptedPath} {steps j k : Nat}

/-! ## Shares of the duration -/

theorem share_le {d : Nat} (h : k ≤ steps) : d * k / steps ≤ d :=
  Nat.div_le_of_le_mul (by rw [Nat.mul_comm steps]; exact Nat.mul_le_mul_left _ h)

theorem share_mono {d : Nat} (h : j ≤ k) : d * j / steps ≤ d * k / steps :=
  Nat.div_le_div_right (Nat.mul_le_mul_left _ h)

/-- Between two shares lies the same time everywhere, or a microsecond more. -/
theorem share_succ {d : Nat} (h : 0 < steps) :
    d * (k + 1) / steps = d * k / steps + d / steps ∨
      d * (k + 1) / steps = d * k / steps + d / steps + 1 := by
  rw [Nat.mul_succ, Nat.add_div h]
  split
  · exact Or.inr rfl
  · exact Or.inl rfl

theorem toNat_moveProduct (h : k < 2 ^ 64) :
    (p.moveProduct k).toNat = p.duration.toNat * k := by
  have hduration : p.duration.toNat < 2 ^ 128 := Nat.lt_trans p.duration.toNat_lt (by decide)
  have hk : k < 2 ^ 128 := Nat.lt_trans h (by decide)
  have hproduct : p.duration.toNat * k < 2 ^ 128 :=
    calc
      p.duration.toNat * k ≤ p.duration.toNat * 2 ^ 64 := Nat.mul_le_mul_left _ (Nat.le_of_lt h)
      _ < 2 ^ 64 * 2 ^ 64 := Nat.mul_lt_mul_of_pos_right p.duration.toNat_lt (by decide)
      _ = 2 ^ 128 := by decide
  rw [moveProduct, BitVec.toNat_mul, BitVec.toNat_setWidth, BitVec.toNat_ofNat,
    UInt64.toNat_toBitVec, Nat.mod_eq_of_lt hduration, Nat.mod_eq_of_lt hk,
    Nat.mod_eq_of_lt hproduct]

theorem toNat_moveOffset (hsteps : steps < 2 ^ 64) (h : k ≤ steps) :
    (p.moveOffset steps k).toNat = p.duration.toNat * k / steps := by
  have hwide : steps < 2 ^ 128 := Nat.lt_trans hsteps (by decide)
  have hshare : p.duration.toNat * k / steps < 2 ^ 64 :=
    Nat.lt_of_le_of_lt (share_le h) p.duration.toNat_lt
  rw [moveOffset, UInt64.toNat_ofBitVec, BitVec.toNat_setWidth, BitVec.toNat_udiv,
    toNat_moveProduct (Nat.lt_of_le_of_lt h hsteps), BitVec.toNat_ofNat, Nat.mod_eq_of_lt hwide,
    Nat.mod_eq_of_lt hshare]

/-! ## Times -/

theorem toNat_endTime (p : ScriptedPath) :
    p.endTime.toNat = min (p.start.toNat + p.duration.toNat) Micros.last.toNat :=
  Micros.toNat_later _ _

theorem toNat_moveTime (hsteps : steps < 2 ^ 64) (h : k ≤ steps) :
    (p.moveTime steps k).toNat =
      min (p.start.toNat + p.duration.toNat * k / steps) Micros.last.toNat := by
  rw [moveTime, Micros.toNat_later, toNat_moveOffset hsteps h]
  rfl

theorem moveTime_zero (hsteps : steps < 2 ^ 64) : p.moveTime steps 0 = p.start := by
  have hlast : p.start.toNat ≤ Micros.last.toNat := Nat.le_of_lt_succ p.start.toNat_lt
  apply UInt64.toNat_inj.mp
  rw [toNat_moveTime hsteps (Nat.zero_le _), Nat.mul_zero, Nat.zero_div, Nat.add_zero,
    Nat.min_eq_left hlast]

theorem moveTime_le_endTime (hsteps : steps < 2 ^ 64) (h : k ≤ steps) :
    p.moveTime steps k ≤ p.endTime := by
  have hshare : p.duration.toNat * k / steps ≤ p.duration.toNat := share_le h
  rw [UInt64.le_iff_toNat_le, toNat_moveTime hsteps h, toNat_endTime]
  omega

theorem moveTime_mono (hsteps : steps < 2 ^ 64) (hjk : j ≤ k) (h : k ≤ steps) :
    p.moveTime steps j ≤ p.moveTime steps k := by
  have hshare : p.duration.toNat * j / steps ≤ p.duration.toNat * k / steps := share_mono hjk
  rw [UInt64.le_iff_toNat_le, toNat_moveTime hsteps (Nat.le_trans hjk h), toNat_moveTime hsteps h]
  omega

/-! ## Moves -/

/-- The moves to some positions, of which the first one is the `k`-th of `steps` moves. -/
def movesFrom (path : ScriptedPath) (steps k : Nat) (qs : List Point) : List Sample :=
  qs.mapIdx fun i q => .touch .move q (path.moveTime steps (i + k))

@[simp] theorem length_movesFrom (p : ScriptedPath) (steps k : Nat) (qs : List Point) :
    (p.movesFrom steps k qs).length = qs.length := List.length_mapIdx

theorem getElem?_movesFrom (p : ScriptedPath) (steps k i : Nat) (qs : List Point) :
    (p.movesFrom steps k qs)[i]? =
      qs[i]?.map fun q => .touch .move q (p.moveTime steps (i + k)) := List.getElem?_mapIdx

theorem times_movesFrom (p : ScriptedPath) (steps k : Nat) (qs : List Point) :
    (p.movesFrom steps k qs).map Sample.time =
      (List.range qs.length).map fun i => p.moveTime steps (i + k) := by
  apply List.ext_getElem
  · simp
  · intro i _ _
    simp [movesFrom, Sample.touch]

/-! ## Even timing -/

/-- The time of the `k`-th position on a clock without end. -/
def due (p : ScriptedPath) (k : Nat) : Nat :=
  p.start.toNat + p.duration.toNat * k / (p.positions.length - 1)

theorem due_mono (h : j ≤ k) : p.due j ≤ p.due k := Nat.add_le_add_left (share_mono h) _

/-- Samples that visit the positions of a path in order and share its duration evenly. -/
structure EvenlyTimed (p : ScriptedPath) (samples : List Sample) : Prop where
  length : samples.length = p.positions.length + 1
  down : ∀ first, p.positions[0]? = some first →
    samples[0]? = some (.touch .down first p.start)
  /-- A move at each later position, on time or at the last time there is. -/
  move : ∀ k point, 0 < k → p.positions[k]? = some point →
    ∃ time, samples[k]? = some (.touch .move point time) ∧
      time.toNat = min (p.due k) Micros.last.toNat
  up : ∀ last, p.positions.getLast? = some last →
    samples[p.positions.length]? = some (.touch .up last p.endTime)
  sorted : samples.Pairwise fun s t => s.time ≤ t.time
  le_endTime : ∀ s ∈ samples, s.time ≤ p.endTime
  /-- The last move comes with the up. -/
  last_move : 2 ≤ p.positions.length → ∃ s, samples[p.positions.length - 1]? = some s ∧
    s.time = p.endTime
  /-- Between two positions passes the same time as between two others, or a microsecond more or
  less, as long as the clock does not stop. -/
  even : ∀ j k s s' t t', j + 1 < p.positions.length → k + 1 < p.positions.length →
    p.due (j + 1) ≤ Micros.last.toNat → p.due (k + 1) ≤ Micros.last.toNat →
    samples[j]? = some s → samples[j + 1]? = some s' →
    samples[k]? = some t → samples[k + 1]? = some t' →
    s'.time.toNat - s.time.toNat ≤ t'.time.toNat - t.time.toNat + 1

section Samples

variable {first : Point} {rest : List Point} {s t : Sample}
  (hpositions : p.positions = first :: rest)

include hpositions

theorem due_eq (k : Nat) :
    p.due k = p.start.toNat + p.duration.toNat * k / rest.length := by
  rw [due, hpositions, List.length_cons, Nat.add_sub_cancel]

theorem samples_eq :
    p.samples = .touch .down first p.start ::
      (p.movesFrom rest.length 1 rest ++ [.touch .up (rest.getLastD first) p.endTime]) := by
  rw [samples, hpositions]
  rfl

theorem length_samples : p.samples.length = rest.length + 2 := by
  simp [samples_eq hpositions]

theorem move_samples {point : Point} (hpoint : rest[k]? = some point) :
    p.samples[k + 1]? = some (.touch .move point (p.moveTime rest.length (k + 1))) := by
  have hk : k < rest.length := (List.getElem?_eq_some_iff.mp hpoint).1
  rw [samples_eq hpositions, List.getElem?_cons_succ,
    List.getElem?_append_left (by simpa using hk), getElem?_movesFrom, hpoint, Option.map_some]

theorem up_samples :
    p.samples[rest.length + 1]? = some (.touch .up (rest.getLastD first) p.endTime) := by
  rw [samples_eq hpositions, List.getElem?_cons_succ, List.getElem?_append_right (by simp)]
  simp

variable (hlength : rest.length < 2 ^ 64)

include hlength

/-- The down has the time of a move that none of the duration has passed for. -/
theorem times_samples :
    p.samples.map Sample.time =
      (List.range (rest.length + 1)).map (p.moveTime rest.length) ++ [p.endTime] := by
  rw [samples_eq hpositions, List.map_cons, List.map_append, times_movesFrom, List.map_singleton,
    List.range_succ_eq_map, List.map_cons, List.map_map, moveTime_zero hlength]
  rfl

theorem toNat_time_of_getElem (h : k ≤ rest.length) (hs : p.samples[k]? = some s) :
    s.time.toNat = min (p.due k) Micros.last.toNat := by
  have htime : (p.samples.map Sample.time)[k]? = some s.time := by
    rw [List.getElem?_map, hs, Option.map_some]
  rw [times_samples hpositions hlength, List.getElem?_append_left (by simp; omega),
    List.getElem?_map, List.getElem?_range (by omega)] at htime
  rw [← Option.some.inj htime, toNat_moveTime hlength h, due_eq hpositions]

theorem sorted_samples : p.samples.Pairwise fun s t => s.time ≤ t.time := by
  have htimes : (p.samples.map Sample.time).Pairwise (· ≤ ·) := by
    rw [times_samples hpositions hlength, List.pairwise_append, List.pairwise_map]
    refine ⟨?_, List.pairwise_singleton _ _, ?_⟩
    · apply List.pairwise_lt_range.imp_of_mem
      intro j k _ hk hjk
      exact moveTime_mono hlength (Nat.le_of_lt hjk) (Nat.le_of_lt_succ (List.mem_range.mp hk))
    · intro time htime time' htime'
      obtain ⟨k, hk, rfl⟩ := List.mem_map.mp htime
      cases List.mem_singleton.mp htime'
      exact moveTime_le_endTime hlength (Nat.le_of_lt_succ (List.mem_range.mp hk))
  exact List.pairwise_map.mp htimes

theorem time_le_endTime (hs : s ∈ p.samples) : s.time ≤ p.endTime := by
  have htime := List.mem_map_of_mem (f := Sample.time) hs
  rw [times_samples hpositions hlength, List.mem_append, List.mem_singleton] at htime
  rcases htime with htime | htime
  · obtain ⟨k, hk, heq⟩ := List.mem_map.mp htime
    rw [← heq]
    exact moveTime_le_endTime hlength (Nat.le_of_lt_succ (List.mem_range.mp hk))
  · rw [htime]
    exact UInt64.le_refl _

/-- Where the clock does not stop, what passes between two positions is the same time or a
microsecond more. -/
theorem time_step (h : k < rest.length) (hdue : p.due (k + 1) ≤ Micros.last.toNat)
    (hs : p.samples[k]? = some s) (ht : p.samples[k + 1]? = some t) :
    t.time.toNat - s.time.toNat = p.duration.toNat / rest.length ∨
      t.time.toNat - s.time.toNat = p.duration.toNat / rest.length + 1 := by
  have hshare := share_succ (k := k) (d := p.duration.toNat) (Nat.zero_lt_of_lt h)
  have hbefore : p.due k ≤ p.due (k + 1) := due_mono (Nat.le_succ k)
  have htime := toNat_time_of_getElem hpositions hlength (Nat.le_of_lt h) hs
  have htime' : t.time.toNat = min (p.due (k + 1)) Micros.last.toNat :=
    toNat_time_of_getElem hpositions hlength h ht
  rw [Nat.min_eq_left (Nat.le_trans hbefore hdue)] at htime
  rw [Nat.min_eq_left hdue] at htime'
  rw [due_eq hpositions, due_eq hpositions] at hbefore
  rw [htime, htime', due_eq hpositions, due_eq hpositions]
  omega

theorem evenlyTimed_of_positions : p.EvenlyTimed p.samples := by
  have hn : p.positions.length = rest.length + 1 := by rw [hpositions, List.length_cons]
  constructor
  case length => rw [length_samples hpositions, hn]
  case down =>
    intro _ hfirst
    rw [hpositions] at hfirst
    cases hfirst
    rw [samples_eq hpositions]
    rfl
  case move =>
    intro k point hk hpoint
    obtain ⟨i, rfl⟩ := Nat.exists_eq_add_one.mpr hk
    rw [hpositions, List.getElem?_cons_succ] at hpoint
    have hmove := move_samples hpositions hpoint
    have hi : i < rest.length := (List.getElem?_eq_some_iff.mp hpoint).1
    exact ⟨_, hmove, toNat_time_of_getElem hpositions hlength hi hmove⟩
  case up =>
    intro last hlast
    rw [hpositions, List.getLast?_cons] at hlast
    cases hlast
    rw [hn, ← List.getLastD_eq_getLast?]
    exact up_samples hpositions
  case sorted => exact sorted_samples hpositions hlength
  case le_endTime => exact fun _ => time_le_endTime hpositions hlength
  case last_move =>
    -- all of the duration has passed for the last move
    intro htwo
    have hlt : rest.length < p.samples.length := by rw [length_samples hpositions]; omega
    have hs := List.getElem?_eq_getElem hlt
    have htime := toNat_time_of_getElem hpositions hlength (Nat.le_refl _) hs
    rw [due_eq hpositions, Nat.mul_div_cancel _ (by omega), ← toNat_endTime] at htime
    rw [hn, Nat.add_sub_cancel]
    exact ⟨_, hs, UInt64.toNat_inj.mp htime⟩
  case even =>
    intro j k s s' t t' hj hk hduej hduek hs hs' ht ht'
    rw [hn] at hj hk
    have hsteps := time_step hpositions hlength (Nat.lt_of_succ_lt_succ hj) hduej hs hs'
    have hstept := time_step hpositions hlength (Nat.lt_of_succ_lt_succ hk) hduek ht ht'
    omega

end Samples

/-- **Scripted samples are evenly timed.** The samples of a path with a position, for any start
and any duration, are a down at the first position and at the start, a move at each later one,
and an up at the last one and at the end. No time goes back or past the end, which is the start
and the duration on, or the last time there is. Each move comes at its share of the duration,
rounded down, the last one with the up, and any two of the times between them differ by a
microsecond at most where the clock does not stop. Nothing is lost on the way: the product is the
product and the quotient is the quotient. The number of positions fits into 64 bits, as that of
any list in memory does. -/
theorem samples_evenlyTimed (hpositions : p.positions ≠ [])
    (hlength : p.positions.length < 2 ^ 64) :
    p.EvenlyTimed p.samples ∧
      p.endTime.toNat = min (p.start.toNat + p.duration.toNat) Micros.last.toNat ∧
      ∀ k < p.positions.length,
        (p.moveProduct k).toNat = p.duration.toNat * k ∧
          (p.moveOffset (p.positions.length - 1) k).toNat =
            p.duration.toNat * k / (p.positions.length - 1) := by
  obtain ⟨first, rest, hcons⟩ := List.exists_cons_of_ne_nil hpositions
  have hn : p.positions.length = rest.length + 1 := by rw [hcons, List.length_cons]
  have hrest : rest.length < 2 ^ 64 := by omega
  refine ⟨?_, toNat_endTime p, ?_⟩
  · exact evenlyTimed_of_positions hcons hrest
  · intro k hk
    rw [hn, Nat.add_sub_cancel]
    exact ⟨toNat_moveProduct (by omega), toNat_moveOffset hrest (by omega)⟩

/-- A path that begins a little after zero and takes as long as there is time: only the last of
its three moves does not come when it is due. -/
theorem samples_evenlyTimed_endless :
    let path : ScriptedPath := ⟨[⟨0, 0⟩, ⟨10, 0⟩, ⟨20, 0⟩, ⟨30, 0⟩], .last, 5⟩
    (path.positions ≠ [] ∧ path.positions.length < 2 ^ 64) ∧
      path.EvenlyTimed path.samples ∧
      path.samples.map (fun s => s.time.toNat) =
        [path.due 0, path.due 1, path.due 2, 18446744073709551615, 18446744073709551615] ∧
      path.due 3 = 18446744073709551620 := by
  intro path
  have hpositions : path.positions ≠ [] := by decide
  have hlength : path.positions.length < 2 ^ 64 := by decide
  obtain ⟨heven, -, -⟩ := samples_evenlyTimed hpositions hlength
  exact ⟨⟨hpositions, hlength⟩, heven, by decide +kernel, by decide⟩

end ScriptedPath

end TouchStream
