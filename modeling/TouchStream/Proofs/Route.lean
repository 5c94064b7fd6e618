import TouchStream.Route

/-!
# Routes are reduced as they grow

The reduction of a route takes in one point after another, and all it does to the turning
points that it has found is to add another one behind them (`Reduction.turns_step`). It finds one
at most for each point, and none for the second point of the route, since a segment without a
point heads nowhere. Nothing is used of the arithmetic for this, so it holds whatever the
coordinates are, infinite or no numbers.

* `turned`: the first point and the turning points found in a route, which the last point
  completes (`turningPoints_eq`).
* `turned_prefix`, `length_turned_lt`: they stay when the route grows, and are fewer than its
  points.
* `recognize_eq_none_iff`: a route is no swipe when it turns twice.
* `turningPoints_online`: all of it for the reduced route.
-/

namespace TouchStream.Route

namespace Reduction

/-- A point adds the predicted end of the segment to the turning points, or nothing. -/
theorem turns_step (r : Reduction) (next : Point) :
    (r.step next).turns = if r.turnsAt next then r.turns ++ [r.predicted] else r.turns := by
  unfold step
  split <;> rfl

theorem turnsAt_begin (first next : Point) : (begin first).turnsAt next = false := rfl

theorem turns_foldl (r : Reduction) (points : List Point) :
    r.turns <+: (points.foldl step r).turns := by
  induction points generalizing r with
  | nil => exact List.prefix_refl _
  | cons next points ih =>
    refine List.IsPrefix.trans ?_ (ih (r.step next))
    rw [turns_step]
    split
    · exact List.prefix_append _ _
    · exact List.prefix_refl _

theorem length_turns_foldl_le (r : Reduction) (points : List Point) :
    (points.foldl step r).turns.length ≤ r.turns.length + points.length := by
  induction points generalizing r with
  | nil => exact Nat.le_refl _
  | cons next points ih =>
    have hstep : (r.step next).turns.length ≤ r.turns.length + 1 := by
      rw [turns_step]
      split <;> simp
    have hrest := ih (r.step next)
    rw [List.foldl_cons, List.length_cons]
    omega

end Reduction

/-! ## What has been found -/

variable {route : List Point}

/-- The first point of a route and the turning points found in it. -/
def turned : List Point → List Point
  | [] => []
  | first :: rest => (rest.foldl Reduction.step (.begin first)).turns

theorem turned_prefix (route more : List Point) : turned route <+: turned (route ++ more) := by
  cases route with
  | nil => exact List.nil_prefix
  | cons first rest =>
    rw [List.cons_append, turned, turned, List.foldl_append]
    exact Reduction.turns_foldl _ more

theorem head_turned (route : List Point) : (turned route).head? = route.head? := by
  cases route with
  | nil => rfl
  | cons first rest =>
    obtain ⟨found, hfound⟩ := Reduction.turns_foldl (.begin first) rest
    rw [turned, ← hfound]
    rfl

/-- One turning point at most is found for each point but the first two. -/
theorem length_turned_lt (h : 2 ≤ route.length) : (turned route).length < route.length := by
  match route with
  | [] | [_] => simp at h
  | first :: next :: points =>
    have hstep : ((Reduction.begin first).step next).turns = [first] := by
      rw [Reduction.turns_step, Reduction.turnsAt_begin]
      rfl
    have hrest := Reduction.length_turns_foldl_le ((Reduction.begin first).step next) points
    rw [hstep, List.length_singleton] at hrest
    rw [turned, List.foldl_cons, List.length_cons, List.length_cons]
    omega

theorem length_turned_pos (h : 2 ≤ route.length) : 0 < (turned route).length := by
  match route with
  | [] => simp at h
  | first :: rest => exact (Reduction.turns_foldl (.begin first) rest).length_le

/-! ## The reduced route -/

theorem turningPoints_eq (h : 2 ≤ route.length) :
    ∃ last, route.getLast? = some last ∧ turningPoints route = turned route ++ [last] := by
  match route with
  | [] | [_] => simp at h
  | first :: next :: points =>
    have hlast := List.getLast?_eq_some_getLast (List.cons_ne_nil next points)
    refine ⟨_, (List.getLast?_cons_cons).trans hlast, ?_⟩
    rw [turningPoints, hlast]
    rfl

theorem length_turningPoints (h : 2 ≤ route.length) :
    (turningPoints route).length = (turned route).length + 1 := by
  obtain ⟨last, -, heq⟩ := turningPoints_eq h
  rw [heq, List.length_append, List.length_singleton]

theorem classify_eq_none_iff {path : List Point} (h : 2 ≤ path.length) :
    classify path = none ↔ 4 ≤ path.length := by
  match path with
  | [] | [_] => simp at h
  | [_, _] | [_, _, _] => simp [classify]
  | _ :: _ :: _ :: _ :: _ => simp [classify]

/-- A route is no swipe exactly when two turning points are found in it. -/
theorem recognize_eq_none_iff (h : 2 ≤ route.length) :
    recognize route = none ↔ 3 ≤ (turned route).length := by
  have hlength := length_turningPoints h
  have hpos := length_turned_pos h
  rw [recognize, if_neg (Nat.not_lt.mpr h), classify_eq_none_iff (by omega), hlength]
  exact Nat.succ_le_succ_iff

/-- **A reduced route is final but for its last point.** A route of at least two points is
reduced to its first point, its last one, and at most as many as it has in all. Whatever points
it goes on with, the reduced route goes on from where it was before its last point: a turning
point that is found stays where it is. So a route that is no swipe never becomes one. -/
theorem turningPoints_online (more : List Point) (h : 2 ≤ route.length) :
    (turningPoints route).head? = route.head? ∧
      (turningPoints route).getLast? = route.getLast? ∧
      2 ≤ (turningPoints route).length ∧
      (turningPoints route).length ≤ route.length ∧
      (turningPoints route).dropLast <+: turningPoints (route ++ more) ∧
      (recognize route = none → recognize (route ++ more) = none) := by
  have hlonger : 2 ≤ (route ++ more).length := Nat.le_trans h (by simp)
  have hpos := length_turned_pos h
  have hlt := length_turned_lt h
  have hfound := turned_prefix route more
  obtain ⟨last, hlast, heq⟩ := turningPoints_eq h
  obtain ⟨_, -, heq'⟩ := turningPoints_eq hlonger
  refine ⟨?_, ?_, ?_, ?_, ?_, ?_⟩
  · have hne : route ≠ [] := List.ne_nil_of_length_pos (Nat.lt_of_lt_of_le Nat.zero_lt_two h)
    rw [heq, List.head?_append, head_turned, List.head?_eq_some_head hne, Option.some_or]
  · rw [heq, hlast, List.getLast?_concat]
  · rw [length_turningPoints h]
    omega
  · rw [length_turningPoints h]
    omega
  · rw [heq, List.dropLast_concat, heq']
    exact hfound.trans (List.prefix_append _ _)
  · rw [recognize_eq_none_iff h, recognize_eq_none_iff hlonger]
    exact fun hturns => Nat.le_trans hturns hfound.length_le

/-- A finger that goes right, down and left has turned twice. It swipes no more, even if it goes
on to a place that has no coordinates. -/
theorem turningPoints_online_twice :
    let route : List Point :=
      [⟨0, 0⟩, ⟨100, 0⟩, ⟨200, 0⟩, ⟨195, 100⟩, ⟨190, 200⟩, ⟨90, 190⟩, ⟨-10, 180⟩]
    let more : List Point := [⟨0 / 0, 1 / 0⟩, ⟨0, 0⟩]
    (2 ≤ route.length ∧ recognize route = none) ∧
      (turningPoints route).length = 4 ∧
      (turningPoints route).dropLast <+: turningPoints (route ++ more) ∧
      recognize (route ++ more) = none := by
  intro route more
  have htwo : 2 ≤ route.length := by decide
  have hnone : recognize route = none := by decide +kernel
  obtain ⟨-, -, -, -, hstays, hnever⟩ := turningPoints_online more htwo
  exact ⟨⟨htwo, hnone⟩, by decide +kernel, hstays, hnever hnone⟩

end TouchStream.Route
