/-!
# Times

Times and spans are microseconds in 64 bits. Both operations on them stop at the ends of the range: a
deadline that would lie beyond the last time is the last time, and no span is negative.
-/

namespace TouchStream

/-- Microseconds, of a clock that starts at zero or between two readings of it. -/
abbrev Micros := UInt64

namespace Micros

/-- The last time there is. -/
def last : Micros := 0xFFFFFFFFFFFFFFFF

/-- The time a span after `t`, at most the last one. -/
def later (t span : Micros) : Micros := .ofNat (min (t.toNat + span.toNat) last.toNat)

/-- The span from `earlier` to `t`, zero when `earlier` is not before `t`. -/
def since (t earlier : Micros) : Micros := .ofNat (t.toNat - earlier.toNat)

theorem toNat_last : last.toNat = 0xFFFFFFFFFFFFFFFF := rfl

@[simp] theorem toNat_later (t span : Micros) :
    (t.later span).toNat = min (t.toNat + span.toNat) 0xFFFFFFFFFFFFFFFF := by
  rw [later, toNat_last, UInt64.toNat_ofNat_of_lt']
  exact Nat.lt_of_le_of_lt (Nat.min_le_right _ _) (by decide)

@[simp] theorem toNat_since (t earlier : Micros) :
    (t.since earlier).toNat = t.toNat - earlier.toNat := by
  rw [since, UInt64.toNat_ofNat_of_lt']
  exact Nat.lt_of_le_of_lt (Nat.sub_le _ _) t.toNat_lt

end Micros

/-- The earlier of two deadlines, where either may be missing. -/
def earlierDeadline : Option Micros → Option Micros → Option Micros
  | some a, some b => some (min a b)
  | some a, none => some a
  | none, b => b

end TouchStream
