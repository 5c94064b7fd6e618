import Mathlib.Tactic

/-!
# Multiples that stay out of a range

The multiples `a * t` modulo `m` stay out of a range of residues for some time. How long is found in as many
steps as Euclid's algorithm takes on `a` and `m`: each step asks the same question for smaller numbers.

* `stepsBefore`: a number of multiples, from `0` on, that stay out of a range which does not begin at `0`.
* `staysOut`: whether all multiples of a run of numbers stay out of a range.
-/

namespace TouchStream.Residues

/-- A number below which no `t` has `a * t` modulo `m` between `low` and `high`. Where the multiples
never get there it is `bound`, where the fuel is spent `0`. -/
def stepsBefore (bound : ℕ) : (fuel a m low high : ℕ) → ℕ
  | 0, _, _, _, _ => 0
  | fuel + 1, a, m, low, high =>
    if low = 0 then 0
    else if a = 0 then bound
    else if m < 2 * a then stepsBefore bound fuel (m - a) m (m - high) (m - low)
    else
      let first := (low + a - 1) / a
      if a * first ≤ high then first
      else
        let laps := stepsBefore bound fuel ((a - m % a) % a) a (low % a) (high % a)
        (low + m * laps + a - 1) / a

/-- Whether `a * t` modulo `m` stays out of the range from `low` to `high` for all `t` from `start` to before
`stop`. -/
def staysOut (a m low high start stop : ℕ) : Bool :=
  let here := a * start % m
  let count := stop - start
  if here < low then count ≤ stepsBefore count 400 a m (low - here) (high - here)
  else if high < here then count ≤ stepsBefore count 400 a m (low + m - here) (high + m - here)
  else false

/-- No multiple of `a` gets into the range before `count`. -/
def ClearBefore (a m low high count : ℕ) : Prop :=
  ∀ t < count, ¬ (low ≤ a * t % m ∧ a * t % m ≤ high)

variable {a m low high : ℕ}

theorem lt_of_lt_ceil {t n : ℕ} (ha : 0 < a) (ht : t < (n + a - 1) / a) : a * t < n := by
  have h : t + 1 ≤ (n + a - 1) / a := ht
  rw [Nat.le_div_iff_mul_le ha] at h
  have : (t + 1) * a = a * t + a := by ring
  omega

/-- Going backwards turns the range around. -/
theorem ClearBefore.of_neg {count : ℕ} (ham : a < m) (hlow : 0 < low) (hhigh : high < m)
    (h : ClearBefore (m - a) m (m - high) (m - low) count) : ClearBefore a m low high count := by
  intro t ht hhit
  refine h t ht ?_
  have hneg : (m - a) * t % m = m - a * t % m := by
    have hdvd : ((m - a) * t + a * t) % m = 0 := by
      rw [← Nat.add_mul, Nat.sub_add_cancel ham.le, Nat.mul_mod_right]
    have hlt := Nat.mod_lt ((m - a) * t) (show 0 < m by omega)
    rw [Nat.add_mod] at hdvd
    by_contra hne
    rcases lt_or_ge ((m - a) * t % m + a * t % m) m with h | h
    · rw [Nat.mod_eq_of_lt h] at hdvd
      omega
    · rw [Nat.mod_eq_sub_mod h, Nat.mod_eq_of_lt (by omega)] at hdvd
      omega
  rw [hneg]
  omega

/-- Where the range holds no multiple of `a` itself, a multiple gets there in some lap around `m` only if the
lap's start gets there modulo `a`. -/
theorem ClearBefore.of_laps {laps : ℕ} (ha : 0 < a) (hlow : 0 < low)
    (hhigh : high < m) (hgap : high < a * ((low + a - 1) / a))
    (h : ClearBefore ((a - m % a) % a) a (low % a) (high % a) laps) :
    ClearBefore a m low high ((low + m * laps + a - 1) / a) := by
  intro t ht hhit
  have hm : 0 < m := by omega
  obtain ⟨first, hfirst⟩ : ∃ k, (low + a - 1) / a = k + 1 :=
    Nat.exists_eq_succ_of_ne_zero (Nat.div_pos (by omega) ha).ne'
  have hbelow : a * first < low := lt_of_lt_ceil ha (by omega)
  rw [hfirst, Nat.mul_succ] at hgap
  -- the whole range lies between two multiples of `a`
  have hrest : ∀ s, low ≤ s → s ≤ high → s % a = s - a * first := by
    intro s hs hs'
    have hsplit : s = a * first + (s - a * first) := by omega
    conv_lhs => rw [hsplit]
    rw [Nat.mul_add_mod, Nat.mod_eq_of_lt (by omega)]
  set lap := a * t / m with hlap
  have hsum : m * lap + a * t % m = a * t := Nat.div_add_mod (a * t) m
  have hback : (a - m % a) % a + m ≡ 0 [MOD a] := by
    have hlt := Nat.mod_lt m ha
    calc (a - m % a) % a + m ≡ (a - m % a) + m % a [MOD a] :=
          (Nat.mod_modEq _ _).add (Nat.mod_modEq _ _).symm
      _ = a := Nat.sub_add_cancel hlt.le
      _ ≡ 0 [MOD a] := by simp [Nat.ModEq]
  have hin : (a - m % a) % a * lap ≡ a * t % m [MOD a] := by
    refine Nat.ModEq.add_right_cancel' (m * lap) ?_
    calc (a - m % a) % a * lap + m * lap = ((a - m % a) % a + m) * lap := (Nat.add_mul _ _ _).symm
      _ ≡ 0 * lap [MOD a] := hback.mul_right lap
      _ = 0 := Nat.zero_mul lap
      _ ≡ a * t [MOD a] := by simp [Nat.ModEq]
      _ = a * t % m + m * lap := by rw [add_comm, hsum]
  have hlapclear : laps ≤ lap := by
    by_contra hlt
    refine h lap (by omega) ?_
    rw [show _ % a = _ from hin, hrest _ hhit.1 hhit.2, hrest low le_rfl (by omega), hrest high (by omega) le_rfl]
    omega
  have hbound := lt_of_lt_ceil ha ht
  have hmul : m * laps ≤ m * lap := Nat.mul_le_mul_left m hlapclear
  omega

theorem stepsBefore_clear (bound fuel : ℕ) : ∀ {a m low high : ℕ}, a < m → high < m →
    ClearBefore a m low high (stepsBefore bound fuel a m low high) := by
  induction fuel with
  | zero =>
    intro a m low high _ _ t ht
    exact absurd ht (Nat.not_lt_zero t)
  | succ fuel ih =>
    intro a m low high ham hhigh
    rw [stepsBefore]
    split
    · exact fun t ht => absurd ht (Nat.not_lt_zero t)
    · rename_i hlow
      split
      · rename_i ha
        intro t _ hhit
        rw [ha, Nat.zero_mul, Nat.zero_mod] at hhit
        omega
      · rename_i ha
        have ha : 0 < a := Nat.pos_of_ne_zero ha
        split
        · exact ClearBefore.of_neg ham (by omega) hhigh (ih (by omega) (by omega))
        · dsimp only
          split
          · intro t ht hhit
            have hlt := lt_of_lt_ceil ha ht
            rw [Nat.mod_eq_of_lt (by omega)] at hhit
            omega
          · refine ClearBefore.of_laps ha (by omega) hhigh (by omega) (ih ?_ (Nat.mod_lt _ ha))
            exact Nat.mod_lt _ ha

/-- The multiples from `start` on are those from `0` on, shifted. -/
theorem staysOut_spec {start stop t : ℕ} (ham : a < m) (hhigh : high < m)
    (h : staysOut a m low high start stop = true) (hstart : start ≤ t) (hstop : t < stop) :
    ¬ (low ≤ a * t % m ∧ a * t % m ≤ high) := by
  intro hhit
  have hm : 0 < m := by omega
  have hsplit : a * t % m = (a * start % m + a * (t - start) % m) % m := by
    rw [← Nat.add_mod, ← Nat.mul_add, Nat.add_sub_cancel' hstart]
  have hhere := Nat.mod_lt (a * start) hm
  have hstep := Nat.mod_lt (a * (t - start)) hm
  rw [staysOut] at h
  split at h
  · rename_i hlt
    have hclear : ClearBefore a m (low - a * start % m) (high - a * start % m) _ :=
      stepsBefore_clear (stop - start) 400 ham (by omega)
    apply hclear (t - start) (lt_of_lt_of_le (by omega) (of_decide_eq_true h))
    rw [hsplit] at hhit
    rcases lt_or_ge (a * start % m + a * (t - start) % m) m with hsum | hsum
    · rw [Nat.mod_eq_of_lt hsum] at hhit
      omega
    · rw [Nat.mod_eq_sub_mod hsum, Nat.mod_eq_of_lt (by omega)] at hhit
      omega
  · split at h
    · rename_i hlt
      have hclear : ClearBefore a m (low + m - a * start % m) (high + m - a * start % m) _ :=
        stepsBefore_clear (stop - start) 400 ham (by omega)
      apply hclear (t - start) (lt_of_lt_of_le (by omega) (of_decide_eq_true h))
      rw [hsplit] at hhit
      rcases lt_or_ge (a * start % m + a * (t - start) % m) m with hsum | hsum
      · rw [Nat.mod_eq_of_lt hsum] at hhit
        omega
      · rw [Nat.mod_eq_sub_mod hsum, Nat.mod_eq_of_lt (by omega)] at hhit
        omega
    · cases h

end TouchStream.Residues
