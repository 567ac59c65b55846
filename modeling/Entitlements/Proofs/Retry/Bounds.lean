import Entitlements.Proofs.Number.Arithmetic
import Entitlements.Proofs.Retry.Runs

/-! # Bounds of delays

The first delay of a run is the initial delay of the policy, whatever the greatest delay is. The
others are at most the greatest delay as doubles hold it (`Duration.held`,
`RetryPolicy.nextDelay_le`), which is the greatest delay itself up to `2 ^ 23` seconds
(`Duration.held_eq`), and hardly more beyond (`Duration.held_le`). -/

namespace Entitlements

open Double

/-! ### Whole numbers -/

theorem roundDiv_mono {a b : ℕ} (h : a ≤ b) (den : ℕ) : roundDiv a den ≤ roundDiv b den := by
  have hquotient : a / den ≤ b / den := Nat.div_le_div_right h
  rcases hquotient.lt_or_eq with hlt | heq
  · rcases roundDiv_cases a den with ⟨ha, -⟩ | ⟨ha, -⟩ <;>
      rcases roundDiv_cases b den with ⟨hb, -⟩ | ⟨hb, -⟩ <;> omega
  · rcases h.lt_or_eq with hless | rfl
    · have ha := Nat.div_add_mod a den
      have hb := Nat.div_add_mod b den
      rw [heq] at ha
      rcases roundDiv_cases a den with ⟨ha', hra⟩ | ⟨ha', hra⟩ <;>
        rcases roundDiv_cases b den with ⟨hb', hrb⟩ | ⟨hb', hrb⟩ <;> omega
    · exact le_rfl

theorem abs_roundDiv_sub_le (num : ℕ) {den : ℕ} (hden : 0 < den) :
    |(roundDiv num den : ℚ) - num / den| ≤ 1 / 2 := by
  have hlt := rest_div_lt_one num hden
  have hnonneg : (0 : ℚ) ≤ (num % den : ℕ) / den := by positivity
  rw [div_eq_whole_add_rest num hden, abs_le]
  rcases roundDiv_cases num den with ⟨h, hr⟩ | ⟨h, hr⟩
  · have := (div_le_half_iff hden).mpr hr
    rw [h]
    exact ⟨by linarith, by linarith⟩
  · have := (half_le_div_iff hden).mpr hr
    rw [h, Nat.cast_add, Nat.cast_one]
    exact ⟨by linarith, by linarith⟩

namespace Duration

/-! ### Durations in seconds -/

/-- What a duration comes back as from its number of seconds. -/
def held (d : Duration) : Duration :=
  roundDiv ((magnitude d.toSeconds.toBits).units * 1000000000) (Nat.pow 2 1074)

theorem shows_billion : Shows (1e9 : Float).toModel.unpack 1000000000 := by
  have hvalue : (1000000000 : ℚ) = (8388608000000000 : ℕ) * 2 ^ (-23 : ℤ) := by norm_num
  rw [hvalue]
  exact .finite (by decide) ⟨by decide, by decide, by decide, .inl (by decide)⟩

theorem seconds_eq (d : Duration) :
    (d : ℚ) / 1000000000 = (d / 1000000000 : ℕ) + (d % 1000000000 : ℕ) / 1000000000 := by
  exact_mod_cast div_eq_whole_add_rest d (by decide : 0 < 1000000000)

/-- The rest of a duration is at least a nanosecond less than a second. -/
theorem rest_le (d : Duration) :
    ((d % 1000000000 : ℕ) / 1000000000 : ℚ) ≤ 999999999 / 1000000000 := by
  have hrest : d % 1000000000 < 1000000000 := Nat.mod_lt d (by decide)
  refine div_le_div_of_nonneg_right ?_ (by norm_num)
  exact_mod_cast Nat.le_of_lt_succ hrest

theorem abs_rest_sub_le {d : Duration} {q : ℚ}
    (h : Nearest ((d % 1000000000 : ℕ) / 1000000000) q) :
    |q - (d % 1000000000 : ℕ) / 1000000000| ≤ 2 ^ (-54 : ℤ) := by
  have hlt : ((d % 1000000000 : ℕ) / 1000000000 : ℚ) < 2 ^ (0 : ℤ) :=
    (rest_le d).trans_lt (by norm_num)
  exact h.abs_sub_le hlt (by decide)

/-- What a duration shows in seconds: its whole seconds, and the rest of it divided by the
nanoseconds of a second, are rounded, and their sum is rounded again. -/
theorem shows_toSeconds {d : Duration} (h : d < ofSeconds (2 ^ 64)) :
    ∃ w q v : ℚ, Nearest (d / 1000000000 : ℕ) w ∧
      Nearest ((d % 1000000000 : ℕ) / 1000000000) q ∧ Nearest (w + q) v ∧
      Shows d.toSeconds.toModel.unpack v := by
  have hwhole : d / 1000000000 < 2 ^ 64 := Nat.div_lt_of_lt_mul (by rwa [mul_comm])
  have hrest : d % 1000000000 < 1000000000 := Nat.mod_lt d (by decide)
  have hfinite : (2 : ℚ) ^ (65 : ℤ) < 2 ^ (1023 : ℤ) := zpow_lt_zpow_right₀ one_lt_two (by decide)
  have hr := rest_le d
  obtain ⟨w, hw, hwnear⟩ := shows_ofNat hwhole
  obtain ⟨f, hf, hfnear⟩ := shows_ofNat (hrest.trans (by decide))
  obtain rfl := hfnear.eq_natCast (hrest.trans (by decide))
  obtain ⟨q, hq, hqnear⟩ := hf.div shows_billion (by norm_num)
    (hr.trans_lt ((by norm_num : _ < (2 : ℚ) ^ (65 : ℤ)).trans hfinite))
  have hwlt : ((d / 1000000000 : ℕ) : ℚ) < 2 ^ (64 : ℤ) := by exact_mod_cast hwhole
  have hwlt' : ((d / 1000000000 : ℕ) : ℚ) < 18446744073709551616 := by exact_mod_cast hwhole
  have hwle := abs_le.mp (hwnear.abs_sub_le hwlt (by decide))
  have hqle := abs_le.mp (abs_rest_sub_le hqnear)
  norm_num at hwle hqle
  obtain ⟨v, hv, hvnear⟩ := hw.add hq
    (lt_trans (by norm_num; linarith : w + q < (2 : ℚ) ^ (65 : ℤ)) hfinite)
  exact ⟨w, q, v, hwnear, hqnear, hvnear, hv⟩

theorem abs_held_sub_le {d : Duration} {v : ℚ} (h : Shows d.toSeconds.toModel.unpack v) :
    |(d.held : ℚ) - v * 1000000000| ≤ 1 / 2 := by
  have hunits := h.units_eq
  rw [held]
  generalize (magnitude d.toSeconds.toBits).units = units at hunits ⊢
  -- The least unit is too small to be computed with.
  generalize 1074 = k at hunits ⊢
  have hpos : (0 : ℚ) < 2 ^ k := by positivity
  have hvalue : ((units * 1000000000 : ℕ) / (2 ^ k : ℕ) : ℚ) = v * 1000000000 := by
    rw [Nat.cast_mul, hunits, Nat.cast_pow, Nat.cast_ofNat, Nat.cast_ofNat, mul_right_comm,
      mul_div_cancel_right₀ _ hpos.ne']
  rw [← hvalue]
  exact abs_roundDiv_sub_le _ (Nat.two_pow_pos k)

/-- **Up to `2 ^ 23` seconds** the nanoseconds of a duration are not lost. -/
theorem held_eq {d : Duration} (h : d ≤ ofSeconds (2 ^ 23)) : d.held = d := by
  rcases h.lt_or_eq with hless | rfl
  · obtain ⟨w, q, v, hw, hq, hv, hshows⟩ := shows_toSeconds (hless.trans (by decide))
    have hwhole : d / 1000000000 < 2 ^ 23 := Nat.div_lt_of_lt_mul (by rwa [mul_comm])
    have hwlt : ((d / 1000000000 : ℕ) : ℚ) + 1 ≤ 8388608 := by exact_mod_cast hwhole
    have hr := rest_le d
    obtain rfl := hw.eq_natCast (hwhole.trans (by decide))
    have hqle := abs_le.mp (abs_rest_sub_le hq)
    norm_num at hqle
    have hsum : ((d / 1000000000 : ℕ) : ℚ) + q < 2 ^ (23 : ℤ) := by
      norm_num
      linarith
    -- The last bit of the seconds is `2 ^ -30`, about a nanosecond, and half of it may be lost.
    have hvle := abs_le.mp (hv.abs_sub_le hsum (by decide))
    have hheld := abs_le.mp (abs_held_sub_le hshows)
    have hseconds := seconds_eq d
    norm_num at hvle
    refine natCast_eq_of_abs_sub_lt (abs_lt.mpr ⟨?_, ?_⟩) <;> linarith
  · decide +kernel

/-- A nanosecond more than that is held as two. -/
example : (ofSeconds (2 ^ 23) + 1).held = ofSeconds (2 ^ 23) + 2 := by decide +kernel

/-- Beyond, a duration gains at most one part in `2 ^ 52`, and a nanosecond. -/
theorem held_le {d : Duration} (h : d < ofSeconds (2 ^ 64)) : d.held ≤ d + d / 2 ^ 52 + 1 := by
  obtain ⟨w, q, v, hw, hq, hv, hshows⟩ := shows_toSeconds h
  have hwle := hw.le (Nat.cast_nonneg _)
  have hqle := hq.le (by positivity)
  have hvle := hv.le (add_nonneg hw.nonneg hq.nonneg)
  have hheld := abs_le.mp (abs_held_sub_le hshows)
  have hseconds := seconds_eq d
  have hleast : (2 : ℚ) ^ (-1075 : ℤ) ≤ 2 ^ (-53 : ℤ) :=
    zpow_le_zpow_right₀ one_le_two (by decide)
  have hdlt : (d : ℚ) < 18446744073709551616 * 1000000000 := by exact_mod_cast h
  have hpart : (d : ℚ) < 4503599627370496 * ((d / 2 ^ 52 : ℕ) + 1) := by
    exact_mod_cast Nat.lt_mul_div_succ d (by decide : 0 < 2 ^ 52)
  -- Each of the three roundings adds one part in `2 ^ 53`, of which two fall on the whole seconds.
  generalize (2 : ℚ) ^ (-1075 : ℤ) = least at hwle hqle hvle hleast
  norm_num at hwle hqle hvle hleast
  have hclose : (d.held : ℚ) < d + (d / 2 ^ 52 : ℕ) + 1 + 1 := by linarith
  exact Nat.le_of_lt_succ (by exact_mod_cast hclose)

/-! ### The lesser of two numbers -/

/-- The lesser of two numbers is the second, or it is not above it. -/
theorem lesser_cases {x y : Float} (hy : y.isNaN = false) :
    lesser x y = y ∨ lesser x y = x ∧ x.isNaN = false ∧ ¬ y < x := by
  unfold lesser
  split
  · exact .inl rfl
  · next hx =>
    rw [hy]
    simp only [Bool.false_eq_true, if_false]
    split
    · exact .inl rfl
    · next hlt => exact .inr ⟨rfl, by simpa using hx, hlt⟩

end Duration

namespace RetryPolicy

/-! ### Delays -/

open Duration

variable {p : RetryPolicy}

/-- **The next delay** is at most the greatest one, as doubles hold it. -/
theorem nextDelay_le (hmax : p.maxDelay < .ofSeconds (2 ^ 64)) {delay d : Duration}
    (h : p.nextDelay? delay = some d) : d ≤ p.maxDelay.held := by
  obtain ⟨-, -, v, -, -, -, hshows⟩ := shows_toSeconds hmax
  unfold nextDelay? ofSeconds? at h
  split at h
  · cases h
  · next hrange =>
    obtain rfl := Option.some.inj h
    refine roundDiv_mono (Nat.mul_le_mul_right _ ?_) _
    rcases lesser_cases (x := delay.toSeconds * p.base) hshows.isNaN with
      heq | ⟨heq, hnan, hlt⟩
    · rw [heq]
    · rw [heq] at hrange ⊢
      exact units_le_of_not_lt hshows hnan (fun hneg => hrange (.inl hneg)) hlt

/-! ### Delays of a run -/

section Slept
variable {σ ε α : Type} {transient : ε → Bool} {request : StateM σ (Except ε α)}

/-- An attempt that another one would follow, after a delay that there is none to follow. -/
theorem run_runFrom_of_no_delay {more attempt : Nat} {delay : Duration} {s : σ}
    (h : settles transient (request.run s).1 = false) (hdelay : p.nextDelay? delay = none) :
    (p.runFrom transient request (more + 1) attempt delay).run s =
      (⟨attempt, [.retrying attempt p.maxAttempts delay], .invalidDelay⟩, (request.run s).2) := by
  rw [runFrom, run_bind]
  generalize (request.run s).1 = outcome at h
  cases outcome with
  | ok a => cases h
  | error e =>
    have htransient : transient e = true := by simpa [settles] using h
    simp only [htransient, hdelay]
    rfl

theorem retrying_not_mem_closingEvents {i n attempt : Nat} {d : Duration} (outcome : Except ε α) :
    .retrying i n d ∉ closingEvents transient attempt outcome := by
  cases outcome <;> simp only [closingEvents] <;> split <;> simp

/-- A delay of a run is the first one, or the next one of some delay. -/
theorem retrying_mem_runFrom {i n : Nat} {d : Duration} :
    ∀ {more attempt : Nat} {delay : Duration} {s : σ},
      .retrying i n d ∈ ((p.runFrom transient request more attempt delay).run s).1.events →
        i = attempt ∧ d = delay ∨ attempt < i ∧ ∃ delay', p.nextDelay? delay' = some d := by
  intro more
  induction more with
  | zero =>
    intro attempt delay s hmem
    rw [run_runFrom_of_settles (.inr rfl)] at hmem
    exact absurd hmem (retrying_not_mem_closingEvents _)
  | succ more ih =>
    intro attempt delay s hmem
    cases hfirst : settles transient (request.run s).1 with
    | true =>
      rw [run_runFrom_of_settles (.inl hfirst)] at hmem
      exact absurd hmem (retrying_not_mem_closingEvents _)
    | false =>
      cases hdelay : p.nextDelay? delay with
      | none =>
        rw [run_runFrom_of_no_delay hfirst hdelay, List.mem_singleton] at hmem
        cases hmem
        exact .inl ⟨rfl, rfl⟩
      | some delay' =>
        rw [run_runFrom_of_passes hfirst hdelay] at hmem
        rcases List.mem_cons.mp hmem with heq | hmem
        · cases heq
          exact .inl ⟨rfl, rfl⟩
        · rcases ih hmem with ⟨rfl, rfl⟩ | ⟨hlt, hnext⟩
          · exact .inr ⟨Nat.lt_succ_self attempt, delay, hdelay⟩
          · exact .inr ⟨Nat.lt_of_succ_lt hlt, hnext⟩

/-- **What is slept.** The delay after the first attempt is the initial one. The delays after the
others are at most the greatest one, if that is at most `2 ^ 23` seconds; if it is longer, but its
seconds can be counted with 64 bits, they exceed it by at most one part in `2 ^ 52` and a
nanosecond. -/
theorem slept_le (hmax : p.maxDelay < .ofSeconds (2 ^ 64)) {s : σ} {i n : Nat} {d : Duration}
    (h : .retrying i n d ∈ ((p.run transient request).run s).1.events) :
    i = 1 ∧ d = p.initialDelay ∨
      1 < i ∧ (p.maxDelay ≤ .ofSeconds (2 ^ 23) → d ≤ p.maxDelay) ∧
        d ≤ p.maxDelay + p.maxDelay / 2 ^ 52 + 1 := by
  rcases retrying_mem_runFrom h with hfirst | ⟨hlt, delay, hnext⟩
  · exact .inl hfirst
  · have hle := nextDelay_le hmax hnext
    exact .inr ⟨hlt, fun hexact => hle.trans_eq (held_eq hexact), hle.trans (held_le hmax)⟩

end Slept

/-- An initial delay that is greater than the greatest delay. -/
def impatient : RetryPolicy := ⟨3, .ofMillis 100, .ofMillis 10, 2.0⟩

/-- The delay after the second attempt is the greatest one. -/
theorem impatient_slept_le :
    impatient.maxDelay < .ofSeconds (2 ^ 64) ∧
      .retrying 2 3 (.ofMillis 10) ∈ ((impatient.run (fun _ => true) fourthTime).run 0).1.events ∧
      .ofMillis 10 ≤ impatient.maxDelay := by
  have hmax : impatient.maxDelay < .ofSeconds (2 ^ 64) := by decide
  have hmem : .retrying 2 3 (.ofMillis 10) ∈
      ((impatient.run (fun _ => true) fourthTime).run 0).1.events := by decide +kernel
  rcases slept_le hmax hmem with ⟨hfirst, -⟩ | ⟨-, hle, -⟩
  · cases hfirst
  · exact ⟨hmax, hmem, hle (by decide)⟩

/-- The delay after the first attempt is ten times the greatest one. -/
theorem impatient_slept_first :
    (1.0 : Float) ≤ impatient.base ∧
      .retrying 1 3 (.ofMillis 100) ∈ ((impatient.run (fun _ => true) fourthTime).run 0).1.events ∧
      ¬ .ofMillis 100 ≤ impatient.maxDelay := by
  decide +kernel

end RetryPolicy

end Entitlements
