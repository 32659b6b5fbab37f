import Mathlib.Algebra.Order.Group.Nat
import Mathlib.Tactic.Common

set_option autoImplicit false

namespace Lyr.Dev

def NSEC_PER_SEC : Nat := 10 ^ 9
def NSEC_PER_MSEC : Nat := 10 ^ 6
def UINT64_MAX : Nat := 2 ^ 64 - 1
def PIT_CLOCK : Nat := 1193182

-- Counter and frequency of the PIT, and both as time_init found them.
structure Clock where
  hz : UInt16
  baseHz : UInt16
  base : Nat
  ticks : Nat

-- Both restart the counter and leave what time_init kept.
def pitSetFreq (c : Clock) (freq : UInt16) : Clock := if freq = 0 then c else { c with hz := freq, ticks := 0 }

def pitSetDiv (c : Clock) (div : UInt16) : Clock :=
  if div = 0 then c else { c with hz := UInt16.ofNat (PIT_CLOCK / div.toNat), ticks := 0 }

inductive PitEvent where
  | tick
  | setFreq (freq : UInt16)
  | setDiv (div : UInt16)
  deriving DecidableEq, Repr

def Clock.step (c : Clock) : PitEvent → Clock
  | .tick => { c with ticks := c.ticks + 1 }
  | .setFreq freq => pitSetFreq c freq
  | .setDiv div => pitSetDiv c div

def Clock.after (c : Clock) (events : List PitEvent) : Clock := events.foldl Clock.step c

def Clock.rate (c : Clock) : Nat := if c.hz.toNat = 0 then c.baseHz.toNat else c.hz.toNat

-- A frequency set later has restarted the counter from 0.
def Clock.since (c : Clock) : Nat := c.ticks - if c.ticks < c.base then 0 else c.base

def timeMonotonicNs (c : Clock) : Nat := if c.rate = 0 then 0 else c.since * NSEC_PER_SEC % 2 ^ 64 / c.rate

def timeMsToNs (ms : Nat) : Nat := if UINT64_MAX / NSEC_PER_MSEC < ms then UINT64_MAX else ms * NSEC_PER_MSEC

def timeAddNsSaturating (a b : Nat) : Nat := if UINT64_MAX - a < b then UINT64_MAX else a + b

structure Timeout where
  finite : Bool
  deadlineNs : Nat

def timeTimeoutAfterMs (c : Clock) (ms : Int) : Timeout :=
  if ms < 0 then ⟨false, 0⟩ else ⟨true, timeAddNsSaturating (timeMonotonicNs c) (timeMsToNs ms.toNat)⟩

-- none is -EINVAL.
def timeTimeoutAfterTimespec (c : Clock) (sec nsec : Int) : Option Timeout :=
  if sec < 0 ∨ nsec < 0 ∨ (NSEC_PER_SEC : Int) ≤ nsec then none else
    let secNs := if UINT64_MAX / NSEC_PER_SEC < sec.toNat then UINT64_MAX else sec.toNat * NSEC_PER_SEC
    some ⟨true, timeAddNsSaturating (timeMonotonicNs c) (timeAddNsSaturating secNs nsec.toNat)⟩

-- The sign of the difference is its top bit.
def timeTimeoutExpired (c : Clock) (timeout : Timeout) : Bool :=
  timeout.finite && decide ((timeMonotonicNs c + 2 ^ 64 - timeout.deadlineNs) % 2 ^ 64 < 2 ^ 63)

def Clock.exactNs (c : Clock) : Nat := c.since * NSEC_PER_SEC / c.rate

-- False until the duration has elapsed, true from then on.
def Keeps (timeout : Timeout) (start later : Clock) (duration : Nat) : Prop :=
  timeTimeoutExpired later timeout = true ↔ start.exactNs + duration ≤ later.exactNs

structure ClockLaw (start later : Clock) (sec nsec ms : Nat) : Prop where
  exact_ : timeMonotonicNs start = start.exactNs ∧ timeMonotonicNs later = later.exactNs
  grows : timeMonotonicNs start ≤ timeMonotonicNs later
  timespec : ∀ timeout ∈ timeTimeoutAfterTimespec start sec nsec, Keeps timeout start later (sec * NSEC_PER_SEC + nsec)
  millis : Keeps (timeTimeoutAfterMs start ms) start later (ms * NSEC_PER_MSEC)

-- Near enough for the sign of the difference.
def Near (start later : Clock) (duration : Nat) : Prop :=
  later.exactNs < start.exactNs + duration + 2 ^ 63 ∧ min (start.exactNs + duration) UINT64_MAX ≤ later.exactNs + 2 ^ 63

def ClockFits (start later : Clock) : Prop :=
  start.rate = 0 ∨ start.since ≤ later.since ∧ later.since * NSEC_PER_SEC < 2 ^ 64

variable {c start later : Clock} {a b n unit duration : Nat}

theorem add_saturating (inside : a ≤ UINT64_MAX) : timeAddNsSaturating a b = min (a + b) UINT64_MAX := by
  unfold timeAddNsSaturating
  split_ifs <;> omega

theorem scale_saturating (some : 0 < unit) :
    (if UINT64_MAX / unit < n then UINT64_MAX else n * unit) = min (n * unit) UINT64_MAX := by
  have large := Nat.div_lt_iff_lt_mul (x := UINT64_MAX) (y := n) some
  split_ifs <;> omega

theorem min_saturated (a b n top : Nat) : min (a + min (min b top + n) top) top = min (a + (b + n)) top := by omega

theorem min_add_min (a b top : Nat) : min (a + min b top) top = min (a + b) top := by omega

theorem rate_le (c : Clock) : c.rate < 2 ^ 16 := by
  unfold Clock.rate
  split_ifs
  · exact c.baseHz.toNat_lt
  · exact c.hz.toNat_lt

theorem div_lt_of_add_le (some : 0 < n) (apart : a + n ≤ b) : a / n < b / n := by
  have := Nat.div_le_div_right (c := n) apart
  rw [Nat.add_div_right a some] at this
  exact this

theorem monotonic_exact (some : c.rate ≠ 0) : timeMonotonicNs c = c.exactNs ↔ c.since * NSEC_PER_SEC < 2 ^ 64 := by
  rw [timeMonotonicNs, if_neg some, Clock.exactNs]
  constructor
  · intro same
    by_contra wraps
    have := rate_le c
    exact (div_lt_of_add_le (Nat.pos_of_ne_zero some) (by omega)).ne same
  · intro fits
    rw [Nat.mod_eq_of_lt fits]

theorem after_rate (start : Clock) {events : List PitEvent} (ticking : ∀ event ∈ events, event = .tick) :
    (start.after events).rate = start.rate := by
  induction events generalizing start with
  | nil => rfl
  | cons event rest ih =>
    have first := ticking event List.mem_cons_self
    subst first
    exact ih (start.step .tick) (fun event inside => ticking event (List.mem_cons_of_mem _ inside))

theorem exact_le_iff (some : start.rate ≠ 0) (same : later.rate = start.rate) :
    start.exactNs ≤ later.exactNs ↔ start.since ≤ later.since := by
  rw [Clock.exactNs, Clock.exactNs, same]
  refine ⟨fun grows => ?_, fun grows => Nat.div_le_div_right (Nat.mul_le_mul_right _ grows)⟩
  by_contra back
  have narrow := rate_le start
  have := div_lt_of_add_le (a := later.since * NSEC_PER_SEC) (b := start.since * NSEC_PER_SEC) (Nat.pos_of_ne_zero some)
    (by simp only [NSEC_PER_SEC]; omega)
  exact absurd grows (Nat.not_le.mpr this)

theorem keeps_iff (exact_ : timeMonotonicNs later = later.exactNs) (small : later.exactNs < UINT64_MAX) :
    Keeps ⟨true, min (start.exactNs + duration) UINT64_MAX⟩ start later duration ↔ Near start later duration := by
  simp only [Keeps, timeTimeoutExpired, Near, exact_, Bool.true_and, decide_eq_true_eq]
  simp only [UINT64_MAX] at small ⊢
  omega

section

variable (same : later.rate = start.rate)
include same

theorem clock_exact : (timeMonotonicNs start = start.exactNs ∧ timeMonotonicNs later = later.exactNs) ∧
    timeMonotonicNs start ≤ timeMonotonicNs later ↔ ClockFits start later := by
  by_cases none : start.rate = 0
  · simp [ClockFits, timeMonotonicNs, Clock.exactNs, none, same]
  · rw [ClockFits, or_iff_right none]
    constructor
    · rintro ⟨⟨now, then_⟩, grows⟩
      rw [now, then_] at grows
      exact ⟨(exact_le_iff none same).mp grows, (monotonic_exact (same ▸ none)).mp then_⟩
    · rintro ⟨grows, fits⟩
      have scaled := Nat.mul_le_mul_right NSEC_PER_SEC grows
      have now : timeMonotonicNs start = start.exactNs := (monotonic_exact none).mpr (scaled.trans_lt fits)
      have then_ : timeMonotonicNs later = later.exactNs := (monotonic_exact (same ▸ none)).mpr fits
      exact ⟨⟨now, then_⟩, by rw [now, then_]; exact (exact_le_iff none same).mpr grows⟩

theorem exact_small (fits : ClockFits start later) : start.exactNs < UINT64_MAX ∧ later.exactNs < UINT64_MAX := by
  rcases fits with none | ⟨grows, fits⟩
  · simp [Clock.exactNs, same, none, UINT64_MAX]
  · -- 10 ^ 9 is even and 2 ^ 64 - 1 is not.
    have scaled := Nat.mul_le_mul_right NSEC_PER_SEC grows
    have now := Nat.div_le_self (start.since * NSEC_PER_SEC) start.rate
    have then_ := Nat.div_le_self (later.since * NSEC_PER_SEC) later.rate
    simp only [Clock.exactNs, UINT64_MAX, NSEC_PER_SEC] at *
    exact ⟨by omega, by omega⟩

end

theorem timespec_deadline (now : timeMonotonicNs start = start.exactNs) (small : start.exactNs < UINT64_MAX) (sec nsec : Nat) :
    timeTimeoutAfterTimespec start sec nsec = if nsec < NSEC_PER_SEC then
      some ⟨true, min (start.exactNs + (sec * NSEC_PER_SEC + nsec)) UINT64_MAX⟩ else none := by
  unfold timeTimeoutAfterTimespec
  rw [Int.toNat_natCast, Int.toNat_natCast, scale_saturating (by decide), now]
  dsimp only
  rw [add_saturating (Nat.min_le_right _ _), add_saturating small.le]
  split_ifs
  · omega
  · rfl
  · exact congrArg (fun deadline => some (Timeout.mk true deadline)) (min_saturated ..)
  · omega

theorem millis_deadline (now : timeMonotonicNs start = start.exactNs) (small : start.exactNs < UINT64_MAX) (ms : Nat) :
    timeTimeoutAfterMs start ms = ⟨true, min (start.exactNs + ms * NSEC_PER_MSEC) UINT64_MAX⟩ := by
  rw [timeTimeoutAfterMs, if_neg (by omega), timeMsToNs, Int.toNat_natCast, scale_saturating (by decide), now,
    add_saturating small.le]
  exact congrArg (Timeout.mk true) (min_add_min ..)

end Lyr.Dev
