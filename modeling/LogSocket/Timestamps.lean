import LogSocket.Lib.Rounding
import LogSocket.MsgpackKeys
import Mathlib.Data.Rat.Floor
import Mathlib.Tactic.IntervalCases
import Mathlib.Tactic.Qify

/-! The time of a Msgpack message, which the loader takes as a `float` and multiplies twice. Only the
times of the first hours of the epoch are kept to the millisecond. -/

namespace LogSocket.Msgpack

open Lib MsgpackSocketHandler

/-- A `float`, or the product of two of them, has 24 bits. -/
def float (q : ℚ) : ℚ := nearest 24 q

/-- `static_cast<log4cxx_int64_t>(std::round(created * 1000 * 1000))` of `as<float>()`. -/
def timestamp (created : ℚ) : ℤ := roundAway (float (float (float created * 1000) * 1000))

/-- The first time, in microseconds, that is not kept. -/
def firstLost : ℕ := 8388637208

/-- The three roundings, with a bound for the error of each. -/
theorem timestamp_error {t seconds millis micros : ℚ}
    (hSeconds : |float t - t| ≤ seconds)
    (hMillis : |float (float t * 1000) - float t * 1000| ≤ millis)
    (hMicros : |float (float (float t * 1000) * 1000) - float (float t * 1000) * 1000| ≤ micros) :
    |timestamp t - t * 1000000| ≤ seconds * 1000000 + millis * 1000 + micros + 1 / 2 := by
  have hRound := abs_roundAway_sub_le (float (float (float t * 1000) * 1000))
  rw [← timestamp] at hRound
  rw [abs_le] at *
  constructor <;> linarith

/-- The error of an operation whose exact result is below a power of two. -/
theorem abs_float_sub_le {q : ℚ} {n : ℕ} (h : |q| < 2 ^ n) : |float q - q| ≤ 2 ^ n / 2 ^ 25 := by
  have hNearest := abs_nearest_sub_le_of_lt (p := 24) (q := q) (n := n) (by exact_mod_cast h)
  rw [zpow_sub₀ two_ne_zero, zpow_natCast, zpow_natCast, div_div, ← pow_succ] at hNearest
  exact hNearest

/-- Between two powers of two, the result is a multiple of `unit`. -/
theorem float_eq {q unit : ℚ} {n : ℕ} (hUnit : 2 ^ n / 2 ^ 23 = unit) (hLow : 2 ^ n ≤ q)
    (hHigh : q < 2 ^ n * 2) : ∃ m : ℤ, float q = m * unit ∧ |m - q / unit| ≤ 1 / 2 := by
  have hExp : (2 : ℚ) ^ ((n : ℤ) + 1 - (24 : ℕ)) = unit := by
    rw [show (n : ℤ) + 1 - (24 : ℕ) = n - (23 : ℕ) by omega, zpow_sub₀ two_ne_zero, zpow_natCast,
      zpow_natCast, hUnit]
  have hNonneg : 0 ≤ q := le_trans (by positivity) hLow
  rw [← pow_succ] at hHigh
  rw [← hExp]
  apply nearest_eq
  · rw [abs_of_nonneg hNonneg]
    exact_mod_cast hLow
  · rw [abs_of_nonneg hNonneg]
    exact_mod_cast hHigh

/-- As long as the milliseconds are below `2^23`, the errors are small enough. -/
theorem timestamp_small {k : ℕ} (hTime : k < 2 ^ 14 * 1000000)
    (hMillis : float (k / 1000000) * 1000 < 2 ^ 23) :
    |(timestamp (k / 1000000) : ℚ) - k| < 1000 := by
  have hNonneg : (0 : ℚ) ≤ k / 1000000 := by positivity
  have hLt : (k / 1000000 : ℚ) < 2 ^ 14 := by
    rw [div_lt_iff₀ (by norm_num)]
    exact_mod_cast hTime
  have hSeconds := abs_float_sub_le (abs_lt.mpr ⟨by linarith, hLt⟩)
  have hLow := (abs_le.mp hSeconds).1
  have hProduct := abs_float_sub_le (q := float (k / 1000000) * 1000) (n := 23)
    (abs_lt.mpr ⟨by linarith, hMillis⟩)
  have hBounds := abs_le.mp hProduct
  have hMicros := abs_float_sub_le (q := float (float (k / 1000000) * 1000) * 1000) (n := 33)
    (abs_lt.mpr ⟨by linarith, by linarith⟩)
  have hError := timestamp_error hSeconds hProduct hMicros
  rw [div_mul_cancel₀ _ (by norm_num : (1000000 : ℚ) ≠ 0)] at hError
  exact lt_of_le_of_lt hError (by norm_num)

/-- Above, and below `2^14` seconds, the three numbers are multiples of `2^-10`, 1 and `2^9`. -/
theorem timestamp_grid {k : ℕ} (hTime : k < 2 ^ 23 * 1001)
    (hMillis : 2 ^ 23 ≤ float (k / 1000000) * 1000) :
    ∃ m₁ m₂ m₃ : ℤ, timestamp (k / 1000000) = 512 * m₃ ∧ 8589935 ≤ m₁ ∧
      |31250 * m₁ - 32 * k| ≤ 15625 ∧ |128 * m₂ - 125 * m₁| ≤ 64 ∧ |64 * m₃ - 125 * m₂| ≤ 32 := by
  have hNonneg : (0 : ℚ) ≤ k / 1000000 := by positivity
  have hTime' : (k : ℚ) < 2 ^ 23 * 1001 := by exact_mod_cast hTime
  have hLt : (k / 1000000 : ℚ) < 2 ^ 14 := by linarith
  have hSeconds := abs_le.mp (abs_float_sub_le (abs_lt.mpr ⟨by linarith, hLt⟩))
  obtain ⟨m₁, hFirst, hError₁⟩ := float_eq (q := (k / 1000000 : ℚ)) (n := 13)
    (by norm_num : (2 : ℚ) ^ 13 / 2 ^ 23 = 1 / 1024) (by linarith) (by linarith)
  rw [hFirst] at hMillis hSeconds
  obtain ⟨m₂, hSecond, hError₂⟩ := float_eq (q := (m₁ * (1 / 1024) * 1000 : ℚ)) (n := 23)
    (by norm_num : (2 : ℚ) ^ 23 / 2 ^ 23 = 1) hMillis (by linarith)
  have hBounds₂ := abs_le.mp hError₂
  obtain ⟨m₃, hThird, hError₃⟩ := float_eq (q := (m₂ * 1 * 1000 : ℚ)) (n := 32)
    (by norm_num : (2 : ℚ) ^ 32 / 2 ^ 23 = 512) (by linarith) (by linarith)
  have hRound : timestamp (k / 1000000) = 512 * m₃ := by
    rw [timestamp, hFirst, hSecond, hThird, show (m₃ * 512 : ℚ) = ((512 * m₃ : ℤ) : ℚ) by
      push_cast; ring, roundAway_intCast]
  refine ⟨m₁, m₂, m₃, hRound, ?_, ?_, ?_, ?_⟩
  · have hLow : (8589934 : ℚ) < m₁ := by linarith
    exact_mod_cast hLow
  all_goals
    rw [abs_le] at *
    constructor <;> qify <;> linarith

/-- A time before the first one that is lost is kept. -/
theorem timestamp_kept {k : ℕ} (hTime : k < firstLost) : |timestamp (k / 1000000) - k| < 1000 := by
  unfold firstLost at hTime
  by_cases hMillis : float (k / 1000000) * 1000 < 2 ^ 23
  · have hSmall := timestamp_small (by omega) hMillis
    exact_mod_cast hSmall
  · obtain ⟨m₁, m₂, m₃, hStamp, hLow, hFirst, hSecond, hThird⟩ :=
      timestamp_grid (by omega) (not_lt.mp hMillis)
    rw [hStamp]
    rw [abs_le] at hFirst hSecond hThird
    rw [abs_lt]
    have hHigh : m₁ ≤ 8589964 := by omega
    interval_cases m₁ <;> omega

theorem timestamp_firstLost : timestamp (firstLost / 1000000) - firstLost = 1000 := by
  have hLt : |(firstLost / 1000000 : ℚ)| < 2 ^ 14 := by
    rw [firstLost, abs_lt]
    norm_num
  have hSeconds := abs_le.mp (abs_float_sub_le hLt)
  have hMillis : 2 ^ 23 ≤ float (firstLost / 1000000) * 1000 := by
    rw [firstLost] at *
    norm_num at hSeconds ⊢
    linarith
  obtain ⟨m₁, m₂, m₃, hStamp, -, hFirst, hSecond, hThird⟩ := timestamp_grid (by decide) hMillis
  rw [abs_le] at hFirst hSecond hThird
  rw [hStamp]
  unfold firstLost at *
  omega

/-- The host computes the time of an event as the source says, of the number that `created` stands
for. -/
def Rounds (host : Host) (number : Number → ℚ) : Prop :=
  ∀ created, host.microseconds created = Int64.ofInt (timestamp (number created))

/-- The number in the place of `created`. -/
def Created (host : Host) (byteBuf : ByteBuf) (created : Number) : Prop :=
  ∃ msgmap readBytes object, host.unpack byteBuf.bytes = .object (.map msgmap) readBytes ∧
    value msgmap msgIndexCreated = .ok object ∧ asFloat object = .ok created

/-- An event has the time of the number in that place. -/
theorem createLoggingEvent_timeStamp {host : Host} {byteBuf : ByteBuf} {event : LoggingEvent}
    {created : Number} (hEvent : (createLoggingEvent host byteBuf).1 = .ok event)
    (hCreated : Created host byteBuf created) : event.timeStamp = host.microseconds created := by
  obtain ⟨msgmap, readBytes, object, hUnpack, hObject, hFloat⟩ := hCreated
  obtain ⟨object', hObject', hKept⟩ :=
    eventOf_eq_ok.mp (createLoggingEvent_event hUnpack hEvent) .created
  obtain rfl := Except.ok.inj (hObject.symm.trans hObject')
  obtain ⟨created', hCreated, hTime⟩ := map_eq_ok.mp hKept
  obtain rfl := Except.ok.inj (hFloat.symm.trans hCreated)
  exact (Kept.time.inj hTime).symm

/-- Of the messages with a time below `bound` microseconds, each gives an event with that time, to the
millisecond. -/
def KeepsMillis (bound : ℕ) : Prop :=
  ∀ (host : Host) (number : Number → ℚ) (byteBuf : ByteBuf) (event : LoggingEvent)
    (created : Number) (k : ℕ), Rounds host number → Created host byteBuf created →
    number created = k / 1000000 → k < bound →
    (createLoggingEvent host byteBuf).1 = .ok event → |event.timeStamp.toInt - k| < 1000

/-- A host for which every number stands for one time. -/
def timeHost (k : ℕ) : Host := { packedHost usualEntries with
  microseconds := fun _ => Int64.ofInt (timestamp (k / 1000000)) }

theorem timeHost_created (k : ℕ) :
    Created (timeHost k) (packedBuf usualEntries usualEntries_size) (.double 0) :=
  ⟨usualEntries, _, .float 0, packedHost_unpack usualEntries _, rfl, rfl⟩

theorem timeHost_event (k : ℕ) : ∃ event,
    (createLoggingEvent (timeHost k) (packedBuf usualEntries usualEntries_size)).1 = .ok event := by
  have hUnpack : (timeHost k).unpack (packedBuf usualEntries usualEntries_size).bytes = _ :=
    packedHost_unpack usualEntries usualEntries_size
  rw [createLoggingEvent_map hUnpack (packedBuf_size _ _)]
  exact eventOf_ok _ fun field => by cases field <;> exact ⟨_, rfl, rfl⟩

/-- The first time that is lost is lost by one microsecond. -/
theorem not_keepsMillis_of_lt {bound : ℕ} (h : firstLost < bound) : ¬KeepsMillis bound := by
  intro hKeeps
  have hRounds : Rounds (timeHost firstLost) fun _ => firstLost / 1000000 := fun _ => rfl
  obtain ⟨event, hEvent⟩ := timeHost_event firstLost
  have hKept := hKeeps _ _ _ event _ _ hRounds (timeHost_created firstLost) rfl h hEvent
  have hStamp : timestamp (firstLost / 1000000) = 8388638208 := by
    have hLost := timestamp_firstLost
    unfold firstLost at hLost ⊢
    omega
  rw [createLoggingEvent_timeStamp hEvent (timeHost_created firstLost), hRounds, hStamp] at hKept
  exact absurd hKept (by decide)

theorem keepsMillis_iff (bound : ℕ) : KeepsMillis bound ↔ bound ≤ firstLost := by
  constructor
  · intro hKeeps
    by_contra hBound
    exact not_keepsMillis_of_lt (not_le.mp hBound) hKeeps
  · intro hBound host number byteBuf event created k hRounds hCreated hNumber hTime hEvent
    have hKept := timestamp_kept (hTime.trans_le hBound)
    rw [createLoggingEvent_timeStamp hEvent hCreated, hRounds, hNumber, Int64.toInt_ofInt_of_le]
    · exact hKept
    all_goals
      unfold firstLost at hBound
      rw [abs_lt] at hKept
      omega

theorem not_keepsMillis : ¬KeepsMillis (2 ^ 33 * 1000000) := not_keepsMillis_of_lt (by decide)

end LogSocket.Msgpack
