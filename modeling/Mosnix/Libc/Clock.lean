import Mosnix.Machine
import Mosnix.Lib.Program

/-!
# Clocks

`clock_gettime` and `clock_settime` of the C library, over the system calls of `time.c` in the
kernel.  The kernel counts ticks of 1/256 of a second, and keeps the offset of the real time to the
ticks.  The values of the types `long long`, `long` and `time_t` are integers.  A computation in
`long long` that overflows is a fault, and a conversion to `long` or `time_t` keeps the lower 32
bits.
-/

namespace Mosnix.Libc

open Program

/-- The clocks of the kernel: the ticks since the system was started, of which `sys_monoclock`
returns 40 bits, and the offset `realtime`. -/
structure Clock where
  systick : BitVec 40
  realtime : Int

/-- `struct timespec` -/
structure Timespec where
  tvSec : Int
  tvNsec : Int

def CLOCK_REALTIME : Byte := 0
def CLOCK_MONOTONIC : Byte := 1

/-- The result of a computation in `long long`. -/
def longLong (x : Int) : Program Clock Int :=
  if -2 ^ 63 ≤ x ∧ x < 2 ^ 63 then return x else fault

/-- The conversion to `long` or `time_t`. -/
def toLong (x : Int) : Int :=
  x.bmod (2 ^ 32)

/-- `sys_getmonotime` -/
def sysGetmonotime : Program Clock Int := do
  return (← get).systick.toNat

/-- `sys_getrealtime` -/
def sysGetrealtime : Program Clock Int := do
  return (← get).realtime

/-- `sys_setrealtime` -/
def sysSetrealtime (t : Int) : Program Clock Unit :=
  modifyThe Clock fun c => { c with realtime := t }

/-- The conversion of ticks at the end of `clock_gettime`. -/
def ticksToTimespec (t1 : Int) : Program Clock Timespec := do
  let nsec ← longLong ((t1 % 2 ^ 8) * 1000000000)
  return { tvSec := toLong (t1 / 2 ^ 8), tvNsec := toLong (nsec / 2 ^ 8) }

/-- `clock_gettime`: the error that is stored in `errno`, or the time that is stored in `*ts`.  The
argument `ts` is not NULL if the time is `wanted`. -/
def clockGettime (clockid : Byte) (wanted : Bool) : Program Clock (Except Int Timespec) := do
  if ¬ wanted then
    return .error EFAULT
  else if clockid = CLOCK_MONOTONIC then
    let t1 ← sysGetmonotime
    return .ok (← ticksToTimespec t1)
  else if clockid = CLOCK_REALTIME then
    let t1 ← sysGetmonotime
    let t2 ← sysGetrealtime
    let t1 ← longLong (t1 + t2)
    return .ok (← ticksToTimespec (if t1 < 0 then 0 else t1))
  else
    return .error EINVAL

/-- `clock_settime`, with the value of `*ts` unless `ts` is NULL: the error that is stored in
`errno`, or success. -/
def clockSettime (clockid : Byte) (ts : Option Timespec) : Program Clock (Except Int Unit) := do
  match ts with
  | none => return .error EFAULT
  | some ts =>
      if clockid = CLOCK_REALTIME ∧ 0 ≤ ts.tvSec ∧ 0 ≤ ts.tvNsec then
        let t2 ← longLong (ts.tvSec * 2 ^ 8)
        let nsec ← longLong (ts.tvNsec * 2 ^ 8)
        let t2 ← longLong (t2 + nsec.tdiv 1000000000)
        let t1 ← sysGetmonotime
        let t2 ← longLong (t2 - t1)
        sysSetrealtime t2
        return .ok ()
      else
        return .error EINVAL

/-! ### Time in ticks -/

/-- The real time of a clock in ticks. -/
def Clock.now (c : Clock) : Int := c.systick.toNat + c.realtime

/-- The clock set to a real time in ticks. -/
def Clock.setNow (c : Clock) (ticks : Int) : Clock :=
  { c with realtime := ticks - c.systick.toNat }

/-- The clock after some ticks. -/
def Clock.elapse (c : Clock) (d : ℕ) : Clock :=
  { c with systick := c.systick + BitVec.ofNat 40 d }

/-- The time after it is set. -/
theorem Clock.now_setNow (c : Clock) (ticks : Int) : (c.setNow ticks).now = ticks := by
  simp [now, setNow]

theorem Clock.setNow_of_now_eq {c : Clock} {ticks : Int} (h : c.now = ticks) :
  c.setNow ticks = c
  := by
  subst h
  simp [now, setNow]

/-- The time goes on with the ticks. -/
theorem Clock.now_elapse {c : Clock} {d : ℕ} (h : c.systick.toNat + d < 2 ^ 40) :
  (c.elapse d).now = c.now + d
  := by
  have hd : (BitVec.ofNat 40 d).toNat = d := by
    rw [BitVec.toNat_ofNat, Nat.mod_eq_of_lt (by omega)]
  have hs : (c.systick + BitVec.ofNat 40 d).toNat = c.systick.toNat + d := by
    rw [BitVec.toNat_add, hd, Nat.mod_eq_of_lt h]
  simp only [elapse, now, hs]
  push_cast
  ring

/-- The time of a number of ticks, of which each has 10^9 / 256 nanoseconds. -/
def timespecOfTicks (ticks : Int) : Timespec :=
  { tvSec := ticks / 256, tvNsec := ticks % 256 * 3906250 }

/-- The number of whole ticks of a time. -/
def Timespec.ticks (ts : Timespec) : Int :=
  ts.tvSec * 256 + ts.tvNsec * 256 / 1000000000

/-- A time in seconds. -/
def Timespec.seconds (ts : Timespec) : ℚ :=
  ts.tvSec + ts.tvNsec / 1000000000

/-- The ticks of a time that comes from ticks. -/
@[simp]
theorem ticks_timespecOfTicks (ticks : Int) : (timespecOfTicks ticks).ticks = ticks := by
  simp only [Timespec.ticks, timespecOfTicks]
  omega

theorem seconds_timespecOfTicks (ticks : Int) : (timespecOfTicks ticks).seconds = ticks / 256 := by
  have h : ((256 * (ticks / 256) + ticks % 256 : Int) : ℚ) = ticks := by
    rw [Int.mul_ediv_add_emod]
  push_cast at h
  simp only [Timespec.seconds, timespecOfTicks, Int.cast_mul]
  push_cast
  linarith

/-- A time with fewer than 10^9 nanoseconds is rounded down to a tick. -/
theorem timespecOfTicks_ticks {ts : Timespec} (h0 : 0 ≤ ts.tvNsec) (h : ts.tvNsec < 10 ^ 9) :
  (timespecOfTicks ts.ticks).tvSec = ts.tvSec ∧ (timespecOfTicks ts.ticks).tvNsec ≤ ts.tvNsec
    ∧ ts.tvNsec < (timespecOfTicks ts.ticks).tvNsec + 3906250
  := by
  simp only [Timespec.ticks, timespecOfTicks]
  omega

/-! ### What the functions do -/

/-- A number that fits 64 bits. -/
theorem longLong_bind {α : Type} {x : Int} {f : Int → Program Clock α} (hx : -2 ^ 63 ≤ x)
    (hx' : x < 2 ^ 63) (c : Clock) :
  (longLong x >>= f) c = f x c
  := by
  apply bind_eq
  rw [longLong, if_pos ⟨hx, hx'⟩]
  rfl

/-- The time since the start. -/
theorem sysGetmonotime_eq (c : Clock) : sysGetmonotime c = some (↑c.systick.toNat, c) := rfl

theorem sysGetrealtime_eq (c : Clock) : sysGetrealtime c = some (c.realtime, c) := rfl

theorem toLong_eq {x : Int} (h0 : 0 ≤ x) (h : x < 2 ^ 31) : toLong x = x := by
  apply Int.bmod_eq_of_le <;> omega

/-- Ticks of which the seconds are not negative and fit into `time_t` are converted exactly. -/
theorem ticksToTimespec_eq {ticks : Int} (h0 : 0 ≤ ticks) (h : ticks < 2 ^ 39) (c : Clock) :
  ticksToTimespec ticks c = some (timespecOfTicks ticks, c)
  := by
  apply (longLong_bind (by omega) (by omega) c).trans
  rw [toLong_eq (by omega) (by omega), toLong_eq (by omega) (by omega)]
  have hnsec : ticks % 2 ^ 8 * 1000000000 / 2 ^ 8 = ticks % 256 * 3906250 := by omega
  rw [hnsec]
  rfl

/-- `clock_gettime` returns the real time. -/
theorem clockGettime_realtime {c : Clock} (h0 : 0 ≤ c.now) (h : c.now < 2 ^ 39) :
  clockGettime CLOCK_REALTIME true c = some (.ok (timespecOfTicks c.now), c)
  := by
  have hsum : (c.systick.toNat + c.realtime : Int) = c.now := rfl
  apply (bind_eq (sysGetmonotime_eq c)).trans
  apply (bind_eq (sysGetrealtime_eq c)).trans
  rw [hsum]
  apply (longLong_bind (by omega) (by omega) c).trans
  rw [if_neg (not_lt.mpr h0)]
  apply bind_eq (ticksToTimespec_eq h0 h c)

/-- `clock_settime` sets the real time to a whole number of ticks. -/
theorem clockSettime_realtime {ts : Timespec} (hsec : 0 ≤ ts.tvSec) (hsec' : ts.tvSec < 2 ^ 31)
    (hnsec : 0 ≤ ts.tvNsec) (hnsec' : ts.tvNsec < 10 ^ 9) (c : Clock) :
  clockSettime CLOCK_REALTIME (some ts) c = some (.ok (), c.setNow ts.ticks)
  := by
  have hdiv : (ts.tvNsec * 2 ^ 8).tdiv 1000000000 = ts.tvNsec * 256 / 1000000000 :=
    Int.tdiv_eq_ediv_of_nonneg (by omega)
  have hticks : ts.tvSec * 2 ^ 8 + (ts.tvNsec * 2 ^ 8).tdiv 1000000000 = ts.ticks := by
    rw [hdiv, Timespec.ticks]
    norm_num
  have hlt : ts.ticks < 2 ^ 39 := by
    rw [Timespec.ticks]
    omega
  have h0 : 0 ≤ ts.ticks := by
    rw [Timespec.ticks]
    omega
  have hsystick : c.systick.toNat < 2 ^ 40 := c.systick.isLt
  simp only [clockSettime, hsec, hnsec, and_self, if_true]
  apply (longLong_bind (by omega) (by omega) c).trans
  apply (longLong_bind (by omega) (by omega) c).trans
  rw [hticks]
  apply (longLong_bind (by omega) (by omega) c).trans
  apply (bind_eq (sysGetmonotime_eq c)).trans
  apply (longLong_bind (by omega) (by omega) c).trans
  rfl

/-- After `clock_settime` of the real time, `clock_gettime` returns the same seconds and the
nanoseconds rounded down to a tick, and setting the clock to the returned time changes nothing.
After `d` ticks `clock_gettime` returns a time that is later by `d / 256` seconds.  No computation
overflows. -/
theorem clockGettime_clockSettime (c : Clock) (ts : Timespec) (hsec : 0 ≤ ts.tvSec)
    (hsec' : ts.tvSec < 2 ^ 31) (hnsec : 0 ≤ ts.tvNsec) (hnsec' : ts.tvNsec < 10 ^ 9) :
  ∃ c' ts', clockSettime CLOCK_REALTIME (some ts) c = some (.ok (), c')
    ∧ c'.systick = c.systick
    ∧ clockGettime CLOCK_REALTIME true c' = some (.ok ts', c')
    ∧ ts'.tvSec = ts.tvSec ∧ ts'.tvNsec ≤ ts.tvNsec ∧ ts.tvNsec < ts'.tvNsec + 3906250
    ∧ clockSettime CLOCK_REALTIME (some ts') c' = some (.ok (), c')
    ∧ ∀ d : ℕ, c.systick.toNat + d < 2 ^ 40 → ts'.seconds + d / 256 < 2 ^ 31 →
        ∃ ts'', clockGettime CLOCK_REALTIME true (c'.elapse d) = some (.ok ts'', c'.elapse d)
          ∧ 0 ≤ ts''.tvNsec ∧ ts''.tvNsec < 10 ^ 9 ∧ ts''.seconds = ts'.seconds + d / 256
  := by
  have hticks0 : 0 ≤ ts.ticks := by
    rw [Timespec.ticks]
    omega
  have hticks : ts.ticks < 2 ^ 39 := by
    rw [Timespec.ticks]
    omega
  have hnow : (c.setNow ts.ticks).now = ts.ticks := c.now_setNow ts.ticks
  obtain ⟨hround, hle, hlt⟩ := timespecOfTicks_ticks hnsec hnsec'
  refine ⟨c.setNow ts.ticks, timespecOfTicks ts.ticks,
    clockSettime_realtime hsec hsec' hnsec hnsec' c, rfl, ?_, hround, hle, hlt, ?_, ?_⟩
  · rw [clockGettime_realtime (by omega) (by omega), hnow]
  · have hnsec0 : 0 ≤ (timespecOfTicks ts.ticks).tvNsec := by
      simp only [timespecOfTicks]
      omega
    rw [clockSettime_realtime (by omega) (by omega) hnsec0 (by omega), ticks_timespecOfTicks,
      Clock.setNow_of_now_eq hnow]
  · intro d hwrap hseconds
    have hlater : ((c.setNow ts.ticks).elapse d).now = ts.ticks + d := by
      rw [Clock.now_elapse (c := c.setNow ts.ticks) hwrap, hnow]
    have hbound : ts.ticks + d < 2 ^ 39 := by
      rw [seconds_timespecOfTicks] at hseconds
      have h : ((ts.ticks + d : Int) : ℚ) < ((2 ^ 39 : Int) : ℚ) := by
        push_cast
        linarith
      exact_mod_cast h
    refine ⟨timespecOfTicks (ts.ticks + d), ?_, ?_, ?_, ?_⟩
    · rw [clockGettime_realtime (by omega) (by omega), hlater]
    · simp only [timespecOfTicks]
      omega
    · simp only [timespecOfTicks]
      omega
    · rw [seconds_timespecOfTicks, seconds_timespecOfTicks]
      push_cast
      ring

/-- A clock that is set to 0.999999999 seconds after 2^31 - 1 seconds, 1000 ticks after the start. -/
theorem clockGettime_clockSettime_last :
  ∃ c' ts', clockSettime CLOCK_REALTIME (some ⟨2147483647, 999999999⟩) ⟨1000, 0⟩ = some (.ok (), c')
    ∧ clockGettime CLOCK_REALTIME true c' = some (.ok ts', c')
    ∧ ts'.tvSec = 2147483647 ∧ ts'.tvNsec ≤ 999999999 ∧ 999999999 < ts'.tvNsec + 3906250
    ∧ clockSettime CLOCK_REALTIME (some ts') c' = some (.ok (), c')
  := by
  obtain ⟨c', ts', hset, -, hget, hsec, hle, hlt, hagain, -⟩ :=
    clockGettime_clockSettime ⟨1000, 0⟩ ⟨2147483647, 999999999⟩ (by decide) (by decide) (by decide)
      (by decide)
  exact ⟨c', ts', hset, hget, hsec, hle, hlt, hagain⟩

end Mosnix.Libc
