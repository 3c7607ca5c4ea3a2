import Mathlib.Algebra.Order.Floor.Ring
import Mathlib.Algebra.Order.Archimedean.Basic
import Mathlib.Data.Rat.Floor
import Mathlib.Tactic.Linarith
import InfrixPlayground.Lib.AssocMap
import InfrixPlayground.Externals

/-!
# `Api.RateLimit` — the per-client token-bucket admission limiter

`RateLimiter.allow` consumes one token of a key's bucket, after dropping the buckets that have been idle
for longer than the ttl. Tokens, rates and clock readings are exact rationals (seconds); a `Duration` is
a whole number of nanoseconds. What a call finds in a bucket is `levelAt`, and the two `levelAt_allow`
lemmas say how a call changes it: every later statement about the limiter goes through them.
-/

namespace InfrixPlayground
namespace Api

/-- One client's bucket. -/
structure Bucket where
  tokens : ℚ
  last : Time
deriving DecidableEq, Repr

/-- The limiter: bucket size, tokens per second, idle time after which a bucket is pruned. -/
structure RateLimiter where
  capacity : ℚ
  refillRate : ℚ
  ttl : ℚ
  buckets : AList fun _ : String => Bucket

/-- The operator's choice: instantaneous burst, and sustained requests per minute. -/
structure RateLimitConfig where
  burst : ℚ
  perMinute : ℚ
deriving DecidableEq, Repr

/-- The hosted default. -/
def defaultRateLimitConfig : RateLimitConfig := { burst := 5, perMinute := 10 }

/-- Build a limiter; a non-positive burst disables limiting. -/
def newRateLimiter (cfg : RateLimitConfig) : RateLimiter :=
  { capacity := cfg.burst, refillRate := cfg.perMinute / 60, ttl := 10 * 60, buckets := ∅ }

/-- The outcome of an admission check. -/
structure Decision where
  allowed : Bool
  retryAfter : Duration
deriving DecidableEq, Repr

def minF (a b : ℚ) : ℚ := if a < b then a else b

/-- Drop idle buckets so the map cannot grow unbounded. -/
def RateLimiter.pruneLocked (rl : RateLimiter) (now : Time) : RateLimiter :=
  { rl with buckets := rl.buckets.filter fun _ b => !decide (now - b.last > rl.ttl) }

/-- The bucket of `key`, a full one if it has none. -/
def RateLimiter.bucket (rl : RateLimiter) (now : Time) (key : String) : Bucket :=
  (rl.buckets.lookup key).getD { tokens := rl.capacity, last := now }

/-- Refill a bucket for the time since it was last seen. -/
def RateLimiter.refill (rl : RateLimiter) (now : Time) (b : Bucket) : Bucket :=
  let elapsed := now - b.last
  if elapsed > 0 then
    { tokens := minF rl.capacity (b.tokens + elapsed * rl.refillRate), last := now }
  else b

/-- Time until one token accrues, truncated to nanoseconds, plus a second. -/
def RateLimiter.retryAfter (rl : RateLimiter) (b : Bucket) : Duration :=
  let deficit := 1 - b.tokens
  if rl.refillRate > 0 then ⌊deficit / rl.refillRate * second⌋ + second else 0

/-- Consume one token for `key` at clock reading `now`. -/
def RateLimiter.allow (rl : RateLimiter) (now : Time) (key : String) : RateLimiter × Decision :=
  if rl.capacity ≤ 0 then (rl, { allowed := true, retryAfter := 0 })
  else
    let rl := rl.pruneLocked now
    let b := rl.refill now (rl.bucket now key)
    if b.tokens ≥ 1 then
      ({ rl with buckets := rl.buckets.insert key { b with tokens := b.tokens - 1 } },
        { allowed := true, retryAfter := 0 })
    else
      ({ rl with buckets := rl.buckets.insert key b },
        { allowed := false, retryAfter := rl.retryAfter b })

/-! ## What a call finds, and what it leaves -/

/-- The tokens a call for `key` finds in its bucket at `t`, after pruning and refilling. -/
def RateLimiter.levelAt (rl : RateLimiter) (key : String) (t : Time) : ℚ :=
  ((rl.pruneLocked t).refill t ((rl.pruneLocked t).bucket t key)).tokens

@[simp] theorem capacity_prune (rl : RateLimiter) (now : Time) :
    (rl.pruneLocked now).capacity = rl.capacity := rfl
@[simp] theorem refillRate_prune (rl : RateLimiter) (now : Time) :
    (rl.pruneLocked now).refillRate = rl.refillRate := rfl
@[simp] theorem ttl_prune (rl : RateLimiter) (now : Time) : (rl.pruneLocked now).ttl = rl.ttl := rfl

theorem minF_eq_min (a b : ℚ) : minF a b = min a b := by
  unfold minF
  split
  · rename_i h; exact (min_eq_left h.le).symm
  · rename_i h; exact (min_eq_right (not_lt.mp h)).symm

/-- A pruned map looks up the buckets that are not idle. -/
theorem lookup_prune (rl : RateLimiter) (now : Time) (key : String) :
    (rl.pruneLocked now).buckets.lookup key
      = (rl.buckets.lookup key).filter fun b => !decide (now - b.last > rl.ttl) :=
  AList.lookup_filter ..

/-- A key whose bucket the sweep drops, or that never had one, is given a full bucket. -/
theorem levelAt_of_fresh {rl : RateLimiter} {key : String} {t : Time}
    (h : (rl.pruneLocked t).buckets.lookup key = none) : rl.levelAt key t = rl.capacity := by
  simp [RateLimiter.levelAt, RateLimiter.bucket, RateLimiter.refill, h]

/-- Without a bucket a call finds a full one. -/
theorem levelAt_of_none {rl : RateLimiter} {key : String} (h : rl.buckets.lookup key = none)
    (t : Time) : rl.levelAt key t = rl.capacity := by
  apply levelAt_of_fresh
  rw [lookup_prune, h]; rfl

/-- A bucket idle for longer than the ttl is as good as none. -/
theorem levelAt_of_idle {rl : RateLimiter} {key : String} {b : Bucket} {t : Time}
    (h : rl.buckets.lookup key = some b) (hi : rl.ttl < t - b.last) :
    rl.levelAt key t = rl.capacity := by
  apply levelAt_of_fresh
  rw [lookup_prune, h, Option.filter_some, if_neg (by simp [hi])]

/-- A live bucket has been refilled since it was last seen, up to the capacity. -/
theorem levelAt_of_live {rl : RateLimiter} {key : String} {b : Bucket} {t : Time}
    (h : rl.buckets.lookup key = some b) (hcap : b.tokens ≤ rl.capacity) (hlast : b.last ≤ t)
    (hi : t - b.last ≤ rl.ttl) :
    rl.levelAt key t = min rl.capacity (b.tokens + (t - b.last) * rl.refillRate) := by
  have hb : (rl.pruneLocked t).bucket t key = b := by
    rw [RateLimiter.bucket, lookup_prune, h, Option.filter_some, if_pos (by simp [hi])]
    rfl
  rw [RateLimiter.levelAt, hb, RateLimiter.refill]
  by_cases he : t - b.last > 0
  · simp [he, minF_eq_min]
  · have h0 : t - b.last = 0 := le_antisymm (not_lt.mp he) (sub_nonneg.mpr hlast)
    simp [h0, hcap]

/-- The invariant of a limiter at clock reading `t`: limiting is on, no bucket overflows, none is from
    the future. -/
structure RateLimiter.Ok (rl : RateLimiter) (t : Time) : Prop where
  cap_pos : 0 < rl.capacity
  rate_nonneg : 0 ≤ rl.refillRate
  nonneg : ∀ k b, rl.buckets.lookup k = some b → 0 ≤ b.tokens
  le_cap : ∀ k b, rl.buckets.lookup k = some b → b.tokens ≤ rl.capacity
  last_le : ∀ k b, rl.buckets.lookup k = some b → b.last ≤ t

/-- A call admits exactly when it finds a whole token. -/
theorem allow_allowed {rl : RateLimiter} (hc : 0 < rl.capacity) (t : Time) (k : String) :
    (rl.allow t k).2.allowed = decide (1 ≤ rl.levelAt k t) := by
  unfold RateLimiter.allow RateLimiter.levelAt
  rw [if_neg (not_le.mpr hc)]
  simp only [ge_iff_le]
  split
  · rename_i h; simp [h]
  · rename_i h; simp [h]

theorem RateLimiter.Ok.mono {rl : RateLimiter} {t t' : Time} (h : rl.Ok t) (htt : t ≤ t') :
    rl.Ok t' :=
  { h with last_le := fun k b hb => (h.last_le k b hb).trans htt }

/-- A fresh limiter, with limiting on. -/
theorem newRateLimiter_ok {cfg : RateLimitConfig} (hb : 0 < cfg.burst) (hr : 0 ≤ cfg.perMinute)
    (t : Time) : (newRateLimiter cfg).Ok t where
  cap_pos := hb
  rate_nonneg := div_nonneg hr (by norm_num)
  nonneg := by intro k b h; simp [newRateLimiter] at h
  le_cap := by intro k b h; simp [newRateLimiter] at h
  last_le := by intro k b h; simp [newRateLimiter] at h

/-- **The level a call finds lies between empty and the capacity.** -/
theorem levelAt_bounds {rl : RateLimiter} {t : Time} (h : rl.Ok t) (k : String) :
    0 ≤ rl.levelAt k t ∧ rl.levelAt k t ≤ rl.capacity := by
  cases hb : rl.buckets.lookup k with
  | none => rw [levelAt_of_none hb]; exact ⟨h.cap_pos.le, le_rfl⟩
  | some b =>
      by_cases hi : rl.ttl < t - b.last
      · rw [levelAt_of_idle hb hi]; exact ⟨h.cap_pos.le, le_rfl⟩
      · have hgain : 0 ≤ (t - b.last) * rl.refillRate :=
          mul_nonneg (sub_nonneg.mpr (h.last_le k b hb)) h.rate_nonneg
        rw [levelAt_of_live hb (h.le_cap k b hb) (h.last_le k b hb) (not_lt.mp hi)]
        exact ⟨le_min h.cap_pos.le (add_nonneg (h.nonneg k b hb) hgain), min_le_left _ _⟩

/-- The bucket a call works on is dated at the call. -/
theorem last_refill {rl : RateLimiter} {t : Time} (h : rl.Ok t) (k : String) :
    ((rl.pruneLocked t).refill t ((rl.pruneLocked t).bucket t k)).last = t := by
  unfold RateLimiter.refill
  dsimp only
  split
  · rfl
  · rename_i hel
    -- not refilled: a bucket dated no earlier than the call, and by the invariant no later
    have hle : ((rl.pruneLocked t).bucket t k).last ≤ t := by
      unfold RateLimiter.bucket
      cases hb : (rl.pruneLocked t).buckets.lookup k with
      | none => exact le_rfl
      | some b =>
          rw [lookup_prune, Option.filter_eq_some_iff] at hb
          exact h.last_le k b hb.1
    exact le_antisymm hle (by linarith)

/-- **What a call leaves.** The key's bucket holds what the call found less the token it took, dated at
    the call; every other key keeps its bucket unless the sweep dropped it. -/
theorem lookup_allow {rl : RateLimiter} {t : Time} (h : rl.Ok t) (k k' : String) :
    (rl.allow t k).1.buckets.lookup k'
      = if k' = k then
          some ⟨rl.levelAt k t - (if (rl.allow t k).2.allowed = true then 1 else 0), t⟩
        else (rl.buckets.lookup k').filter fun b => !decide (t - b.last > rl.ttl) := by
  have hlast := last_refill h k
  rw [allow_allowed h.cap_pos, ← lookup_prune]
  unfold RateLimiter.allow RateLimiter.levelAt
  rw [if_neg (not_le.mpr h.cap_pos)]
  dsimp only
  generalize (rl.pruneLocked t).refill t ((rl.pruneLocked t).bucket t k) = b at hlast ⊢
  split
  · rename_i hge
    have hcount : (if decide (1 ≤ b.tokens) = true then (1 : ℚ) else 0) = 1 :=
      if_pos (decide_eq_true hge)
    rw [AList.lookup_insert_eq, hcount, hlast]
  · rename_i hge
    have hcount : (if decide (1 ≤ b.tokens) = true then (1 : ℚ) else 0) = 0 :=
      if_neg (by simpa using hge)
    rw [AList.lookup_insert_eq, hcount, sub_zero, ← hlast]

@[simp] theorem capacity_allow (rl : RateLimiter) (t : Time) (k : String) :
    (rl.allow t k).1.capacity = rl.capacity := by
  unfold RateLimiter.allow; dsimp only; split <;> [rfl; (split <;> rfl)]

@[simp] theorem refillRate_allow (rl : RateLimiter) (t : Time) (k : String) :
    (rl.allow t k).1.refillRate = rl.refillRate := by
  unfold RateLimiter.allow; dsimp only; split <;> [rfl; (split <;> rfl)]

@[simp] theorem ttl_allow (rl : RateLimiter) (t : Time) (k : String) :
    (rl.allow t k).1.ttl = rl.ttl := by
  unfold RateLimiter.allow; dsimp only; split <;> [rfl; (split <;> rfl)]

/-- A token is only taken where there is one. -/
theorem level_after_nonneg {rl : RateLimiter} {t : Time} (h : rl.Ok t) (k : String) :
    0 ≤ rl.levelAt k t - (if (rl.allow t k).2.allowed = true then 1 else 0) := by
  have hb := (levelAt_bounds h k).1
  rw [allow_allowed h.cap_pos]
  split
  · rename_i hd; exact sub_nonneg.mpr (of_decide_eq_true hd)
  · rw [sub_zero]; exact hb

theorem level_after_le {rl : RateLimiter} {t : Time} (h : rl.Ok t) (k : String) :
    rl.levelAt k t - (if (rl.allow t k).2.allowed = true then 1 else 0) ≤ rl.capacity := by
  have hb := (levelAt_bounds h k).2
  split <;> linarith

/-- **The invariant survives every call.** -/
theorem RateLimiter.Ok.allow {rl : RateLimiter} {t : Time} (h : rl.Ok t) (k : String) :
    (rl.allow t k).1.Ok t := by
  -- a bucket found afterwards is the one just dated, or one that was there
  have hcases : ∀ k' b, (rl.allow t k).1.buckets.lookup k' = some b →
      b = ⟨rl.levelAt k t - (if (rl.allow t k).2.allowed = true then 1 else 0), t⟩
        ∨ rl.buckets.lookup k' = some b := by
    intro k' b hb
    rw [lookup_allow h] at hb
    by_cases hk : k' = k
    · rw [if_pos hk] at hb; exact Or.inl (Option.some.inj hb).symm
    · rw [if_neg hk, Option.filter_eq_some_iff] at hb; exact Or.inr hb.1
  refine ⟨by simpa using h.cap_pos, by simpa using h.rate_nonneg, ?_, ?_, ?_⟩
  · intro k' b hb
    rcases hcases k' b hb with rfl | hb
    · exact level_after_nonneg h k
    · exact h.nonneg k' b hb
  · intro k' b hb
    rw [capacity_allow]
    rcases hcases k' b hb with rfl | hb
    · exact level_after_le h k
    · exact h.le_cap k' b hb
  · intro k' b hb
    rcases hcases k' b hb with rfl | hb
    · exact le_rfl
    · exact h.last_le k' b hb

/-- **A call for one key is invisible to every other.** -/
theorem levelAt_allow_ne {rl : RateLimiter} {t t' : Time} (h : rl.Ok t) (htt : t ≤ t')
    {k k' : String} (hk : k' ≠ k) : (rl.allow t k).1.levelAt k' t' = rl.levelAt k' t' := by
  have hlk := lookup_allow h k k'
  rw [if_neg hk] at hlk
  cases hb : rl.buckets.lookup k' with
  | none =>
      rw [hb, Option.filter_none] at hlk
      rw [levelAt_of_none hlk, levelAt_of_none hb, capacity_allow]
  | some b =>
      rw [hb, Option.filter_some] at hlk
      by_cases hi : rl.ttl < t - b.last
      · -- swept by this call, and it would be swept at `t'`
        rw [if_neg (by simp [hi])] at hlk
        rw [levelAt_of_none hlk, levelAt_of_idle hb (by linarith), capacity_allow]
      · rw [if_pos (by simpa using hi)] at hlk
        by_cases hi' : rl.ttl < t' - b.last
        · rw [levelAt_of_idle hlk (by simpa using hi'), levelAt_of_idle hb hi', capacity_allow]
        · rw [levelAt_of_live hlk (by simpa using h.le_cap k' b hb)
              ((h.last_le k' b hb).trans htt) (by simpa using hi'),
            levelAt_of_live hb (h.le_cap k' b hb) ((h.last_le k' b hb).trans htt) (not_lt.mp hi'),
            capacity_allow, refillRate_allow]

end Api
end InfrixPlayground
