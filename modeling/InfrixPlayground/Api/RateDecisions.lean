import Mathlib.Tactic.NormNum
import InfrixPlayground.Lib.KeyedService
import InfrixPlayground.Api.RateLimit

/-!
# `Api.RateDecisions` — what the limiter tells each client

The limiter is a keyed service: what a call finds is its bucket, swept and refilled (`found`), and both
halves of the decision are read off that bucket. Every call sweeps the buckets of all clients, and still
no client can tell (`clients_isolated`); and where the ttl refills a bucket, nobody can tell the limiter
from one that never sweeps (`allow_answers_eq_unpruned`).
-/

namespace InfrixPlayground
namespace Api

open KeyedService

/-! ## A limiter that never sweeps -/

/-- `Allow` without its call of `pruneLocked`. -/
def RateLimiter.allowUnpruned (rl : RateLimiter) (now : Time) (key : String) : RateLimiter × Decision :=
  if rl.capacity ≤ 0 then (rl, { allowed := true, retryAfter := 0 })
  else
    let b := rl.refill now (rl.bucket now key)
    if b.tokens ≥ 1 then
      ({ rl with buckets := rl.buckets.insert key { b with tokens := b.tokens - 1 } },
        { allowed := true, retryAfter := 0 })
    else
      ({ rl with buckets := rl.buckets.insert key b },
        { allowed := false, retryAfter := rl.retryAfter b })

/-- `Allow` is the sweep, then the rest. -/
theorem allow_eq (rl : RateLimiter) (now : Time) (key : String) :
    rl.allow now key = if rl.capacity ≤ 0 then (rl, { allowed := true, retryAfter := 0 })
      else (rl.pruneLocked now).allowUnpruned now key := by
  unfold RateLimiter.allow
  split
  · rfl
  · rename_i hc
    rw [RateLimiter.allowUnpruned, if_neg (show ¬ (rl.pruneLocked now).capacity ≤ 0 from hc)]

/-! ## Buckets -/

/-- The limiter with other buckets. -/
def RateLimiter.withBuckets (rl : RateLimiter) (buckets : AList fun _ : String => Bucket) : RateLimiter :=
  { rl with buckets := buckets }

/-- The bucket a call leaves of the one it found. -/
def Bucket.spend (b : Bucket) : Bucket := if b.tokens ≥ 1 then { b with tokens := b.tokens - 1 } else b

/-- The decision on the bucket a call found. -/
def RateLimiter.decision (rl : RateLimiter) (b : Bucket) : Decision :=
  if b.tokens ≥ 1 then { allowed := true, retryAfter := 0 }
  else { allowed := false, retryAfter := rl.retryAfter b }

/-- What a call without a sweep finds. -/
def RateLimiter.foundUnpruned (rl : RateLimiter) (key : String) (t : Time) : Bucket :=
  rl.refill t (rl.bucket t key)

/-- What a call finds. -/
def RateLimiter.found (rl : RateLimiter) (key : String) (t : Time) : Bucket :=
  (rl.pruneLocked t).foundUnpruned key t

/-- The bucket `b` when it is next looked at: swept if it has been idle for longer than the ttl. -/
def RateLimiter.revisit (rl : RateLimiter) (b : Bucket) (t : Time) : Bucket :=
  rl.refill t (if t - b.last > rl.ttl then { tokens := rl.capacity, last := t } else b)

/-- Without a sweep, a call keeps what it found, less the token it took. -/
theorem allowUnpruned_eq {rl : RateLimiter} (hc : ¬ rl.capacity ≤ 0) (t : Time) (k : String) :
    rl.allowUnpruned t k = (rl.withBuckets (rl.buckets.insert k (rl.foundUnpruned k t).spend),
      rl.decision (rl.foundUnpruned k t)) := by
  unfold RateLimiter.allowUnpruned Bucket.spend RateLimiter.decision RateLimiter.foundUnpruned
  rw [if_neg hc]
  dsimp only
  split <;> rfl

theorem foundUnpruned_insert (rl : RateLimiter) (k k' : String) (b : Bucket) (t : Time) :
    (rl.withBuckets (rl.buckets.insert k b)).foundUnpruned k' t
      = if k' = k then rl.refill t b else rl.foundUnpruned k' t := by
  unfold RateLimiter.foundUnpruned RateLimiter.bucket RateLimiter.withBuckets
  dsimp only
  rw [AList.lookup_insert_eq]
  split <;> rfl

/-- Sweeping twice is sweeping the later time. -/
theorem found_prune (rl : RateLimiter) (k : String) {t u : Time} (h : t ≤ u) :
    (rl.pruneLocked t).found k u = rl.found k u := by
  have hlookup : ((rl.pruneLocked t).pruneLocked u).buckets.lookup k
      = (rl.pruneLocked u).buckets.lookup k := by
    rw [lookup_prune, lookup_prune, lookup_prune]
    cases rl.buckets.lookup k with
    | none => rfl
    | some b =>
        by_cases hi : rl.ttl < t - b.last
        · have hi' : rl.ttl < u - b.last := by linarith
          simp [Option.filter_some, hi, hi']
        · simp [Option.filter_some, hi]
  unfold RateLimiter.found RateLimiter.foundUnpruned RateLimiter.bucket
  rw [hlookup]
  rfl

/-- What is found after an insertion and a sweep. -/
theorem found_insert (rl : RateLimiter) (k k' : String) (b : Bucket) (u : Time) :
    (rl.withBuckets (rl.buckets.insert k b)).found k' u
      = if k' = k then rl.revisit b u else rl.found k' u := by
  unfold RateLimiter.found RateLimiter.foundUnpruned RateLimiter.bucket RateLimiter.revisit
  rw [lookup_prune, lookup_prune]
  unfold RateLimiter.withBuckets
  dsimp only
  rw [AList.lookup_insert_eq]
  split
  · by_cases hi : u - b.last > rl.ttl
    · rw [if_pos hi]; simp [Option.filter_some, hi]; rfl
    · rw [if_neg hi]; simp [Option.filter_some, hi]; rfl
  · rfl

/-! ## The limiter as a keyed service -/

/-- The cell of a limiter: the next call finds the bucket swept and refilled. -/
def RateLimiter.cell (rl : RateLimiter) : Cell Time Bucket Decision :=
  { answer := rl.decision, next := fun b _ u => rl.revisit b.spend u }

/-- Built with the same size, rate and ttl. -/
def RateLimiter.Like (rl rl' : RateLimiter) : Prop :=
  ∃ buckets, rl' = rl.withBuckets buckets

theorem RateLimiter.Like.allow {rl rl' : RateLimiter} (h : rl.Like rl') (t : Time) (k : String) :
    rl.Like (rl'.allow t k).1 := by
  obtain ⟨buckets, rfl⟩ := h
  rw [allow_eq]
  split
  · exact ⟨buckets, rfl⟩
  · rename_i hc
    rw [allowUnpruned_eq (show ¬ ((rl.withBuckets buckets).pruneLocked t).capacity ≤ 0 from hc)]
    exact ⟨_, rfl⟩

/-- **Every limiter that limits** is a keyed service. -/
theorem keyed_allow {rl : RateLimiter} (hc : ¬ rl.capacity ≤ 0) :
    Keyed rl.cell RateLimiter.allow RateLimiter.found fun rl' _ => rl.Like rl' where
  later h _ := h
  keeps k h := h.allow _ k
  answer := by
    rintro _ t k ⟨buckets, rfl⟩
    rw [allow_eq, if_neg (show ¬ (rl.withBuckets buckets).capacity ≤ 0 from hc),
      allowUnpruned_eq (show ¬ ((rl.withBuckets buckets).pruneLocked t).capacity ≤ 0 from hc)]
    rfl
  self := by
    rintro _ t u k ⟨buckets, rfl⟩ _
    rw [allow_eq, if_neg (show ¬ (rl.withBuckets buckets).capacity ≤ 0 from hc),
      allowUnpruned_eq (show ¬ ((rl.withBuckets buckets).pruneLocked t).capacity ≤ 0 from hc),
      found_insert, if_pos rfl]
    rfl
  other := by
    rintro _ t u k k' ⟨buckets, rfl⟩ htu hk
    rw [allow_eq, if_neg (show ¬ (rl.withBuckets buckets).capacity ≤ 0 from hc),
      allowUnpruned_eq (show ¬ ((rl.withBuckets buckets).pruneLocked t).capacity ≤ 0 from hc),
      found_insert, if_neg hk, found_prune _ _ htu]

/-! ## Isolation -/

/-- Without a limit every call is admitted, whatever came before. -/
theorem answers_unlimited {rl : RateLimiter} (hc : rl.capacity ≤ 0) (calls : List (Time × String)) :
    answers RateLimiter.allow rl calls = calls.map fun _ => { allowed := true, retryAfter := 0 } := by
  induction calls with
  | nil => rfl
  | cons c calls ih => rw [answers, allow_eq, if_pos hc, ih]; rfl

theorem answersOf_unlimited {rl : RateLimiter} (hc : rl.capacity ≤ 0) (key : String)
    (calls : List (Time × String)) : answersOf RateLimiter.allow key rl calls
      = (calls.filter fun c => c.2 = key).map fun _ => { allowed := true, retryAfter := 0 } := by
  induction calls with
  | nil => rfl
  | cons c calls ih =>
      rw [answersOf, allow_eq, if_pos hc, ih]
      by_cases hk : c.2 = key <;> simp [hk]

/-- **Clients are isolated.** Whatever the configuration and whoever else calls, a client is told exactly
    what it would be told if it were alone, `RetryAfter` included. -/
theorem clients_isolated (cfg : RateLimitConfig) (key : String) {calls : List (Time × String)}
    (hsorted : (calls.map Prod.fst).Pairwise (· ≤ ·)) :
    answersOf RateLimiter.allow key (newRateLimiter cfg) calls
      = answers RateLimiter.allow (newRateLimiter cfg) (calls.filter fun c => c.2 = key) := by
  by_cases hc : (newRateLimiter cfg).capacity ≤ 0
  · rw [answersOf_unlimited hc, answers_unlimited hc]
  · obtain ⟨t, hle⟩ := exists_start hsorted
    exact (keyed_allow hc).isolated key ⟨∅, rfl⟩ hle hsorted

/-- Two clients take turns. -/
theorem clients_isolated_sample :
    answersOf RateLimiter.allow "a" (newRateLimiter { burst := 1, perMinute := 60 })
        [(0, "a"), (1 / 2, "b"), (1 / 2, "a")]
      = answers RateLimiter.allow (newRateLimiter { burst := 1, perMinute := 60 })
        [(0, "a"), (1 / 2, "a")] := by
  have hsorted : (([(0, "a"), (1 / 2, "b"), (1 / 2, "a")] : List (Time × String)).map
      Prod.fst).Pairwise (· ≤ ·) := by decide +kernel
  exact clients_isolated { burst := 1, perMinute := 60 } "a" hsorted

/-! ## Sweeping -/

/-- The cell of a limiter that never sweeps. -/
def RateLimiter.cellUnpruned (rl : RateLimiter) : Cell Time Bucket Decision :=
  { answer := rl.decision, next := fun b _ u => rl.refill u b.spend }

theorem keyed_allowUnpruned {rl : RateLimiter} (hc : ¬ rl.capacity ≤ 0) :
    Keyed rl.cellUnpruned RateLimiter.allowUnpruned RateLimiter.foundUnpruned
      fun rl' _ => rl.Like rl' where
  later h _ := h
  keeps := by
    rintro _ t k ⟨buckets, rfl⟩
    rw [allowUnpruned_eq (show ¬ (rl.withBuckets buckets).capacity ≤ 0 from hc)]
    exact ⟨_, rfl⟩
  answer := by
    rintro _ t k ⟨buckets, rfl⟩
    rw [allowUnpruned_eq (show ¬ (rl.withBuckets buckets).capacity ≤ 0 from hc)]
    rfl
  self := by
    rintro _ t u k ⟨buckets, rfl⟩ _
    rw [allowUnpruned_eq (show ¬ (rl.withBuckets buckets).capacity ≤ 0 from hc), foundUnpruned_insert,
      if_pos rfl]
    rfl
  other := by
    rintro _ t u k k' ⟨buckets, rfl⟩ _ hk
    rw [allowUnpruned_eq (show ¬ (rl.withBuckets buckets).capacity ≤ 0 from hc), foundUnpruned_insert,
      if_neg hk]

/-- **A forgotten bucket would have been full.** Where the ttl refills a bucket, it makes no difference
    whether one that has been idle for longer was dropped. -/
theorem revisit_eq_refill {rl : RateLimiter} (hfull : rl.capacity ≤ rl.ttl * rl.refillRate)
    (hrate : 0 ≤ rl.refillRate) (httl : 0 ≤ rl.ttl) {b : Bucket} (hb : 0 ≤ b.tokens) (u : Time) :
    rl.revisit b u = rl.refill u b := by
  unfold RateLimiter.revisit
  by_cases hi : u - b.last > rl.ttl
  · have hgain : rl.ttl * rl.refillRate ≤ (u - b.last) * rl.refillRate :=
      mul_le_mul_of_nonneg_right hi.le hrate
    have hcap : min rl.capacity (b.tokens + (u - b.last) * rl.refillRate) = rl.capacity :=
      min_eq_left (by linarith)
    rw [if_pos hi, RateLimiter.refill, RateLimiter.refill, if_neg (by simp), minF_eq_min, hcap,
      if_pos (by linarith)]
  · rw [if_neg hi]

theorem spend_tokens_nonneg {b : Bucket} (h : 0 ≤ b.tokens) : 0 ≤ b.spend.tokens := by
  unfold Bucket.spend
  split
  · rename_i h1; exact sub_nonneg.mpr h1
  · exact h

/-- **A limiter whose ttl refills a bucket** is the same keyed service as one that never sweeps. -/
theorem keyed_allow_of_full {rl : RateLimiter} (hc : 0 < rl.capacity)
    (hfull : rl.capacity ≤ rl.ttl * rl.refillRate) (httl : 0 ≤ rl.ttl) :
    Keyed rl.cellUnpruned RateLimiter.allow RateLimiter.found fun rl' t => rl.Like rl' ∧ rl'.Ok t where
  later h htu := ⟨h.1, h.2.mono htu⟩
  keeps k h := ⟨h.1.allow _ k, h.2.allow k⟩
  answer k h := (keyed_allow (not_le.mpr hc)).answer k h.1
  self := by
    rintro rl' t u k ⟨hlike, hok⟩ htu
    have hnonneg : 0 ≤ (rl'.found k t).tokens := (levelAt_bounds hok k).1
    have hrate : 0 ≤ rl.refillRate := by obtain ⟨buckets, rfl⟩ := hlike; exact hok.rate_nonneg
    rw [(keyed_allow (not_le.mpr hc)).self k hlike htu]
    exact revisit_eq_refill hfull hrate httl (spend_tokens_nonneg hnonneg) u
  other h htu hk := (keyed_allow (not_le.mpr hc)).other h.1 htu hk

/-- **Sweeping is unobservable** where ten minutes refill a bucket: every decision is that of the limiter
    that never sweeps. -/
theorem allow_answers_eq_unpruned {cfg : RateLimitConfig} (hb : 0 < cfg.burst)
    (hfast : cfg.burst ≤ 10 * cfg.perMinute) {calls : List (Time × String)}
    (hsorted : (calls.map Prod.fst).Pairwise (· ≤ ·)) :
    answers RateLimiter.allow (newRateLimiter cfg) calls
      = answers RateLimiter.allowUnpruned (newRateLimiter cfg) calls := by
  obtain ⟨t, hle⟩ := exists_start hsorted
  have hfull : (newRateLimiter cfg).capacity
      ≤ (newRateLimiter cfg).ttl * (newRateLimiter cfg).refillRate := by
    show cfg.burst ≤ 10 * 60 * (cfg.perMinute / 60)
    linarith
  have httl : 0 ≤ (newRateLimiter cfg).ttl := by norm_num [newRateLimiter]
  have hok := newRateLimiter_ok hb (by linarith) t
  refine (keyed_allow_of_full hb hfull httl).answers_eq (keyed_allowUnpruned (not_le.mpr hb)) calls
    ⟨⟨∅, rfl⟩, hok⟩ ⟨∅, rfl⟩ ?_ hle hsorted
  intro k u _
  rfl

/-- A client of the hosted default comes back a minute after its bucket was swept. -/
theorem allow_answers_eq_unpruned_sample :
    answers RateLimiter.allow (newRateLimiter defaultRateLimitConfig) [(0, "a"), (660, "b"), (660, "a")]
      = answers RateLimiter.allowUnpruned (newRateLimiter defaultRateLimitConfig)
        [(0, "a"), (660, "b"), (660, "a")] := by
  have hsorted : (([(0, "a"), (660, "b"), (660, "a")] : List (Time × String)).map
      Prod.fst).Pairwise (· ≤ ·) := by decide +kernel
  exact allow_answers_eq_unpruned (by norm_num [defaultRateLimitConfig])
    (by norm_num [defaultRateLimitConfig]) hsorted

end Api
end InfrixPlayground
