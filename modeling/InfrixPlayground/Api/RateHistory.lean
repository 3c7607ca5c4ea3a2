import InfrixPlayground.Api.RateBound
import InfrixPlayground.Api.RateDecisions
import InfrixPlayground.Api.Server

/-!
# `Api.RateHistory` — what the limiter remembers, and what it promises

After any sequence of calls the bucket map holds exactly the clients whose last call is at most a ttl ago, each
bucket dated at that call (`buckets_exact`). A client that was turned away and comes back as late as the
`Retry-After` header told it is admitted: `retryAfter` truncates twice, to nanoseconds and to whole seconds, and
the second it adds makes up for both (`wait_lt_header`, `retry_after_honest`).
-/

namespace InfrixPlayground
namespace Api

open KeyedService

/-! ## The bucket map -/

/-- A limiter as built, after any calls. -/
theorem built_after {cfg : RateLimitConfig} (hb : 0 < cfg.burst) (hr : 0 ≤ cfg.perMinute)
    {calls : List (Time × String)} (hsorted : (calls.map Prod.fst).Pairwise (· ≤ ·)) {t : Time}
    (ht : ∀ d ∈ calls, d.1 ≤ t) :
    Built cfg t (after RateLimiter.allow (newRateLimiter cfg) calls) := by
  obtain ⟨t₀, hle⟩ := exists_start hsorted
  have hstart : Built cfg (min t₀ t) (newRateLimiter cfg) := newRateLimiter_built hb hr _
  exact after_invariant (fun rl u => Built cfg u rl) Built.mono (fun k h => h.allow k) calls hstart
    (fun d hd => (min_le_left ..).trans (hle d hd)) hsorted (min_le_right ..) ht

/-- The keys of the map are those that called within the ttl, and a bucket is dated at its last call. -/
def Remembered (rl : RateLimiter) (calls : List (Time × String)) (t : Time) : Prop :=
  ∀ k, (rl.buckets.lookup k).map Bucket.last = (lastCall k calls).filter fun u => decide (t - u ≤ rl.ttl)

/-- **One call** dates its own bucket and drops those that have been idle for longer than the ttl. -/
theorem Remembered.allow {rl : RateLimiter} {calls : List (Time × String)} {t t' : Time}
    (h : Remembered rl calls t) (hok : rl.Ok t') (httl : 0 ≤ rl.ttl) (htt : t ≤ t') (key : String) :
    Remembered (rl.allow t' key).1 (calls ++ [(t', key)]) t' := by
  intro k
  rw [lookup_allow hok, lastCall_concat, ttl_allow]
  by_cases hk : k = key
  · have hnow : decide (t' - t' ≤ rl.ttl) = true := by simpa using httl
    rw [if_pos hk, if_pos hk.symm, Option.map_some, Option.filter_some, if_pos hnow]
  · rw [if_neg hk, if_neg (Ne.symm hk)]
    -- what the sweep keeps at `t'` it had kept at `t`
    have hkept : (fun u => decide (t - u ≤ rl.ttl) && decide (t' - u ≤ rl.ttl))
        = fun u => decide (t' - u ≤ rl.ttl) := by
      funext u
      by_cases hu : t' - u ≤ rl.ttl
      · have hu₀ : t - u ≤ rl.ttl := by linarith
        simp [hu, hu₀]
      · simp [hu]
    calc ((rl.buckets.lookup k).filter fun b => !decide (t' - b.last > rl.ttl)).map Bucket.last
        = ((rl.buckets.lookup k).map Bucket.last).filter fun u => decide (t' - u ≤ rl.ttl) := by
          rw [Option.filter_map]
          congr 2
          funext b
          exact (decide_not (p := t' - b.last > rl.ttl)).symm.trans (decide_eq_decide.mpr not_lt)
      _ = (lastCall k calls).filter fun u => decide (t' - u ≤ rl.ttl) := by
          rw [h k, Option.filter_filter, hkept]

/-- **After any calls**, the last of them just made. -/
theorem remembered_after {cfg : RateLimitConfig} {c : Time × String} :
    ∀ (calls past : List (Time × String)) {rl : RateLimiter} {t : Time}, Built cfg t rl →
      Remembered rl past t → (∀ d ∈ calls, t ≤ d.1) → ((calls ++ [c]).map Prod.fst).Pairwise (· ≤ ·) →
        t ≤ c.1 → Remembered (after RateLimiter.allow rl (calls ++ [c])) (past ++ (calls ++ [c])) c.1 := by
  intro calls
  induction calls with
  | nil =>
      intro past rl t hbuilt h _ _ htc
      have httl : 0 ≤ rl.ttl := by rw [hbuilt.ttl]; norm_num
      exact h.allow (hbuilt.mono htc).ok httl htc c.2
  | cons d calls ih =>
      intro past rl t hbuilt h hle hsorted _
      obtain ⟨hhead, htail⟩ := List.pairwise_cons.mp hsorted
      have htd := hle d (List.mem_cons_self ..)
      have httl : 0 ≤ rl.ttl := by rw [hbuilt.ttl]; norm_num
      have hlater : ∀ e ∈ calls ++ [c], d.1 ≤ e.1 := fun e he => hhead e.1 (List.mem_map_of_mem he)
      have hrest := ih (past ++ [d]) ((hbuilt.mono htd).allow d.2)
        (h.allow (hbuilt.mono htd).ok httl htd d.2)
        (fun e he => hlater e (List.mem_append_left _ he)) htail
        (hlater c (List.mem_append_right _ (List.mem_singleton_self c)))
      rw [List.append_assoc] at hrest
      exact hrest

/-- **The bucket map is the recently active clients.** After a call at `t` the keys of the map are those whose
    last call, admitted or not, was at most the ttl ago; each bucket is dated at that call and holds between no
    token and a full burst. -/
theorem buckets_exact {cfg : RateLimitConfig} (hb : 0 < cfg.burst) (hr : 0 ≤ cfg.perMinute)
    {calls : List (Time × String)} {t : Time} {key : String}
    (hsorted : ((calls ++ [(t, key)]).map Prod.fst).Pairwise (· ≤ ·)) (k : String) :
    let rl := after RateLimiter.allow (newRateLimiter cfg) (calls ++ [(t, key)])
    (k ∈ rl.buckets ↔ ∃ u, lastCall k (calls ++ [(t, key)]) = some u ∧ t - u ≤ (newRateLimiter cfg).ttl) ∧
      ∀ b, rl.buckets.lookup k = some b → 0 ≤ b.tokens ∧ b.tokens ≤ cfg.burst ∧
        lastCall k (calls ++ [(t, key)]) = some b.last := by
  intro rl
  obtain ⟨t₀, hle⟩ := exists_start hsorted
  have hlast : ∀ d ∈ calls ++ [(t, key)], d.1 ≤ t := by
    intro d hd
    rcases List.mem_append.mp hd with hd | hd
    · rw [List.map_append, List.pairwise_append] at hsorted
      exact hsorted.2.2 d.1 (List.mem_map_of_mem hd) t (List.mem_singleton_self t)
    · rw [List.mem_singleton.mp hd]
  have hbuilt : Built cfg t rl := built_after hb hr hsorted hlast
  have hmem : (t, key) ∈ calls ++ [(t, key)] := List.mem_append_right _ (List.mem_singleton_self _)
  have hremembered : Remembered rl (calls ++ [(t, key)]) t :=
    remembered_after calls [] (newRateLimiter_built hb hr t₀) (fun _ => rfl)
      (fun d hd => hle d (List.mem_append_left _ hd)) hsorted (hle _ hmem)
  have hk := hremembered k
  have httl : rl.ttl = (newRateLimiter cfg).ttl := hbuilt.ttl.trans (newRateLimiter_built hb hr t).ttl.symm
  rw [httl] at hk
  constructor
  · rw [AList.mem_iff_lookup]
    constructor
    · rintro ⟨b, hlk⟩
      rw [hlk, Option.map_some, eq_comm, Option.filter_eq_some_iff] at hk
      exact ⟨b.last, hk.1, of_decide_eq_true hk.2⟩
    · rintro ⟨u, hu, hrecent⟩
      rw [hu, Option.filter_some, if_pos (decide_eq_true hrecent), Option.map_eq_some_iff] at hk
      exact hk.imp fun _ h => h.1
  · intro b hlk
    rw [hlk, Option.map_some, eq_comm, Option.filter_eq_some_iff] at hk
    have hcap := hbuilt.ok.le_cap k b hlk
    rw [hbuilt.capacity] at hcap
    exact ⟨hbuilt.ok.nonneg k b hlk, hcap, hk.1⟩

/-- One client stays away for a ttl and a second client calls. -/
theorem buckets_exact_sample :
    let rl := after RateLimiter.allow (newRateLimiter defaultRateLimitConfig) [(0, "a"), (600, "b"), (601, "b")]
    ("a" ∈ rl.buckets ↔ ∃ u, lastCall "a" [(0, "a"), (600, "b"), (601, "b")] = some u ∧
        601 - u ≤ (newRateLimiter defaultRateLimitConfig).ttl) ∧
      ∀ b, rl.buckets.lookup "a" = some b → 0 ≤ b.tokens ∧ b.tokens ≤ defaultRateLimitConfig.burst ∧
        lastCall "a" [(0, "a"), (600, "b"), (601, "b")] = some b.last := by
  have hsorted : (([(0, "a"), (600, "b")] ++ [(601, "b")] : List (Time × String)).map
      Prod.fst).Pairwise (· ≤ ·) := by decide +kernel
  exact buckets_exact (by norm_num [defaultRateLimitConfig]) (by norm_num [defaultRateLimitConfig]) hsorted "a"

/-! ## The `Retry-After` header -/

/-- **Two truncations and a second.** Where the wait is not negative the header is set, and it says more
    seconds than the wait is long. -/
theorem wait_lt_header {wait : ℚ} (h : 0 ≤ wait) :
    ∃ n, retryAfterHeader { allowed := false, retryAfter := ⌊wait * second⌋ + second } = some n ∧ wait < n := by
  have hsecond : (second : ℚ) = 1000000000 := by norm_num [second]
  have hnanos : 0 ≤ ⌊wait * second⌋ := Int.floor_nonneg.mpr (mul_nonneg h (by rw [hsecond]; norm_num))
  refine ⟨(⌊wait * second⌋ + second) / second, if_pos ?_, ?_⟩
  · show ⌊wait * second⌋ + second > 0
    have : (0 : ℤ) < second := by decide
    omega
  · -- rounding down to seconds loses less than the second that was added
    have hround : ⌊wait * second⌋ + 1 ≤ (⌊wait * second⌋ + second) / second * second := by
      unfold second
      omega
    have hnano : wait * second < ⌊wait * second⌋ + 1 := Int.lt_floor_add_one _
    have hlt : wait * second < ((⌊wait * second⌋ + second) / second : ℤ) * second := by
      refine hnano.trans_le ?_
      exact_mod_cast hround
    exact lt_of_mul_lt_mul_right hlt (by rw [hsecond]; norm_num)

/-- A bucket that has had the time it takes to refill one token is found with a token in it, whether it is
    refilled or was swept. -/
theorem one_le_revisit {rl : RateLimiter} (hcap : 1 ≤ rl.capacity) (hrate : 0 < rl.refillRate) {b : Bucket}
    {u : Time} (hlater : b.last < u) (hwait : (1 - b.tokens) / rl.refillRate ≤ u - b.last) :
    1 ≤ (rl.revisit b u).tokens := by
  unfold RateLimiter.revisit
  split
  · rw [RateLimiter.refill, if_neg (by simp)]
    exact hcap
  · have hgain : 1 - b.tokens ≤ (u - b.last) * rl.refillRate := (div_le_iff₀ hrate).mp hwait
    rw [RateLimiter.refill, if_pos (sub_pos.mpr hlater), minF_eq_min]
    exact le_min hcap (by linarith)

/-- What a rejected call found, and left as it was, and what it was told. -/
theorem rejected_spec {cfg : RateLimitConfig} {rl : RateLimiter} {t : Time} {key : String}
    (hbuilt : Built cfg t rl) (hrate : 0 < rl.refillRate) (hrejected : (rl.allow t key).2.allowed = false) :
    (rl.found key t).last = t ∧ (rl.found key t).tokens < 1 ∧ (rl.found key t).spend = rl.found key t ∧
      (rl.allow t key).2 = { allowed := false, retryAfter :=
        ⌊(1 - (rl.found key t).tokens) / rl.refillRate * second⌋ + second } := by
  have hempty : (rl.found key t).tokens < 1 := by
    rw [allow_allowed hbuilt.ok.cap_pos] at hrejected
    exact not_le.mp (of_decide_eq_false hrejected)
  refine ⟨last_refill hbuilt.ok key, hempty, if_neg (not_le.mpr hempty), ?_⟩
  have hkeyed : Keyed rl.cell RateLimiter.allow RateLimiter.found fun rl' _ => rl.Like rl' :=
    keyed_allow (not_le.mpr hbuilt.ok.cap_pos)
  have hlike : rl.Like rl := ⟨rl.buckets, rfl⟩
  rw [hkeyed.answer key hlike]
  show rl.decision (rl.found key t) = _
  rw [RateLimiter.decision, if_neg (not_le.mpr hempty), RateLimiter.retryAfter, if_pos hrate]

/-- **`Retry-After` is honest.** A client that was turned away is given a number of seconds, and if it calls
    again no earlier than that, having made no other call, it is admitted, whoever else calls in between. (The
    wait is taken to fit into a `Duration`, which has no upper end here.) -/
theorem retry_after_honest {cfg : RateLimitConfig} (hr : 0 < cfg.perMinute) (hb : 1 ≤ cfg.burst)
    {earlier : List (Time × String)} {t : Time} {key : String}
    (hsorted : ((earlier ++ [(t, key)]).map Prod.fst).Pairwise (· ≤ ·))
    (hrejected : ((after RateLimiter.allow (newRateLimiter cfg) earlier).allow t key).2.allowed = false) :
    ∃ n, retryAfterHeader ((after RateLimiter.allow (newRateLimiter cfg) earlier).allow t key).2 = some n ∧
      ∀ (between : List (Time × String)) (t' : Time), (∀ d ∈ between, d.2 ≠ key) →
        (((t, key) :: (between ++ [(t', key)])).map Prod.fst).Pairwise (· ≤ ·) → t + n ≤ t' →
          ((after RateLimiter.allow (newRateLimiter cfg) (earlier ++ (t, key) :: between)).allow
            t' key).2.allowed = true := by
  have hbuilt : Built cfg t (after RateLimiter.allow (newRateLimiter cfg) earlier) := by
    rw [List.map_append, List.pairwise_append] at hsorted
    exact built_after (by linarith) hr.le hsorted.1 fun d hd =>
      hsorted.2.2 d.1 (List.mem_map_of_mem hd) t (List.mem_singleton_self t)
  generalize hrl : after RateLimiter.allow (newRateLimiter cfg) earlier = rl at hrejected hbuilt
  have hcap : 1 ≤ rl.capacity := by rw [hbuilt.capacity]; exact hb
  have hrate : 0 < rl.refillRate := by rw [hbuilt.rate]; exact div_pos hr (by norm_num)
  have hkeyed : Keyed rl.cell RateLimiter.allow RateLimiter.found fun rl' _ => rl.Like rl' :=
    keyed_allow (not_le.mpr hbuilt.ok.cap_pos)
  have hlike : rl.Like rl := ⟨rl.buckets, rfl⟩
  obtain ⟨hlast, hempty, hspend, hdecision⟩ := rejected_spec hbuilt hrate hrejected
  have hwait : 0 ≤ (1 - (rl.found key t).tokens) / rl.refillRate := div_nonneg (by linarith) hrate.le
  obtain ⟨n, hheader, hn⟩ := wait_lt_header hwait
  refine ⟨n, by rw [hdecision]; exact hheader, fun between t' hothers hbetween hlate => ?_⟩
  obtain ⟨hhead, htail⟩ := List.pairwise_cons.mp hbetween
  rw [List.map_append, List.pairwise_append] at htail
  have hle : ∀ d ∈ between, t ≤ d.1 := fun d hd =>
    hhead d.1 (List.mem_map_of_mem (List.mem_append_left _ hd))
  have hend : ∀ d ∈ between, d.1 ≤ t' := fun d hd =>
    htail.2.2 d.1 (List.mem_map_of_mem hd) t' (List.mem_singleton_self t')
  have htt : t ≤ t' := hhead t' (List.mem_map_of_mem (List.mem_append_right _ (List.mem_singleton_self _)))
  have hstate : after RateLimiter.allow (newRateLimiter cfg) (earlier ++ (t, key) :: between)
      = after RateLimiter.allow (rl.allow t key).1 between := by
    rw [← hrl, after, List.foldl_append]
    rfl
  have hfound : (after RateLimiter.allow (rl.allow t key).1 between).found key t'
      = rl.revisit (rl.found key t) t' := by
    rw [hkeyed.view_after between (hkeyed.keeps key hlike) hle htail.1 hend hothers,
      hkeyed.self key hlike htt]
    show rl.revisit (rl.found key t).spend t' = _
    rw [hspend]
  have hlater : Built cfg t' (after RateLimiter.allow (rl.allow t key).1 between) :=
    after_invariant (fun rl u => Built cfg u rl) Built.mono (fun k h => h.allow k) between
      (hbuilt.allow key) hle htail.1 htt hend
  rw [hstate, allow_allowed hlater.ok.cap_pos]
  refine decide_eq_true ?_
  show 1 ≤ ((after RateLimiter.allow (rl.allow t key).1 between).found key t').tokens
  rw [hfound]
  exact one_le_revisit hcap hrate (by rw [hlast]; linarith) (by rw [hlast]; linarith)

/-- A bucket of one token, asked twice within half a second. -/
theorem retry_after_honest_sample :
    ∃ n, retryAfterHeader ((after RateLimiter.allow (newRateLimiter { burst := 1, perMinute := 60 })
        [(0, "a")]).allow (1 / 2) "a").2 = some n ∧
      ∀ (between : List (Time × String)) (t' : Time), (∀ d ∈ between, d.2 ≠ "a") →
        (((1 / 2, "a") :: (between ++ [(t', "a")])).map Prod.fst).Pairwise (· ≤ ·) → 1 / 2 + n ≤ t' →
          ((after RateLimiter.allow (newRateLimiter { burst := 1, perMinute := 60 })
            ([(0, "a")] ++ (1 / 2, "a") :: between)).allow t' "a").2.allowed = true := by
  have hsorted : (([(0, "a")] ++ [(1 / 2, "a")] : List (Time × String)).map Prod.fst).Pairwise (· ≤ ·) := by
    decide +kernel
  have hrejected : ((after RateLimiter.allow (newRateLimiter { burst := 1, perMinute := 60 })
      [(0, "a")]).allow (1 / 2) "a").2.allowed = false := by decide +kernel
  exact retry_after_honest (by norm_num) (by norm_num) hsorted hrejected

end Api
end InfrixPlayground
