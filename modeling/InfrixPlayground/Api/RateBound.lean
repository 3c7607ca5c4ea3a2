import Mathlib.Tactic.NormNum
import InfrixPlayground.Lib.TokenBucket
import InfrixPlayground.Api.RateLimit

/-!
# `Api.RateBound` — how many calls a window can admit

A limiter whose sweep only ever drops full buckets is, for one key, the ideal bucket of
`Lib.TokenBucket`: `Sees` is the simulation, and the window bound comes with it. The sweep drops a
bucket after ten idle minutes whatever it holds, so the limiter is that bucket exactly when ten minutes
refill it (`windowBound_iff`); otherwise a client that waits is given tokens it was never owed.
-/

namespace InfrixPlayground
namespace Api

/-- How many of `key`'s calls in the window `[t₀, t₁]` are admitted. -/
def admitted (key : String) (t₀ t₁ : Time) : RateLimiter → List (Time × String) → ℕ
  | _, [] => 0
  | rl, (t, k) :: calls =>
    let r := rl.allow t k
    (if k = key ∧ r.2.allowed = true ∧ t₀ ≤ t ∧ t ≤ t₁ then 1 else 0) + admitted key t₀ t₁ r.1 calls

/-- The times of `key`'s calls. -/
def callTimes (key : String) (calls : List (Time × String)) : List Time :=
  (calls.filter fun c => c.2 = key).map Prod.fst

/-- The bucket the limiter's configuration stands for. -/
def RateLimiter.ideal (rl : RateLimiter) : TokenBucket ℚ := { cap := rl.capacity, rate := rl.refillRate }

@[simp] theorem ideal_allow (rl : RateLimiter) (t : Time) (k : String) :
    (rl.allow t k).1.ideal = rl.ideal := by
  simp [RateLimiter.ideal]

/-! ## The limiter as an ideal bucket -/

/-- From `t` on, what `key` finds in the limiter is what the ideal bucket `s` would hold. -/
def Sees (rl : RateLimiter) (key : String) (t : Time) (s : TokenBucket.State ℚ) : Prop :=
  ∀ u, t ≤ u → rl.levelAt key u = rl.ideal.avail s u

theorem Sees.mono {rl : RateLimiter} {key : String} {t t' : Time} {s : TokenBucket.State ℚ}
    (h : Sees rl key t s) (htt : t ≤ t') : Sees rl key t' s :=
  fun u hu => h u (htt.trans hu)

/-- A key without a bucket sees a full one. -/
theorem sees_of_none {rl : RateLimiter} (key : String) (hr : 0 ≤ rl.refillRate)
    (h : rl.buckets.lookup key = none) (t : Time) : Sees rl key t ⟨rl.capacity, t⟩ := by
  intro u hu
  have hgain : 0 ≤ rl.refillRate * (u - t) := mul_nonneg hr (sub_nonneg.mpr hu)
  rw [levelAt_of_none h]
  refine (min_eq_left ?_).symm
  show rl.capacity ≤ rl.capacity + rl.refillRate * (u - t)
  linarith

/-- The ideal bucket serves a call exactly when the limiter admits it. -/
theorem Sees.decision {rl : RateLimiter} {key : String} {t : Time} {s : TokenBucket.State ℚ}
    (h : Sees rl key t s) (hok : rl.Ok t) :
    (rl.ideal.serve s t).2 = (rl.allow t key).2.allowed := by
  rw [allow_allowed hok.cap_pos, h t le_rfl, TokenBucket.serve]
  split
  · rename_i hge; exact (decide_eq_true hge).symm
  · rename_i hge; exact (decide_eq_false hge).symm

/-- **One call of the key itself.** Where ten minutes refill a bucket, a bucket that was swept would have
    been full anyhow, so the limiter goes on looking like the ideal bucket after the call. -/
theorem Sees.allow_self {rl : RateLimiter} {key : String} {t : Time} {s : TokenBucket.State ℚ}
    (hfull : rl.capacity ≤ rl.ttl * rl.refillRate) (hok : rl.Ok t) (h : Sees rl key t s) :
    Sees (rl.allow t key).1 key t (rl.ideal.serve s t).1 := by
  intro u hu
  have hlevel : (rl.ideal.serve s t).1.level
      = rl.levelAt key t - (if (rl.allow t key).2.allowed = true then 1 else 0) := by
    rw [TokenBucket.serve_level, h.decision hok, h t le_rfl]
  have hlk := lookup_allow hok key key
  rw [if_pos rfl, ← hlevel] at hlk
  have hnonneg : 0 ≤ (rl.ideal.serve s t).1.level := hlevel ▸ level_after_nonneg hok key
  have hcap : (rl.ideal.serve s t).1.level ≤ rl.capacity := hlevel ▸ level_after_le hok key
  rw [ideal_allow, TokenBucket.avail, TokenBucket.serve_last]
  -- the sweep looks at the bucket again after `u - t`: dropped for idling, or still there
  by_cases hi : rl.ttl < u - t
  · have hgain : rl.ttl * rl.refillRate ≤ (u - t) * rl.refillRate :=
      mul_le_mul_of_nonneg_right hi.le hok.rate_nonneg
    rw [levelAt_of_idle hlk (by simpa using hi), capacity_allow]
    refine (min_eq_left ?_).symm
    show rl.capacity ≤ _ + rl.refillRate * (u - t)
    linarith
  · rw [levelAt_of_live hlk (by simpa using hcap) hu (by simpa using hi), capacity_allow,
      refillRate_allow, mul_comm]
    rfl

/-- **Simulation.** Where ten minutes refill a bucket, the limiter admits exactly the calls of a key that
    the ideal bucket serves, whatever other keys call in between. -/
theorem admitted_eq_served {key : String} {t₀ t₁ : Time} :
    ∀ (calls : List (Time × String)) {rl : RateLimiter} {t : Time} {s : TokenBucket.State ℚ},
      rl.capacity ≤ rl.ttl * rl.refillRate → rl.Ok t → Sees rl key t s →
      (∀ c ∈ calls, t ≤ c.1) → (calls.map Prod.fst).Pairwise (· ≤ ·) →
        admitted key t₀ t₁ rl calls = rl.ideal.served t₀ t₁ s (callTimes key calls) := by
  intro calls
  induction calls with
  | nil => intros; rfl
  | cons c calls ih =>
      intro rl t s hfull hok hsees hle hsorted
      obtain ⟨u, k⟩ := c
      have htu : t ≤ u := hle (u, k) (by simp)
      obtain ⟨hhead, htail⟩ := List.pairwise_cons.mp hsorted
      have hle' : ∀ c ∈ calls, u ≤ c.1 := fun c hc => hhead c.1 (List.mem_map_of_mem hc)
      have hok' := hok.mono htu
      have hsees' := hsees.mono htu
      have hfull' : (rl.allow u k).1.capacity
          ≤ (rl.allow u k).1.ttl * (rl.allow u k).1.refillRate := by simpa using hfull
      by_cases hk : k = key
      · -- a call of the key itself: both sides decide it, and decide alike
        subst hk
        have hct : callTimes k ((u, k) :: calls) = u :: callTimes k calls := by simp [callTimes]
        rw [hct, admitted, TokenBucket.served,
          ih hfull' (hok'.allow k) (hsees'.allow_self hfull hok') hle' htail, ideal_allow,
          hsees'.decision hok']
        simp
      · -- another key's call sweeps the map, and the ideal bucket never hears of it
        have hct : callTimes key ((u, k) :: calls) = callTimes key calls := by simp [callTimes, hk]
        have hother : Sees (rl.allow u k).1 key u s := fun v hv => by
          rw [levelAt_allow_ne hok' hv (Ne.symm hk), ideal_allow]; exact hsees' v hv
        rw [hct, admitted, ih hfull' (hok'.allow k) hother hle' htail, ideal_allow,
          if_neg (fun h => hk h.1), Nat.zero_add]

/-- A bucket smaller than one token admits nothing. -/
theorem admitted_eq_zero {key : String} {t₀ t₁ : Time} :
    ∀ (calls : List (Time × String)) {rl : RateLimiter} {t : Time}, rl.capacity < 1 → rl.Ok t →
      (∀ c ∈ calls, t ≤ c.1) → (calls.map Prod.fst).Pairwise (· ≤ ·) →
        admitted key t₀ t₁ rl calls = 0 := by
  intro calls
  induction calls with
  | nil => intros; rfl
  | cons c calls ih =>
      intro rl t hcap hok hle hsorted
      obtain ⟨u, k⟩ := c
      obtain ⟨hhead, htail⟩ := List.pairwise_cons.mp hsorted
      have hok' := hok.mono (hle (u, k) (by simp))
      have hrefused : ¬ (rl.allow u k).2.allowed = true := by
        rw [allow_allowed hok'.cap_pos, decide_eq_true_eq, not_le]
        exact (levelAt_bounds hok' k).2.trans_lt hcap
      rw [admitted, ih (by simpa using hcap) (hok'.allow k)
        (fun c hc => hhead c.1 (List.mem_map_of_mem hc)) htail, if_neg (fun h => hrefused h.2.1)]

/-- The bound a window is promised. -/
def WindowBound (cfg : RateLimitConfig) (key : String) (calls : List (Time × String))
    (t₀ t₁ : Time) : Prop :=
  (admitted key t₀ t₁ (newRateLimiter cfg) calls : ℚ) ≤ cfg.burst + cfg.perMinute * (t₁ - t₀) / 60

/-- What the promise amounts to where no call is admitted. -/
theorem windowBound_of_zero {cfg : RateLimitConfig} (hb : 0 < cfg.burst) (hr : 0 ≤ cfg.perMinute)
    {key : String} {calls : List (Time × String)} {t₀ t₁ : Time} (hw : t₀ ≤ t₁)
    (h : admitted key t₀ t₁ (newRateLimiter cfg) calls = 0) : WindowBound cfg key calls t₀ t₁ := by
  have : 0 ≤ cfg.perMinute * (t₁ - t₀) / 60 :=
    div_nonneg (mul_nonneg hr (sub_nonneg.mpr hw)) (by norm_num)
  rw [WindowBound, h, Nat.cast_zero]
  linarith

/-- **The bound holds where the sweep is harmless**: a bucket that never admits, or one that ten minutes
    refill. -/
theorem windowBound_of {cfg : RateLimitConfig} (hb : 0 < cfg.burst) (hr : 0 ≤ cfg.perMinute)
    (h : cfg.burst < 1 ∨ cfg.burst ≤ 10 * cfg.perMinute) {key : String}
    {calls : List (Time × String)} (hsorted : (calls.map Prod.fst).Pairwise (· ≤ ·)) {t₀ t₁ : Time}
    (hw : t₀ ≤ t₁) : WindowBound cfg key calls t₀ t₁ := by
  cases calls with
  | nil => exact windowBound_of_zero hb hr hw rfl
  | cons c calls =>
      have hle : ∀ d ∈ c :: calls, c.1 ≤ d.1 := by
        intro d hd
        rcases List.mem_cons.mp hd with rfl | hd
        · exact le_rfl
        · exact (List.pairwise_cons.mp hsorted).1 d.1 (List.mem_map_of_mem hd)
      have hok := newRateLimiter_ok hb hr c.1
      rcases h with hsmall | hfast
      · exact windowBound_of_zero hb hr hw (admitted_eq_zero _ hsmall hok hle hsorted)
      · have hfull : (newRateLimiter cfg).capacity
            ≤ (newRateLimiter cfg).ttl * (newRateLimiter cfg).refillRate := by
          show cfg.burst ≤ 10 * 60 * (cfg.perMinute / 60)
          linarith
        have hsees := sees_of_none key hok.rate_nonneg rfl c.1
        have hbound := (newRateLimiter cfg).ideal.served_le hok.rate_nonneg hok.cap_pos.le hw
          (callTimes key (c :: calls)) ⟨cfg.burst, c.1⟩
          (hsorted.sublist (List.filter_sublist.map _)) ?_ hb.le
        · rw [WindowBound, admitted_eq_served _ hfull hok hsees hle hsorted]
          refine hbound.trans (le_of_eq ?_)
          show cfg.burst + cfg.perMinute / 60 * (t₁ - t₀) = _
          ring
        · intro u hu
          obtain ⟨d, hd, rfl⟩ := List.mem_map.mp hu
          exact hle d (List.mem_of_mem_filter hd)

/-! ## The client that waits

Against a bucket that ten minutes do not refill: drain it, wait until it has just been swept, and drain
the full one that replaces it. Where the fractions of a token left over matter, one more call is
squeezed out of each bucket before it is left alone. -/

/-- A limiter built from `cfg`, at clock reading `t`. -/
structure Built (cfg : RateLimitConfig) (t : Time) (rl : RateLimiter) : Prop where
  ok : rl.Ok t
  capacity : rl.capacity = cfg.burst
  rate : rl.refillRate = cfg.perMinute / 60
  ttl : rl.ttl = 600

theorem newRateLimiter_built {cfg : RateLimitConfig} (hb : 0 < cfg.burst) (hr : 0 ≤ cfg.perMinute)
    (t : Time) : Built cfg t (newRateLimiter cfg) where
  ok := newRateLimiter_ok hb hr t
  capacity := rfl
  rate := rfl
  ttl := by show (10 * 60 : ℚ) = 600; norm_num

theorem Built.mono {cfg : RateLimitConfig} {t u : Time} {rl : RateLimiter} (h : Built cfg t rl)
    (htu : t ≤ u) : Built cfg u rl :=
  { h with ok := h.ok.mono htu }

theorem Built.allow {cfg : RateLimitConfig} {t : Time} {rl : RateLimiter} (h : Built cfg t rl)
    (k : String) : Built cfg t (rl.allow t k).1 where
  ok := h.ok.allow k
  capacity := by rw [capacity_allow, h.capacity]
  rate := by rw [refillRate_allow, h.rate]
  ttl := by rw [ttl_allow, h.ttl]

/-- After more than ten idle minutes a full bucket is found. -/
theorem Built.levelAt_idle {cfg : RateLimitConfig} {t u : Time} {rl : RateLimiter} {key : String}
    {lev : ℚ} (h : Built cfg t rl) (hlk : rl.buckets.lookup key = some ⟨lev, t⟩) (hu : 600 < u - t) :
    rl.levelAt key u = cfg.burst := by
  rw [levelAt_of_idle hlk (by rw [h.ttl]; exact hu), h.capacity]

/-- Until then the bucket itself, refilled. -/
theorem Built.levelAt_live {cfg : RateLimitConfig} {t u : Time} {rl : RateLimiter} {key : String}
    {lev : ℚ} (h : Built cfg t rl) (hlk : rl.buckets.lookup key = some ⟨lev, t⟩) (htu : t ≤ u)
    (hu : u - t ≤ 600) :
    rl.levelAt key u = min cfg.burst (lev + (u - t) * (cfg.perMinute / 60)) := by
  rw [levelAt_of_live hlk (h.ok.le_cap key _ hlk) htu (by rw [h.ttl]; exact hu), h.capacity, h.rate]

/-- An admitted call takes one token out of what the next call at the same instant finds. -/
theorem Built.levelAt_allow_self {cfg : RateLimitConfig} {t : Time} {rl : RateLimiter} {key : String}
    (h : Built cfg t rl) (hyes : (rl.allow t key).2.allowed = true) :
    (rl.allow t key).1.levelAt key t = rl.levelAt key t - 1 := by
  have hlk : (rl.allow t key).1.buckets.lookup key = some ⟨rl.levelAt key t - 1, t⟩ := by
    rw [lookup_allow h.ok, if_pos rfl, if_pos hyes]
  have hcap := (levelAt_bounds h.ok key).2
  rw [(h.allow key).levelAt_live hlk le_rfl (by norm_num), sub_self, zero_mul, add_zero]
  exact min_eq_right (by rw [← h.capacity]; linarith)

/-- **A burst.** `n + 1` calls at one instant that find `n + 1` tokens are all admitted. -/
theorem admitted_burst {cfg : RateLimitConfig} (key : String) {t t₀ t₁ : Time} (ht0 : t₀ ≤ t)
    (ht1 : t ≤ t₁) : ∀ (n : ℕ) {rl : RateLimiter}, Built cfg t rl → (n + 1 : ℚ) ≤ rl.levelAt key t →
      ∃ rl', Built cfg t rl' ∧ rl'.buckets.lookup key = some ⟨rl.levelAt key t - (n + 1), t⟩ ∧
        ∀ rest, admitted key t₀ t₁ rl (List.replicate (n + 1) (t, key) ++ rest)
          = n + 1 + admitted key t₀ t₁ rl' rest := by
  intro n
  induction n with
  | zero =>
      intro rl hrl hlev
      have hyes : (rl.allow t key).2.allowed = true := by
        rw [allow_allowed hrl.ok.cap_pos]; exact decide_eq_true (by simpa using hlev)
      refine ⟨(rl.allow t key).1, hrl.allow key, ?_, fun rest => ?_⟩
      · rw [lookup_allow hrl.ok, if_pos rfl, if_pos hyes]; norm_num
      · show admitted key t₀ t₁ rl ((t, key) :: rest) = _
        rw [admitted, if_pos ⟨rfl, hyes, ht0, ht1⟩]
  | succ n ih =>
      intro rl hrl hlev
      have h0 : (0 : ℚ) ≤ n := Nat.cast_nonneg n
      rw [Nat.cast_succ] at hlev
      have hyes : (rl.allow t key).2.allowed = true := by
        rw [allow_allowed hrl.ok.cap_pos]; exact decide_eq_true (by linarith)
      -- the bucket this call leaves, found again by the next one at the same instant
      have hnext := hrl.levelAt_allow_self hyes
      obtain ⟨rl', hbuilt, hlook, hrest⟩ := ih (hrl.allow key) (by rw [hnext]; linarith)
      refine ⟨rl', hbuilt, ?_, fun rest => ?_⟩
      · rw [hlook, hnext, Nat.cast_succ]; congr 2; ring
      · rw [List.replicate_succ, List.cons_append, admitted, hrest, if_pos ⟨rfl, hyes, ht0, ht1⟩]
        omega

/-- Bursts in the order of their times make a sorted call sequence. -/
theorem sorted_burst {t : Time} {key : String} {n : ℕ} {rest : List (Time × String)}
    (hle : ∀ c ∈ rest, t ≤ c.1) (hrest : (rest.map Prod.fst).Pairwise (· ≤ ·)) :
    ((List.replicate n (t, key) ++ rest).map Prod.fst).Pairwise (· ≤ ·) := by
  rw [List.map_append, List.map_replicate]
  refine List.pairwise_append.mpr ⟨List.pairwise_replicate.mpr (Or.inr le_rfl), hrest, ?_⟩
  intro u hu v hv
  obtain ⟨c, hc, rfl⟩ := List.mem_map.mp hv
  rw [List.eq_of_mem_replicate hu]
  exact hle c hc

/-- A delay so short that what it refills does not matter. -/
theorem exists_short_delay {r gap : ℚ} (hr : 0 ≤ r) (hg : 0 < gap) : ∃ ε, 0 < ε ∧ r * ε < gap := by
  refine ⟨gap / (r + 1), div_pos hg (by linarith), ?_⟩
  rw [← mul_div_assoc, div_lt_iff₀ (by linarith), mul_comm]
  nlinarith

/-- **Overrun by whole tokens.** Two drained buckets, when what the wait refills is worth less than the
    second one. -/
theorem exists_overrun_of_drain {cfg : RateLimitConfig} (hb : 0 < cfg.burst) (hr : 0 ≤ cfg.perMinute)
    (key : String) {n : ℕ} (hn : (n + 1 : ℚ) ≤ cfg.burst)
    (hslow : 10 * cfg.perMinute < 2 * (n + 1) - cfg.burst) :
    ∃ calls t₁, (0 : Time) ≤ t₁ ∧ (calls.map Prod.fst).Pairwise (· ≤ ·) ∧
      ¬ WindowBound cfg key calls 0 t₁ := by
  obtain ⟨ε, hε, hgap⟩ := exists_short_delay (div_nonneg hr (by norm_num : (0 : ℚ) ≤ 60))
    (sub_pos.mpr hslow)
  have hu : (0 : Time) ≤ 600 + ε := by linarith
  have hfresh := newRateLimiter_built hb hr 0
  have hlev : (newRateLimiter cfg).levelAt key 0 = cfg.burst := levelAt_of_none rfl 0
  obtain ⟨rl₁, hrl₁, hlk₁, hcount₁⟩ :=
    admitted_burst key le_rfl hu n hfresh (by rw [hlev]; exact hn)
  -- just past ten idle minutes the sweep has dropped the drained bucket, and a full one replaces it
  have hlev₁ : rl₁.levelAt key (600 + ε) = cfg.burst := hrl₁.levelAt_idle hlk₁ (by linarith)
  obtain ⟨rl₂, -, -, hcount₂⟩ :=
    admitted_burst key hu le_rfl n (hrl₁.mono hu) (by rw [hlev₁]; exact hn)
  refine ⟨List.replicate (n + 1) (0, key) ++ (List.replicate (n + 1) (600 + ε, key) ++ []), 600 + ε,
    hu, ?_, ?_⟩
  · refine sorted_burst (fun c hc => ?_) (sorted_burst (by simp) (by simp))
    rw [List.append_nil] at hc
    rw [List.eq_of_mem_replicate hc]; exact hu
  · rw [WindowBound, hcount₁, hcount₂, admitted, not_le]
    push_cast
    linarith

/-- What one full bucket yields to a client that first drains it and then waits for the one token its
    leftover fraction still lacks. -/
theorem admitted_drain {cfg : RateLimitConfig} (key : String) {t d : Time} (t₀ t₁ : Time) {n : ℕ}
    (hn : (n + 1 : ℚ) ≤ cfg.burst) (hd : d * (cfg.perMinute / 60) = n + 2 - cfg.burst)
    (hd0 : 0 ≤ d) (hd1 : d ≤ 600) (ht0 : t₀ ≤ t) (ht1 : t + d ≤ t₁) {rl : RateLimiter}
    (hrl : Built cfg t rl) (hlev : rl.levelAt key t = cfg.burst) :
    ∃ rl', Built cfg (t + d) rl' ∧ rl'.buckets.lookup key = some ⟨0, t + d⟩ ∧
      ∀ rest, admitted key t₀ t₁ rl
          (List.replicate (n + 1) (t, key) ++ (List.replicate 1 (t + d, key) ++ rest))
        = n + 2 + admitted key t₀ t₁ rl' rest := by
  have h0 : (0 : ℚ) ≤ n := Nat.cast_nonneg n
  have htd : t ≤ t + d := by linarith
  obtain ⟨rl₁, hrl₁, hlk₁, hcount₁⟩ :=
    admitted_burst key ht0 (htd.trans ht1) n hrl (by rw [hlev]; exact hn)
  have hlev₁ : rl₁.levelAt key (t + d) = 1 := by
    rw [hrl₁.levelAt_live hlk₁ htd (by linarith), add_sub_cancel_left, hd, hlev]
    rw [min_eq_right (by linarith)]
    ring
  obtain ⟨rl₂, hrl₂, hlk₂, hcount₂⟩ :=
    admitted_burst key (ht0.trans htd) ht1 0 (hrl₁.mono htd) (by rw [hlev₁]; norm_num)
  refine ⟨rl₂, hrl₂, ?_, fun rest => ?_⟩
  · rw [hlk₂, hlev₁]; norm_num
  · rw [hcount₁, hcount₂]; omega

/-- **Overrun by a fraction.** Where the wait refills more than that, each bucket is squeezed for its last
    token first. -/
theorem exists_overrun_of_squeeze {cfg : RateLimitConfig} (hb : 0 < cfg.burst) (key : String) {n : ℕ}
    (hn : (n + 1 : ℚ) ≤ cfg.burst) (hn2 : cfg.burst < n + 2)
    (hfast : 2 * (n + 1) - cfg.burst ≤ 10 * cfg.perMinute) (hslow : 10 * cfg.perMinute < cfg.burst) :
    ∃ calls t₁, (0 : Time) ≤ t₁ ∧ (calls.map Prod.fst).Pairwise (· ≤ ·) ∧
      ¬ WindowBound cfg key calls 0 t₁ := by
  have h0 : (0 : ℚ) ≤ n := Nat.cast_nonneg n
  have hr : 0 < cfg.perMinute := by linarith
  have hr' : 0 < cfg.perMinute / 60 := div_pos hr (by norm_num)
  obtain ⟨ε, hε, hgap⟩ := exists_short_delay hr'.le (sub_pos.mpr hslow)
  -- the time the leftover fraction of a token takes to become one
  obtain ⟨d, hd⟩ : ∃ d, d * (cfg.perMinute / 60) = n + 2 - cfg.burst :=
    ⟨(n + 2 - cfg.burst) / (cfg.perMinute / 60), div_mul_cancel₀ _ hr'.ne'⟩
  have hd0 : 0 ≤ d := by
    by_contra hneg
    have := mul_neg_of_neg_of_pos (not_le.mp hneg) hr'
    linarith
  have hd1 : d ≤ 600 := by
    refine le_of_mul_le_mul_right ?_ hr'
    rw [hd]; linarith
  have hwait : d ≤ d + 600 + ε := by linarith
  have hend : d + 600 + ε ≤ d + 600 + ε + d := by linarith
  have hfresh := newRateLimiter_built hb hr.le 0
  have hlev : (newRateLimiter cfg).levelAt key 0 = cfg.burst := levelAt_of_none rfl 0
  obtain ⟨rl₁, hrl₁, hlk₁, hcount₁⟩ := admitted_drain key 0 (d + 600 + ε + d) hn hd hd0 hd1 le_rfl
    (by linarith) hfresh hlev
  rw [zero_add] at hrl₁ hlk₁
  have hlev₁ : rl₁.levelAt key (d + 600 + ε) = cfg.burst := hrl₁.levelAt_idle hlk₁ (by linarith)
  obtain ⟨rl₂, -, -, hcount₂⟩ := admitted_drain key 0 (d + 600 + ε + d) hn hd hd0 hd1 (hd0.trans hwait) le_rfl
    (hrl₁.mono hwait) hlev₁
  refine ⟨List.replicate (n + 1) (0, key) ++ (List.replicate 1 (0 + d, key) ++
    (List.replicate (n + 1) (d + 600 + ε, key) ++ (List.replicate 1 (d + 600 + ε + d, key) ++ []))),
    d + 600 + ε + d, by linarith, ?_, ?_⟩
  · have hmem : ∀ {m : ℕ} {u t : Time} {rest : List (Time × String)}, t ≤ u → (∀ c ∈ rest, u ≤ c.1) →
        ∀ c ∈ List.replicate m (u, key) ++ rest, t ≤ c.1 := by
      intro m u t rest htu hrest c hc
      rcases List.mem_append.mp hc with hc | hc
      · rw [List.eq_of_mem_replicate hc]; exact htu
      · exact htu.trans (hrest c hc)
    have h3 : ∀ c ∈ List.replicate 1 (d + 600 + ε + d, key) ++ [], d + 600 + ε ≤ c.1 :=
      hmem hend (by simp)
    have h2 : ∀ c ∈ List.replicate (n + 1) (d + 600 + ε, key) ++ (List.replicate 1
        (d + 600 + ε + d, key) ++ []), 0 + d ≤ c.1 := hmem (by linarith) h3
    exact sorted_burst (hmem (by linarith) h2)
      (sorted_burst h2 (sorted_burst h3 (sorted_burst (by simp) (by simp))))
  · rw [WindowBound, hcount₁, hcount₂, admitted, not_le]
    push_cast
    linarith

/-- **The window bound is a promise about the configuration.** It holds of every key, every call sequence
    and every window exactly when the bucket admits nothing at all or refills within the ten minutes
    after which an idle one is dropped. -/
theorem windowBound_iff (cfg : RateLimitConfig) (hb : 0 < cfg.burst) (hr : 0 ≤ cfg.perMinute) :
    (∀ (key : String) (calls : List (Time × String)) (t₀ t₁ : Time),
        (calls.map Prod.fst).Pairwise (· ≤ ·) → t₀ ≤ t₁ →
          (admitted key t₀ t₁ (newRateLimiter cfg) calls : ℚ)
            ≤ cfg.burst + cfg.perMinute * (t₁ - t₀) / 60)
      ↔ cfg.burst < 1 ∨ cfg.burst ≤ 10 * cfg.perMinute := by
  constructor
  · intro hbound
    by_contra hnot
    obtain ⟨hone, hslow⟩ := not_or.mp hnot
    rw [not_lt] at hone
    rw [not_le] at hslow
    -- a full bucket holds `n + 1` whole tokens and a fraction
    obtain ⟨n, hn⟩ : ∃ n, ⌊cfg.burst⌋₊ = n + 1 := Nat.exists_eq_succ_of_ne_zero
      (Nat.one_le_iff_ne_zero.mp (Nat.le_floor (by simpa using hone)))
    have hle := Nat.floor_le hb.le
    have hlt := Nat.lt_floor_add_one cfg.burst
    rw [hn] at hle hlt
    push_cast at hle hlt
    have hover : ∃ calls t₁, (0 : Time) ≤ t₁ ∧ (calls.map Prod.fst).Pairwise (· ≤ ·) ∧
        ¬ WindowBound cfg "client" calls 0 t₁ := by
      by_cases hdrain : 10 * cfg.perMinute < 2 * (n + 1) - cfg.burst
      · exact exists_overrun_of_drain hb hr "client" hle hdrain
      · exact exists_overrun_of_squeeze hb "client" hle (by linarith) (not_lt.mp hdrain) hslow
    obtain ⟨calls, t₁, hw, hsorted, hbad⟩ := hover
    exact hbad (hbound "client" calls 0 t₁ hsorted hw)
  · intro h key calls t₀ t₁ hsorted hw
    exact windowBound_of hb hr h hsorted hw

/-- The hosted default keeps the promise. -/
theorem windowBound_iff_default :
    (∀ (key : String) (calls : List (Time × String)) (t₀ t₁ : Time),
        (calls.map Prod.fst).Pairwise (· ≤ ·) → t₀ ≤ t₁ →
          (admitted key t₀ t₁ (newRateLimiter defaultRateLimitConfig) calls : ℚ)
            ≤ defaultRateLimitConfig.burst + defaultRateLimitConfig.perMinute * (t₁ - t₀) / 60)
      ↔ defaultRateLimitConfig.burst < 1
        ∨ defaultRateLimitConfig.burst ≤ 10 * defaultRateLimitConfig.perMinute :=
  windowBound_iff defaultRateLimitConfig (by norm_num [defaultRateLimitConfig])
    (by norm_num [defaultRateLimitConfig])

/-- An hourly limiter gives a client that comes back after ten minutes and a nanosecond a second
    request, where eleven minutes are owed less than a fifth of one. -/
theorem overrun_hourly :
    ¬ (admitted "client" 0 660 (newRateLimiter { burst := 1, perMinute := 1 / 60 })
        [(0, "client"), (600 + 1 / 10 ^ 9, "client")] : ℚ) ≤ 1 + 1 / 60 * (660 - 0) / 60 := by
  decide +kernel

end Api
end InfrixPlayground
