import Mathlib.Algebra.Order.Ring.Cast
import Mathlib.Tactic.Linarith
import Mathlib.Tactic.Ring

/-!
# `Lib.TokenBucket` — the ideal token bucket

A bucket holds at most `cap` tokens, gains `rate` of them per unit of time, and serves a request that
finds a whole token by taking it. Levels and times live in one ordered ring. The bucket of this file
never forgets: whatever a limiter does with its memory, the bound `served_le` is what it has to keep.
-/

/-- The parameters of a bucket. -/
structure TokenBucket (K : Type*) where
  cap : K
  rate : K

namespace TokenBucket

/-- What a bucket held when it was last looked at. -/
structure State (K : Type*) where
  level : K
  last : K

variable {K : Type*} [CommRing K] [LinearOrder K] (p : TokenBucket K)

/-- What the bucket holds at `t`. -/
def avail (s : State K) (t : K) : K := min p.cap (s.level + p.rate * (t - s.last))

/-- A request at `t`: the bucket after it, and whether it was served. -/
def serve (s : State K) (t : K) : State K × Bool :=
  if 1 ≤ p.avail s t then (⟨p.avail s t - 1, t⟩, true) else (⟨p.avail s t, t⟩, false)

/-- How many of the requests at times `ts` that fall into `[t₀, t₁]` are served. -/
def served (t₀ t₁ : K) : State K → List K → ℕ
  | _, [] => 0
  | s, t :: ts =>
    (if (p.serve s t).2 = true ∧ t₀ ≤ t ∧ t ≤ t₁ then 1 else 0) + served t₀ t₁ (p.serve s t).1 ts

/-! ## One request -/

theorem avail_le_cap (s : State K) (t : K) : p.avail s t ≤ p.cap := min_le_left _ _

@[simp] theorem serve_last (s : State K) (t : K) : (p.serve s t).1.last = t := by
  unfold serve; split <;> rfl

/-- A served request takes exactly one token. -/
theorem serve_level (s : State K) (t : K) :
    (p.serve s t).1.level = p.avail s t - (if (p.serve s t).2 = true then 1 else 0) := by
  unfold serve; split <;> simp

/-- At the time of the request itself, the token it took is gone. -/
theorem avail_serve_self (s : State K) (t : K) :
    p.avail (p.serve s t).1 t ≤ p.avail s t - (if (p.serve s t).2 = true then 1 else 0) := by
  refine (min_le_right _ _).trans (le_of_eq ?_)
  rw [serve_level, serve_last, sub_self, mul_zero, add_zero]

/-- Nothing is served in a window that closed before the first request. -/
theorem served_eq_zero {t₀ t₁ : K} : ∀ (ts : List K) (s : State K), (∀ t ∈ ts, t₁ < t) →
    p.served t₀ t₁ s ts = 0 := by
  intro ts
  induction ts with
  | nil => intro s _; rfl
  | cons t ts ih =>
      intro s h
      have ht : ¬ t ≤ t₁ := not_le.mpr (h t (by simp))
      rw [served, ih _ (fun u hu => h u (List.mem_cons_of_mem t hu)), if_neg (fun hc => ht hc.2.2)]

variable [IsStrictOrderedRing K]

/-- A bucket never goes below empty. -/
theorem serve_level_nonneg (s : State K) (t : K) (h : 0 ≤ p.avail s t) :
    0 ≤ (p.serve s t).1.level := by
  unfold serve
  split
  · rename_i h1; exact sub_nonneg.mpr h1
  · exact h

/-- Over a stretch of time a bucket gains at most what its rate gives. -/
theorem avail_le_add (hr : 0 ≤ p.rate) (s : State K) {t t' : K} (h : t ≤ t') :
    p.avail s t' ≤ p.avail s t + p.rate * (t' - t) := by
  have hg : 0 ≤ p.rate * (t' - t) := mul_nonneg hr (sub_nonneg.mpr h)
  rw [avail, avail, ← min_add_add_right]
  refine min_le_min (by linarith) (le_of_eq ?_)
  ring

theorem avail_nonneg (hr : 0 ≤ p.rate) (hc : 0 ≤ p.cap) {s : State K} {t : K} (hs : 0 ≤ s.level)
    (h : s.last ≤ t) : 0 ≤ p.avail s t :=
  le_min hc (add_nonneg hs (mul_nonneg hr (sub_nonneg.mpr h)))

/-- A request never leaves more for later than there was. -/
theorem avail_serve_le (s : State K) (t t' : K) :
    p.avail (p.serve s t).1 t' ≤ p.avail s t' := by
  have hlev : (p.serve s t).1.level ≤ s.level + p.rate * (t - s.last) := by
    rw [serve_level]
    have := min_le_right p.cap (s.level + p.rate * (t - s.last))
    unfold avail
    split <;> linarith
  refine le_min (min_le_left _ _) ((min_le_right _ _).trans ?_)
  rw [serve_last]
  have : p.rate * (t - s.last) + p.rate * (t' - t) = p.rate * (t' - s.last) := by ring
  linarith

/-! ## The bound over a window -/

/-- **The bound, from any state.** What a window can still be served is what the bucket holds when the
    window is entered, plus what flows in until it closes. -/
theorem served_le_avail (hr : 0 ≤ p.rate) (hc : 0 ≤ p.cap) {t₀ t₁ : K} :
    ∀ (ts : List K) (s : State K), ts.Pairwise (· ≤ ·) → (∀ t ∈ ts, s.last ≤ t) → 0 ≤ s.level →
      max s.last t₀ ≤ t₁ →
        (p.served t₀ t₁ s ts : K)
          ≤ p.avail s (max s.last t₀) + p.rate * (t₁ - max s.last t₀) := by
  intro ts
  induction ts with
  | nil =>
      intro s _ _ hs hw
      have h1 := p.avail_nonneg hr hc hs (le_max_left s.last t₀)
      have h2 : 0 ≤ p.rate * (t₁ - max s.last t₀) := mul_nonneg hr (sub_nonneg.mpr hw)
      rw [served, Nat.cast_zero]; linarith
  | cons t ts ih =>
      intro s hsorted hle hs hw
      obtain ⟨hhead, htail⟩ := List.pairwise_cons.mp hsorted
      have hst : s.last ≤ t := hle t (by simp)
      have hs' := p.serve_level_nonneg s t (p.avail_nonneg hr hc hs hst)
      have hle' : ∀ u ∈ ts, (p.serve s t).1.last ≤ u := by rw [serve_last]; exact hhead
      by_cases ht1 : t ≤ t₁
      · by_cases ht0 : t₀ ≤ t
        · -- the request falls into the window
          have hmax : max (p.serve s t).1.last t₀ = t := by rw [serve_last]; exact max_eq_left ht0
          have htl := ih (p.serve s t).1 htail hle' hs' (by rw [hmax]; exact ht1)
          rw [hmax] at htl
          have hself := p.avail_serve_self s t
          have hgrow := p.avail_le_add hr s (max_le hst ht0)
          have hring : p.rate * (t - max s.last t₀) + p.rate * (t₁ - t)
              = p.rate * (t₁ - max s.last t₀) := by ring
          rw [served, Nat.cast_add]
          by_cases hb : (p.serve s t).2 = true
          · rw [if_pos hb] at hself
            rw [if_pos ⟨hb, ht0, ht1⟩, Nat.cast_one]; linarith
          · rw [if_neg hb] at hself
            rw [if_neg (fun h => hb h.1), Nat.cast_zero]; linarith
        · -- the window is not entered yet
          have ht0' : t ≤ t₀ := le_of_not_ge ht0
          have hm : max s.last t₀ = t₀ := max_eq_right (hst.trans ht0')
          have hm' : max (p.serve s t).1.last t₀ = t₀ := by rw [serve_last]; exact max_eq_right ht0'
          have htl := ih (p.serve s t).1 htail hle' hs' (by rw [hm', ← hm]; exact hw)
          rw [hm'] at htl
          have hle0 := p.avail_serve_le s t t₀
          rw [served, if_neg (fun h => ht0 h.2.1), Nat.zero_add, hm]
          linarith
      · -- the window has closed
        have hz : p.served t₀ t₁ (p.serve s t).1 ts = 0 :=
          p.served_eq_zero ts _ (fun u hu => lt_of_lt_of_le (not_le.mp ht1) (hhead u hu))
        have h1 := p.avail_nonneg hr hc hs (le_max_left s.last t₀)
        have h2 : 0 ≤ p.rate * (t₁ - max s.last t₀) := mul_nonneg hr (sub_nonneg.mpr hw)
        rw [served, hz, if_neg (fun h => ht1 h.2.2), Nat.cast_zero]
        linarith

/-- **The token-bucket bound.** In a window of length `t₁ - t₀` at most `cap + rate · (t₁ - t₀)`
    requests are served. -/
theorem served_le (hr : 0 ≤ p.rate) (hc : 0 ≤ p.cap) {t₀ t₁ : K} (hw : t₀ ≤ t₁) (ts : List K)
    (s : State K) (hsorted : ts.Pairwise (· ≤ ·)) (hle : ∀ t ∈ ts, s.last ≤ t) (hs : 0 ≤ s.level) :
    (p.served t₀ t₁ s ts : K) ≤ p.cap + p.rate * (t₁ - t₀) := by
  by_cases hl : s.last ≤ t₁
  · have hmax : max s.last t₀ ≤ t₁ := max_le hl hw
    have h := p.served_le_avail hr hc ts s hsorted hle hs hmax
    have hcap := p.avail_le_cap s (max s.last t₀)
    have hmono : p.rate * (t₁ - max s.last t₀) ≤ p.rate * (t₁ - t₀) :=
      mul_le_mul_of_nonneg_left (by linarith [le_max_right s.last t₀]) hr
    linarith
  · rw [p.served_eq_zero ts s (fun t ht => lt_of_lt_of_le (not_le.mp hl) (hle t ht)), Nat.cast_zero]
    have : 0 ≤ p.rate * (t₁ - t₀) := mul_nonneg hr (sub_nonneg.mpr hw)
    linarith

end TokenBucket
