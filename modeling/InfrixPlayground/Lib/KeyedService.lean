import Mathlib.Order.Basic
import Mathlib.Data.List.Pairwise

/-!
# `Lib.KeyedService` — services whose clients do not see each other

A keyed service answers calls, each made for one key at one clock reading. Its state may be shared by all
keys, and a call may touch all of it; what matters to a client is what a call of its own key would *find*.
A service is `Keyed` when the answer to a call is a function of what it finds, when what the next call of
the key finds is a function of that too, and when calls for one key leave alone what every other finds.

Two rules follow. The answers a key receives depend on its own calls only (`isolated`), and two services
that agree on what there is to find agree on every answer (`answers_eq`). `after_invariant` is the induction
over calls in order of time.
-/

namespace KeyedService

variable {σ σ' κ τ ν δ : Type*}

/-- What one key sees of a service: the answer to a call that finds `v`, and what a call at `u` finds when
    the key's last call, at `t`, found `v`. -/
structure Cell (τ ν δ : Type*) where
  answer : ν → δ
  next : ν → τ → τ → ν

/-- The answers to a sequence of calls, in order. -/
def answers (call : σ → τ → κ → σ × δ) : σ → List (τ × κ) → List δ
  | _, [] => []
  | s, c :: calls => (call s c.1 c.2).2 :: answers call (call s c.1 c.2).1 calls

/-- The answers that `k`'s calls receive. -/
def answersOf [DecidableEq κ] (call : σ → τ → κ → σ × δ) (k : κ) : σ → List (τ × κ) → List δ
  | _, [] => []
  | s, c :: calls =>
    if c.2 = k then (call s c.1 c.2).2 :: answersOf call k (call s c.1 c.2).1 calls
    else answersOf call k (call s c.1 c.2).1 calls

/-- The answers to calls of a single key at times `ts`, if they find `v`. -/
def Cell.answers (c : Cell τ ν δ) : (τ → ν) → List τ → List δ
  | _, [] => []
  | v, t :: ts => c.answer (v t) :: c.answers (c.next (v t) t) ts

/-- The times of `k`'s calls. -/
def timesOf [DecidableEq κ] (k : κ) (calls : List (τ × κ)) : List τ :=
  (calls.filter fun c => c.2 = k).map Prod.fst

/-- The state after a sequence of calls. -/
def after (call : σ → τ → κ → σ × δ) (s : σ) (calls : List (τ × κ)) : σ :=
  calls.foldl (fun s c => (call s c.1 c.2).1) s

/-- When `k` called last. -/
def lastCall [DecidableEq κ] (k : κ) (calls : List (τ × κ)) : Option τ := (timesOf k calls).getLast?

theorem lastCall_concat [DecidableEq κ] (k : κ) (calls : List (τ × κ)) (c : τ × κ) :
    lastCall k (calls ++ [c]) = if c.2 = k then some c.1 else lastCall k calls := by
  by_cases hk : c.2 = k
  · simp [lastCall, timesOf, hk]
  · simp [lastCall, timesOf, hk]

/-- A service under the invariant `Inv`, a state being good from some time on; `view s k t` is what a call
    of `k` at `t` finds. -/
structure Keyed [LE τ] (c : Cell τ ν δ) (call : σ → τ → κ → σ × δ) (view : σ → κ → τ → ν)
    (Inv : σ → τ → Prop) : Prop where
  later : ∀ {s t u}, Inv s t → t ≤ u → Inv s u
  keeps : ∀ {s t} k, Inv s t → Inv (call s t k).1 t
  answer : ∀ {s t} k, Inv s t → (call s t k).2 = c.answer (view s k t)
  self : ∀ {s t u} k, Inv s t → t ≤ u → view (call s t k).1 k u = c.next (view s k t) t u
  other : ∀ {s t u k k'}, Inv s t → t ≤ u → k' ≠ k → view (call s t k).1 k' u = view s k' u

/-- What is never looked at does not matter. -/
theorem Cell.answers_congr [Preorder τ] (c : Cell τ ν δ) {v v' : τ → ν} {t : τ} :
    ∀ {ts : List τ}, (∀ u, t ≤ u → v u = v' u) → (∀ u ∈ ts, t ≤ u) → c.answers v ts = c.answers v' ts := by
  intro ts hv hle
  cases ts with
  | nil => rfl
  | cons u ts =>
      have hu := hv u (hle u (List.mem_cons_self ..))
      rw [Cell.answers, Cell.answers, hu]

/-- Where every call is the key's own, the answers are its answers. -/
theorem answersOf_own [DecidableEq κ] (call : σ → τ → κ → σ × δ) (k : κ) :
    ∀ (calls : List (τ × κ)) (s : σ), (∀ d ∈ calls, d.2 = k) →
      answersOf call k s calls = answers call s calls := by
  intro calls
  induction calls with
  | nil => intro s _; rfl
  | cons d calls ih =>
      intro s hown
      rw [answersOf, answers, if_pos (hown d (List.mem_cons_self ..)),
        ih _ fun e he => hown e (List.mem_cons_of_mem d he)]

/-- A sequence of calls in order of time has a time before them all. -/
theorem exists_start [Preorder τ] [Inhabited τ] {calls : List (τ × κ)}
    (hsorted : (calls.map Prod.fst).Pairwise (· ≤ ·)) : ∃ t, ∀ d ∈ calls, t ≤ d.1 := by
  cases calls with
  | nil => exact ⟨default, fun d hd => absurd hd List.not_mem_nil⟩
  | cons d calls =>
      refine ⟨d.1, fun e he => ?_⟩
      rcases List.mem_cons.mp he with rfl | he
      · exact le_refl _
      · exact (List.pairwise_cons.mp hsorted).1 e.1 (List.mem_map_of_mem he)

variable [Preorder τ] {c : Cell τ ν δ} {call : σ → τ → κ → σ × δ} {call' : σ' → τ → κ → σ' × δ}
variable {view : σ → κ → τ → ν} {view' : σ' → κ → τ → ν} {Inv : σ → τ → Prop} {Inv' : σ' → τ → Prop}

/-- The answers a key receives are a function of what it finds at first and of the times of its calls. -/
theorem Keyed.answersOf_eq [DecidableEq κ] (h : Keyed c call view Inv) (k : κ) :
    ∀ (calls : List (τ × κ)) {s : σ} {t : τ}, Inv s t → (∀ d ∈ calls, t ≤ d.1) →
      (calls.map Prod.fst).Pairwise (· ≤ ·) →
        answersOf call k s calls = c.answers (view s k) (timesOf k calls) := by
  intro calls
  induction calls with
  | nil => intros; rfl
  | cons d calls ih =>
      intro s t hinv hle hsorted
      obtain ⟨hhead, htail⟩ := List.pairwise_cons.mp hsorted
      have hinv' := h.later hinv (hle d (List.mem_cons_self ..))
      have hlater : ∀ e ∈ calls, d.1 ≤ e.1 := fun e he => hhead e.1 (List.mem_map_of_mem he)
      have hrest := ih (h.keeps d.2 hinv') hlater htail
      have hmine : ∀ u ∈ timesOf k calls, d.1 ≤ u := by
        intro u hu
        obtain ⟨e, he, rfl⟩ := List.mem_map.mp hu
        exact hlater e (List.mem_filter.mp he).1
      by_cases hk : d.2 = k
      · have htimes : timesOf k (d :: calls) = d.1 :: timesOf k calls := by simp [timesOf, hk]
        rw [answersOf, if_pos hk, htimes, Cell.answers, hrest, h.answer d.2 hinv', hk]
        exact congrArg _ (c.answers_congr (fun u hu => h.self k hinv' hu) hmine)
      · have htimes : timesOf k (d :: calls) = timesOf k calls := by simp [timesOf, hk]
        rw [answersOf, if_neg hk, htimes, hrest]
        exact c.answers_congr (fun u hu => h.other hinv' hu (Ne.symm hk)) hmine

/-- **The invariant rule.** An invariant that every call keeps, and that time does not break, holds after any
    sequence of calls in order of time. -/
theorem after_invariant (Inv : σ → τ → Prop) (later : ∀ {s t u}, Inv s t → t ≤ u → Inv s u)
    (keeps : ∀ {s t} k, Inv s t → Inv (call s t k).1 t) :
    ∀ (calls : List (τ × κ)) {s : σ} {t u : τ}, Inv s t → (∀ d ∈ calls, t ≤ d.1) →
      (calls.map Prod.fst).Pairwise (· ≤ ·) → t ≤ u → (∀ d ∈ calls, d.1 ≤ u) →
        Inv (after call s calls) u := by
  intro calls
  induction calls with
  | nil => intro s t u hinv _ _ htu _; exact later hinv htu
  | cons d calls ih =>
      intro s t u hinv hle hsorted _ hu
      obtain ⟨hhead, htail⟩ := List.pairwise_cons.mp hsorted
      have hnow := keeps d.2 (later hinv (hle d (List.mem_cons_self ..)))
      exact ih hnow (fun e he => hhead e.1 (List.mem_map_of_mem he)) htail (hu d (List.mem_cons_self ..))
        fun e he => hu e (List.mem_cons_of_mem d he)

/-- **Nobody else's calls** change what a key finds. -/
theorem Keyed.view_after (h : Keyed c call view Inv) {k : κ} :
    ∀ (calls : List (τ × κ)) {s : σ} {t u : τ}, Inv s t → (∀ d ∈ calls, t ≤ d.1) →
      (calls.map Prod.fst).Pairwise (· ≤ ·) → (∀ d ∈ calls, d.1 ≤ u) → (∀ d ∈ calls, d.2 ≠ k) →
        view (after call s calls) k u = view s k u := by
  intro calls
  induction calls with
  | nil => intros; rfl
  | cons d calls ih =>
      intro s t u hinv hle hsorted hu hothers
      obtain ⟨hhead, htail⟩ := List.pairwise_cons.mp hsorted
      have hnow := h.later hinv (hle d (List.mem_cons_self ..))
      have hrest := ih (h.keeps d.2 hnow) (fun e he => hhead e.1 (List.mem_map_of_mem he)) htail
        (fun e he => hu e (List.mem_cons_of_mem d he)) fun e he => hothers e (List.mem_cons_of_mem d he)
      exact hrest.trans (h.other hnow (hu d (List.mem_cons_self ..)) (hothers d (List.mem_cons_self ..)).symm)

/-- **Isolation.** A key receives the answers it would receive if no other key had called. -/
theorem Keyed.isolated [DecidableEq κ] (h : Keyed c call view Inv) (k : κ) {calls : List (τ × κ)} {s : σ}
    {t : τ} (hinv : Inv s t) (hle : ∀ d ∈ calls, t ≤ d.1)
    (hsorted : (calls.map Prod.fst).Pairwise (· ≤ ·)) :
    answersOf call k s calls = answers call s (calls.filter fun d => d.2 = k) := by
  have hown : ∀ d ∈ calls.filter fun d => d.2 = k, d.2 = k := fun d hd =>
    of_decide_eq_true (List.mem_filter.mp hd).2
  have htimes : timesOf k (calls.filter fun d => d.2 = k) = timesOf k calls := by
    rw [timesOf, timesOf, List.filter_filter]
    simp
  rw [← answersOf_own call k _ s hown, h.answersOf_eq k calls hinv hle hsorted,
    h.answersOf_eq k _ hinv (fun d hd => hle d (List.mem_filter.mp hd).1)
      (hsorted.sublist (List.filter_sublist.map _)), htimes]

/-- **Simulation.** Services with the same cell, and the same to be found for every key from `t` on, give
    the same answers. -/
theorem Keyed.answers_eq [DecidableEq κ] (h : Keyed c call view Inv) (h' : Keyed c call' view' Inv') :
    ∀ (calls : List (τ × κ)) {s : σ} {s' : σ'} {t : τ}, Inv s t → Inv' s' t →
      (∀ k u, t ≤ u → view s k u = view' s' k u) → (∀ d ∈ calls, t ≤ d.1) →
        (calls.map Prod.fst).Pairwise (· ≤ ·) → answers call s calls = answers call' s' calls := by
  intro calls
  induction calls with
  | nil => intros; rfl
  | cons d calls ih =>
      intro s s' t hinv hinv' hview hle hsorted
      obtain ⟨hhead, htail⟩ := List.pairwise_cons.mp hsorted
      have htd := hle d (List.mem_cons_self ..)
      have hnow := h.later hinv htd
      have hnow' := h'.later hinv' htd
      have hfound := hview d.2 d.1 htd
      rw [answers, answers, h.answer d.2 hnow, h'.answer d.2 hnow', hfound]
      refine congrArg _ (ih (h.keeps d.2 hnow) (h'.keeps d.2 hnow') ?_
        (fun e he => hhead e.1 (List.mem_map_of_mem he)) htail)
      intro k u hu
      by_cases hk : k = d.2
      · rw [hk, h.self d.2 hnow hu, h'.self d.2 hnow' hu, hfound]
      · rw [h.other hnow hu hk, h'.other hnow' hu hk, hview k u (le_trans htd hu)]

end KeyedService
