import Mathlib.Data.List.Basic

/-!
# `Lib.Machine` — labelled machines, their runs, and the induction rules over runs

A machine is a partial step function `step : σ → α → Option σ`: what one action does to a state,
`none` when the action is not enabled there. A *run* is the list of its actions. Every property of a
concurrent component in this development is a property of such runs, so the inductions over runs are
proved here once:

* `exec_invariant` — what holds at the start and survives each step holds at the end of a run;
* `exec_rel` — what relates the two ends of each step, transitively, relates the two ends of a run;
* `good_iff_meets` — a property that a step keeps *exactly* when it meets a condition holds at the end
  of a run exactly when every step met it; `exec_guarded` is the one direction;
* `holdsUntil_iff` — the same for a property claimed of every state up to a stopping action;
* `always_iff` — and for one claimed of every state of the run;
* `exec_lockstep` — two machines whose steps keep their states related end related, or both stop.
-/

namespace Machine

variable {σ α : Type*}

/-- Run the actions in order; `none` as soon as one of them is not enabled. -/
def exec (step : σ → α → Option σ) : σ → List α → Option σ
  | s, [] => some s
  | s, a :: as => (step s a).bind fun s' => exec step s' as

variable {step : σ → α → Option σ}

@[simp] theorem exec_nil (s : σ) : exec step s [] = some s := rfl

/-- A nonempty run is its first step followed by the rest. -/
theorem exec_cons_iff {s t : σ} {a : α} {as : List α} :
    exec step s (a :: as) = some t ↔ ∃ s', step s a = some s' ∧ exec step s' as = some t := by
  simp only [exec, Option.bind_eq_some_iff]

/-- A run splits at any point of its action list. -/
theorem exec_append_iff {s t : σ} {as bs : List α} :
    exec step s (as ++ bs) = some t ↔ ∃ m, exec step s as = some m ∧ exec step m bs = some t := by
  induction as generalizing s with
  | nil => simp
  | cons a as ih =>
      simp only [List.cons_append, exec_cons_iff, ih]
      constructor
      · rintro ⟨s', hs, m, hm, ht⟩; exact ⟨m, ⟨s', hs, hm⟩, ht⟩
      · rintro ⟨m, ⟨s', hs, hm⟩, ht⟩; exact ⟨s', hs, m, hm, ht⟩

/-! ## The invariant rule -/

/-- **The invariant rule.** What holds at the start of a run and survives each of its steps holds at its
    end. -/
theorem exec_invariant {P : σ → Prop} (hstep : ∀ s a s', P s → step s a = some s' → P s') :
    ∀ (as : List α) {s t : σ}, P s → exec step s as = some t → P t := by
  intro as
  induction as with
  | nil => intro s t hs he; rw [exec_nil] at he; exact Option.some.inj he ▸ hs
  | cons a as ih =>
      intro s t hs he
      obtain ⟨s', ha, hrest⟩ := exec_cons_iff.mp he
      exact ih (hstep s a s' hs ha) hrest

/-- **The relation rule.** A reflexive, transitive relation that holds across each step taken under an
    invariant holds between the two ends of a run. -/
theorem exec_rel {I : σ → Prop} {R : σ → σ → Prop} (hrefl : ∀ s, R s s)
    (htrans : ∀ s t u, R s t → R t u → R s u) (hI : ∀ s a s', I s → step s a = some s' → I s')
    (hR : ∀ s a s', I s → step s a = some s' → R s s') :
    ∀ (as : List α) {s t : σ}, I s → exec step s as = some t → R s t := by
  intro as
  induction as with
  | nil => intro s t _ he; rw [exec_nil] at he; exact Option.some.inj he ▸ hrefl s
  | cons a as ih =>
      intro s t hs he
      obtain ⟨s', ha, hrest⟩ := exec_cons_iff.mp he
      exact htrans _ _ _ (hR s a s' hs ha) (ih (hI s a s' hs ha) hrest)

/-! ## Observations -/

/-- **The observation rule.** If a step adds to what has been seen only what the state before it shows, then
    whatever a run has added was shown in a state it passed through. -/
theorem exec_observed {ν : Type*} {Seen Shows : σ → ν → Prop}
    (hstep : ∀ s a s', step s a = some s' → ∀ v, Seen s' v → Seen s v ∨ Shows s v) {as : List α} {s t : σ}
    (h : exec step s as = some t) {v : ν} (hv : Seen t v) :
    Seen s v ∨ ∃ bs cs u, as = bs ++ cs ∧ exec step s bs = some u ∧ Shows u v := by
  induction as generalizing s with
  | nil =>
      rw [exec_nil] at h
      cases h
      exact .inl hv
  | cons a as ih =>
      obtain ⟨s', ha, hrest⟩ := exec_cons_iff.mp h
      rcases ih hrest with hseen | ⟨bs, cs, u, rfl, hbs, hshows⟩
      · rcases hstep s a s' ha v hseen with hseen | hshows
        · exact .inl hseen
        · exact .inr ⟨[], a :: as, s, rfl, rfl, hshows⟩
      · exact .inr ⟨a :: bs, cs, u, rfl, exec_cons_iff.mpr ⟨s', ha, hbs⟩, hshows⟩

/-! ## Conditions on the steps of a run -/

/-- Every step of the run meets the condition `ok` in the state it is taken from. -/
def Meets (step : σ → α → Option σ) (ok : σ → α → Prop) : σ → List α → Prop
  | _, [] => True
  | s, a :: as => ok s a ∧ ∀ s', step s a = some s' → Meets step ok s' as

theorem meets_cons {ok : σ → α → Prop} {s s' : σ} {a : α} {as : List α} (h : step s a = some s') :
    Meets step ok s (a :: as) ↔ ok s a ∧ Meets step ok s' as := by
  simp [Meets, h]

/-- A condition that each of the actions meets in any state is met along every run of them. -/
theorem meets_of_forall {ok : σ → α → Prop} {as : List α} (h : ∀ a ∈ as, ∀ s, ok s a) (s : σ) :
    Meets step ok s as := by
  induction as generalizing s with
  | nil => trivial
  | cons a as ih =>
      exact ⟨h a List.mem_cons_self s, fun s' _ => ih (fun b hb => h b (List.mem_cons_of_mem _ hb)) s'⟩

/-- A condition that holds wherever the run gets is met. -/
theorem meets_of_exec {ok : σ → α → Prop} {as : List α} {s : σ}
    (h : ∀ before a after t, as = before ++ a :: after → exec step s before = some t → ok t a) :
    Meets step ok s as := by
  induction as generalizing s with
  | nil => trivial
  | cons a as ih =>
      refine ⟨h [] a as s rfl rfl, fun s' hs => ih fun before b after t has ht => ?_⟩
      exact h (a :: before) b after t (by rw [has]; rfl) (exec_cons_iff.mpr ⟨s', hs, ht⟩)

/-- Two conditions are met together. -/
theorem meets_and {ok ok' : σ → α → Prop} {as : List α} {s : σ} (h : Meets step ok s as)
    (h' : Meets step ok' s as) : Meets step (fun s a => ok s a ∧ ok' s a) s as := by
  induction as generalizing s with
  | nil => trivial
  | cons a as ih => exact ⟨⟨h.1, h'.1⟩, fun s' hs => ih (h.2 s' hs) (h'.2 s' hs)⟩

/-- A condition is met along a run in two parts. -/
theorem meets_append {ok : σ → α → Prop} {as bs : List α} {s t : σ} (h : exec step s as = some t)
    (ha : Meets step ok s as) (hb : Meets step ok t bs) : Meets step ok s (as ++ bs) := by
  induction as generalizing s with
  | nil => rw [exec_nil] at h; cases h; exact hb
  | cons a as ih =>
      obtain ⟨s', hs, hrest⟩ := exec_cons_iff.mp h
      exact (meets_cons hs).mpr ⟨ha.1, ih hrest (ha.2 s' hs)⟩

/-- **The exact rule.** If a step keeps `G` exactly when `G` held and the step met `ok`, then `G` holds
    at the end of a run exactly when every step of the run met `ok`. -/
theorem good_iff_meets {I G : σ → Prop} {ok : σ → α → Prop}
    (hI : ∀ s a s', I s → step s a = some s' → I s')
    (hG : ∀ s a s', I s → step s a = some s' → (G s' ↔ G s ∧ ok s a)) :
    ∀ (as : List α) {s t : σ}, I s → G s → exec step s as = some t →
      (G t ↔ Meets step ok s as) := by
  -- strengthened to an unknown `G s`, so that a lost `G` is carried to the end of the run
  have key : ∀ (as : List α) {s t : σ}, I s → exec step s as = some t →
      (G t ↔ G s ∧ Meets step ok s as) := by
    intro as
    induction as with
    | nil => intro s t _ he; rw [exec_nil] at he; simp [Meets, Option.some.inj he]
    | cons a as ih =>
        intro s t hs he
        obtain ⟨s', ha, hrest⟩ := exec_cons_iff.mp he
        rw [ih (hI s a s' hs ha) hrest, hG s a s' hs ha, meets_cons ha, and_assoc]
  intro as s t hs hGs he
  rw [key as hs he, and_iff_right hGs]

/-- **The guarded invariant rule.** What holds at the start and survives each step that meets `ok` holds
    at the end of every run all of whose steps meet it. -/
theorem exec_guarded {P : σ → Prop} {ok : σ → α → Prop}
    (hstep : ∀ s a s', P s → ok s a → step s a = some s' → P s') :
    ∀ (as : List α) {s t : σ}, P s → Meets step ok s as → exec step s as = some t → P t := by
  intro as
  induction as with
  | nil => intro s t hs _ he; rw [exec_nil] at he; exact Option.some.inj he ▸ hs
  | cons a as ih =>
      intro s t hs hm he
      obtain ⟨s', ha, hrest⟩ := exec_cons_iff.mp he
      obtain ⟨hok, hm'⟩ := (meets_cons ha).mp hm
      exact ih (hstep s a s' hs hok ha) hm' hrest

/-! ## Properties claimed up to a stopping action -/

/-- `P` holds of every state of the run up to its first action that satisfies `stop`. -/
def HoldsUntil (step : σ → α → Option σ) (stop : α → Prop) (P : σ → Prop) : σ → List α → Prop
  | s, [] => P s
  | s, a :: as => P s ∧ (¬ stop a → ∀ s', step s a = some s' → HoldsUntil step stop P s' as)

/-- Every step of the run before its first `stop` action meets `ok`. -/
def MeetsUntil (step : σ → α → Option σ) (stop : α → Prop) (ok : σ → α → Prop) : σ → List α → Prop
  | _, [] => True
  | s, a :: as => ¬ stop a → ok s a ∧ ∀ s', step s a = some s' → MeetsUntil step stop ok s' as

theorem meetsUntil_of_forall {stop : α → Prop} {ok : σ → α → Prop} {as : List α}
    (h : ∀ a ∈ as, ¬ stop a → ∀ s, ok s a) (s : σ) : MeetsUntil step stop ok s as := by
  induction as generalizing s with
  | nil => trivial
  | cons a as ih =>
      exact fun hstop => ⟨h a List.mem_cons_self hstop s,
        fun s' _ => ih (fun b hb => h b (List.mem_cons_of_mem _ hb)) s'⟩

theorem HoldsUntil.head {stop : α → Prop} {P : σ → Prop} {s : σ} {as : List α}
    (h : HoldsUntil step stop P s as) : P s := by
  cases as with
  | nil => exact h
  | cons a as => exact h.1

/-- **The exact rule up to a stopping action.** If a step that does not stop keeps `P` exactly when it
    meets `ok`, then `P` holds up to the first stop exactly when every step before it met `ok`. -/
theorem holdsUntil_iff {I P : σ → Prop} {stop : α → Prop} {ok : σ → α → Prop}
    (hI : ∀ s a s', I s → step s a = some s' → I s')
    (hP : ∀ s a s', I s → P s → ¬ stop a → step s a = some s' → (P s' ↔ ok s a)) :
    ∀ (as : List α) {s t : σ}, I s → P s → exec step s as = some t →
      (HoldsUntil step stop P s as ↔ MeetsUntil step stop ok s as) := by
  intro as
  induction as with
  | nil => intro s t _ hs _; exact ⟨fun _ => trivial, fun _ => hs⟩
  | cons a as ih =>
      intro s t hIs hs he
      obtain ⟨s', ha, hrest⟩ := exec_cons_iff.mp he
      have hI' := hI s a s' hIs ha
      constructor
      · -- `P` before and after the step gives `ok` of it, and the rest is the induction hypothesis
        rintro ⟨_, h⟩ hstop
        have hs' := h hstop s' ha
        refine ⟨(hP s a s' hIs hs hstop ha).mp hs'.head, fun u hu => ?_⟩
        cases Option.some.inj (ha.symm.trans hu)
        exact (ih hI' hs'.head hrest).mp hs'
      · intro h
        refine ⟨hs, fun hstop u hu => ?_⟩
        cases Option.some.inj (ha.symm.trans hu)
        obtain ⟨hok, hm⟩ := h hstop
        exact (ih hI' ((hP s a s' hIs hs hstop ha).mpr hok) hrest).mpr (hm s' ha)

/-! ## Properties claimed of every state -/

/-- `P` holds of every state that the run goes through. -/
def Always (step : σ → α → Option σ) (P : σ → Prop) (s : σ) (as : List α) : Prop :=
  ∀ bs, bs <+: as → ∀ t, exec step s bs = some t → P t

theorem always_cons {P : σ → Prop} {s s' : σ} {a : α} {as : List α} (h : step s a = some s') :
    Always step P s (a :: as) ↔ P s ∧ Always step P s' as := by
  constructor
  · intro hall
    refine ⟨hall [] List.nil_prefix s rfl, fun bs hbs t ht => ?_⟩
    exact hall (a :: bs) (List.cons_prefix_cons.mpr ⟨rfl, hbs⟩) t (exec_cons_iff.mpr ⟨s', h, ht⟩)
  · rintro ⟨hs, hall⟩ bs hbs t ht
    rcases List.prefix_cons_iff.mp hbs with rfl | ⟨cs, rfl, hcs⟩
    · rw [exec_nil] at ht
      exact Option.some.inj ht ▸ hs
    · obtain ⟨u, hu, ht⟩ := exec_cons_iff.mp ht
      cases Option.some.inj (h.symm.trans hu)
      exact hall cs hcs t ht

/-- **The exact rule for every state.** If a step keeps `P` exactly when it meets `ok`, then `P` holds
    throughout a run exactly when every step of the run meets `ok`. -/
theorem always_iff {I P : σ → Prop} {ok : σ → α → Prop} (hI : ∀ s a s', I s → step s a = some s' → I s')
    (hP : ∀ s a s', I s → P s → step s a = some s' → (P s' ↔ ok s a)) :
    ∀ (as : List α) {s t : σ}, I s → P s → exec step s as = some t →
      (Always step P s as ↔ Meets step ok s as) := by
  intro as
  induction as with
  | nil =>
      intro s t _ hs _
      refine ⟨fun _ => trivial, fun _ bs hbs u hu => ?_⟩
      rw [List.prefix_nil.mp hbs, exec_nil] at hu
      exact Option.some.inj hu ▸ hs
  | cons a as ih =>
      intro s t hIs hs he
      obtain ⟨s', ha, hrest⟩ := exec_cons_iff.mp he
      have hI' := hI s a s' hIs ha
      rw [always_cons ha, meets_cons ha]
      constructor
      · rintro ⟨_, hall⟩
        -- the first state of the rest is the one the step led to
        have hs' : P s' := hall [] List.nil_prefix s' rfl
        exact ⟨(hP s a s' hIs hs ha).mp hs', (ih hI' hs' hrest).mp hall⟩
      · rintro ⟨hok, hmeets⟩
        exact ⟨hs, (ih hI' ((hP s a s' hIs hs ha).mpr hok) hrest).mpr hmeets⟩

/-! ## Two machines in step -/

variable {τ β : Type*} {step' : τ → β → Option τ}

/-- **The lockstep rule.** Let related actions, taken in related states where the first machine's meets
    `ok`, lead to related states or be enabled in neither. Then related runs, all of whose steps meet `ok`,
    lead to related states, or neither can be run to its end. -/
theorem exec_lockstep {R : σ → τ → Prop} {A : α → β → Prop} {ok : σ → α → Prop}
    (hstep : ∀ s t a b, R s t → A a b → ok s a → Option.Rel R (step s a) (step' t b)) :
    ∀ {as : List α} {bs : List β}, List.Forall₂ A as bs → ∀ {s : σ} {t : τ}, R s t →
      Meets step ok s as → Option.Rel R (exec step s as) (exec step' t bs) := by
  intro as bs hab
  induction hab with
  | nil => intro s t hR _; exact .some hR
  | @cons a b as bs hA _ ih =>
      intro s t hR hm
      have hrel := hstep s t a b hR hA hm.1
      simp only [exec]
      cases hs : step s a with
      | none =>
          rw [hs] at hrel
          cases ht : step' t b with
          | none => exact .none
          | some t' => rw [ht] at hrel; cases hrel
      | some s' =>
          rw [hs] at hrel
          cases ht : step' t b with
          | none => rw [ht] at hrel; cases hrel
          | some t' =>
              rw [ht] at hrel
              cases hrel with
              | some hR' => exact ih hR' (hm.2 s' hs)

end Machine
