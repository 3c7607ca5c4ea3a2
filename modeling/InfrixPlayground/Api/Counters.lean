import InfrixPlayground.Api.RunManager

/-!
# `Api.Counters` — the run counters count the runs

`runs_started`, `runs_completed` and `runs_failed` are incremented apart from the state of the run they are
about: in `Start`, on each exit of `execute`, before `finishOK` or `finishErr`. `Ctl.countedIn` says which
counters have counted a run while its goroutine stands at a given point, and `Counted` is that this is all
the counters count.
-/

namespace InfrixPlayground
namespace Api

open Worker Machine

variable {X : Externals}

/-! ## Reading a counter -/

/-- The value of a counter in `Snapshot()`. -/
def Metrics.get (name : String) (m : Metrics) : Nat := (m.lookup name).getD 0

theorem Metrics.get_inc (name name' : String) (m : Metrics) :
    (m.inc name).get name' = m.get name' + (decide (name' = name)).toNat := by
  unfold Metrics.get Metrics.inc
  rw [AList.lookup_insert_eq]
  by_cases h : name' = name
  · subst h; simp
  · simp [h]

namespace RunManager

def started (m : RunManager X) : Nat := m.metrics.get metricRunsStarted
def completed (m : RunManager X) : Nat := m.metrics.get metricRunsCompleted
def failed (m : RunManager X) : Nat := m.metrics.get metricRunsFailed

/-- The number of runs in a state. -/
def runsIn (m : RunManager X) (state : RunState) : Nat := m.runs.countP fun t => t.run.state == state

/-- No `execute` is under way: each one that was started has returned. -/
def NoneExecuting (m : RunManager X) : Prop :=
  ∀ id t, m.runs.lookup id = some t →
    t.ctl = .registered ∨ t.ctl = .counted ∨ ∃ out, t.ctl = .finishing out .ended

/-- Every run that has been counted as started has had its `execute` return. -/
def Quiet (m : RunManager X) : Prop :=
  ∀ id t, m.runs.lookup id = some t → t.ctl = .registered ∨ ∃ out, t.ctl = .finishing out .ended

end RunManager

/-- The run has been counted, and its `execute` not started. -/
def Ctl.isCounted : Ctl X → Bool
  | .counted => true
  | _ => false

/-! ## What has counted a run -/

/-- The counters that have counted a run whose goroutine stands here. -/
def Ctl.countedIn : Ctl X → List String
  | .registered => []
  | .finishing (.ok _) _ => [metricRunsStarted, metricRunsCompleted]
  | .finishing (.error _) _ => [metricRunsStarted, metricRunsFailed]
  | _ => [metricRunsStarted]

/-- **What a step of a run counts**: nothing, or the run itself, in one counter that has not counted it
    yet. -/
theorem outside_counts {rn : Runner X} {t t' : Task X} {a : RunAction} (m : RunManager X) (id : String)
    (hs : TaskStep rn t a t') :
    ((m.outside id a t.ctl t'.ctl).metrics = m.metrics ∧ t'.ctl.countedIn = t.ctl.countedIn) ∨
      ∃ name, name ∉ t.ctl.countedIn ∧ (m.outside id a t.ctl t'.ctl).metrics = m.metrics.inc name ∧
        t'.ctl.countedIn = t.ctl.countedIn ++ [name] := by
  cases hs with
  | count hc => rw [hc]; exact .inr ⟨metricRunsStarted, by simp [Ctl.countedIn], rfl, rfl⟩
  | launch hc => rw [hc]; exact .inl ⟨rfl, rfl⟩
  | call hc hp => rw [hc]; exact .inl ⟨rfl, rfl⟩
  | refuse hc hp hr => rw [hc]; exact .inl ⟨rfl, rfl⟩
  | reply hc hr => rw [hc]; exact .inl ⟨rfl, rfl⟩
  | emit hc => rw [hc]; exact .inl ⟨rfl, rfl⟩
  | runFailed hc => rw [hc]; exact .inr ⟨metricRunsFailed, by simp [Ctl.countedIn]; decide, rfl, rfl⟩
  | runReturned hc => rw [hc]; exact .inl ⟨rfl, rfl⟩
  | putRefused hc hp => rw [hc]; exact .inr ⟨metricRunsFailed, by simp [Ctl.countedIn]; decide, rfl, rfl⟩
  | inserted hc hp => rw [hc]; exact .inl ⟨rfl, rfl⟩
  | returned hc => rw [hc]; exact .inr ⟨metricRunsCompleted, by simp [Ctl.countedIn]; decide, rfl, rfl⟩
  | notPersisted hc => rw [hc]; exact .inr ⟨metricRunsFailed, by simp [Ctl.countedIn]; decide, rfl, rfl⟩
  | @setResult out hc => rw [hc]; cases out <;> exact .inl ⟨rfl, rfl⟩
  | @setState out hc => rw [hc]; cases out <;> exact .inl ⟨rfl, rfl⟩
  | @publish out hc => rw [hc]; cases out <;> exact .inl ⟨rfl, rfl⟩
  | subscribe => exact .inl ⟨rfl, rfl⟩
  | unsub => exact .inl ⟨rfl, rfl⟩
  | recv => exact .inl ⟨rfl, rfl⟩

/-- **The invariant of the counters.** Each counts the runs it has counted, and nothing else. -/
def Counted (m : RunManager X) : Prop :=
  ∀ name, m.metrics.get name = m.runs.countP fun t => decide (name ∈ t.ctl.countedIn)

theorem counted_new (runner : Runner X) (store : ReceiptStore X) :
    Counted (newRunManager runner store) := fun _ => rfl

/-- **Every step keeps the counters right.** -/
theorem Counted.step {m m' : RunManager X} {a : ManagerAction} (hr : Registry m) (h : Counted m)
    (hs : ManagerStep m a m') : Counted m' := by
  cases hs with
  | number => exact h
  | @register i r hi =>
      intro name
      -- a run enters the registry uncounted
      rw [AList.countP_insert_new (hr.fresh r (List.mem_of_getElem? hi))]
      simpa [Task.ofRun, Ctl.countedIn] using h name
  | @run id a t t' hl hp hs =>
      intro name
      have hcount := AList.countP_insert_old (p := fun t => decide (name ∈ t.ctl.countedIn)) (b := t') hl
      have hname := h name
      show (m.outside id a t.ctl t'.ctl).metrics.get name
        = (m.runs.insert id t').countP fun t => decide (name ∈ t.ctl.countedIn)
      rcases outside_counts m id hs with ⟨hmetrics, hkept⟩ | ⟨name', hnew, hmetrics, hadded⟩
      · rw [hmetrics]
        simp only [hkept] at hcount
        omega
      · rw [hmetrics, Metrics.get_inc]
        -- only the counter that is incremented now counts the run, and it did not before
        by_cases hn : name = name'
        · subst hn
          simp only [hadded, hnew, List.mem_append, List.mem_singleton, or_true, decide_true, decide_false,
            Bool.toNat_true, Bool.toNat_false] at hcount ⊢
          omega
        · simp only [hadded, List.mem_append, List.mem_singleton, hn, or_false, decide_false,
            Bool.toNat_false] at hcount ⊢
          omega
  | cleanup => exact h

/-! ## Conservation -/

theorem mem_started {ctl : Ctl X} : metricRunsStarted ∈ ctl.countedIn ↔ ctl ≠ .registered := by
  unfold Ctl.countedIn
  split <;> simp_all

theorem mem_completed {ctl : Ctl X} :
    metricRunsCompleted ∈ ctl.countedIn ↔ ∃ id phase, ctl = .finishing (.ok id) phase := by
  have hs : metricRunsCompleted ≠ metricRunsStarted := by decide
  have hf : metricRunsCompleted ≠ metricRunsFailed := by decide
  unfold Ctl.countedIn
  split <;> simp_all

theorem mem_failed {ctl : Ctl X} :
    metricRunsFailed ∈ ctl.countedIn ↔ ∃ e phase, ctl = .finishing (.error e) phase := by
  have hs : metricRunsFailed ≠ metricRunsStarted := by decide
  have hc : metricRunsFailed ≠ metricRunsCompleted := by decide
  unfold Ctl.countedIn
  split <;> simp_all

/-- No run is counted under both outcomes. -/
theorem one_outcome (ctl : Ctl X) :
    (decide (metricRunsCompleted ∈ ctl.countedIn) && decide (metricRunsFailed ∈ ctl.countedIn)) = false := by
  simp only [Bool.and_eq_false_iff, decide_eq_false_iff_not, mem_completed, mem_failed]
  by_cases h : ∃ id phase, ctl = .finishing (.ok id) phase
  · obtain ⟨id, phase, rfl⟩ := h
    exact .inr (by rintro ⟨e, phase', he⟩; cases he)
  · exact .inl h

/-- The runs with an outcome, counted together. -/
theorem Counted.outcomes {m : RunManager X} (h : Counted m) :
    m.completed + m.failed = m.runs.countP fun t =>
      decide (metricRunsCompleted ∈ t.ctl.countedIn) || decide (metricRunsFailed ∈ t.ctl.countedIn) := by
  rw [AList.countP_or m.runs fun t => one_outcome t.ctl]
  exact congrArg₂ _ (h _) (h _)

/-- A complete run has been counted complete. -/
theorem mem_completed_of_complete {t : Task X} (h : Consistent t) (hs : t.run.state = .complete) :
    metricRunsCompleted ∈ t.ctl.countedIn := by
  rw [h.state] at hs
  obtain ⟨out, hc⟩ := ctl_of_terminal (by rw [hs]; rfl)
  cases out with
  | ok id => exact mem_completed.mpr ⟨id, hc.elim (⟨_, ·⟩) (⟨_, ·⟩)⟩
  | error e => rcases hc with hc | hc <;> rw [hc] at hs <;> cases hs

/-- A failed run has been counted failed. -/
theorem mem_failed_of_failed {t : Task X} (h : Consistent t) (hs : t.run.state = .failed) :
    metricRunsFailed ∈ t.ctl.countedIn := by
  rw [h.state] at hs
  obtain ⟨out, hc⟩ := ctl_of_terminal (by rw [hs]; rfl)
  cases out with
  | ok id => rcases hc with hc | hc <;> rw [hc] at hs <;> cases hs
  | error e => exact mem_failed.mpr ⟨e, hc.elim (⟨_, ·⟩) (⟨_, ·⟩)⟩

/-- **The run counters are conserved.** At any moment of a manager no more runs have been counted complete or
    failed than started, and every complete or failed run has been counted so; once every `execute` has
    returned, every run started has been counted under its one outcome. Each counter counts each run at most
    once. -/
theorem run_counters_conserved (rn : Runner X) (store : ReceiptStore X) {as : List ManagerAction}
    {m : RunManager X} (h : exec RunManager.step (newRunManager rn store) as = some m) :
    m.completed + m.failed ≤ m.started ∧
    m.runsIn .complete ≤ m.completed ∧ m.runsIn .failed ≤ m.failed ∧
    (m.Quiet → m.started = m.completed + m.failed ∧ m.completed = m.runsIn .complete ∧
      m.failed = m.runsIn .failed) ∧
    ∀ name, m.metrics.get name = m.runs.countP fun t => decide (name ∈ t.ctl.countedIn) := by
  obtain ⟨_, hcounted⟩ : Registry m ∧ Counted m :=
    exec_invariant (P := fun m => Registry m ∧ Counted m)
      (fun _ _ _ hi hs => ⟨hi.1.step (manager_step hs), hi.2.step hi.1 (manager_step hs)⟩) as
      ⟨registry_new rn store, counted_new rn store⟩ h
  have hconsistent := (allRuns_exec consistent_ofRun (fun hi hs => hi.step hs) h).runs
  have hcomplete : ∀ id t, m.runs.lookup id = some t → t.run.state = .complete →
      metricRunsCompleted ∈ t.ctl.countedIn := fun id t hl => mem_completed_of_complete (hconsistent id t hl)
  have hfailed : ∀ id t, m.runs.lookup id = some t → t.run.state = .failed →
      metricRunsFailed ∈ t.ctl.countedIn := fun id t hl => mem_failed_of_failed (hconsistent id t hl)
  refine ⟨?_, ?_, ?_, ?_, hcounted⟩
  · rw [hcounted.outcomes, RunManager.started, hcounted]
    refine AList.countP_mono fun id t _ ht => ?_
    simp only [Bool.or_eq_true, decide_eq_true_eq, mem_started, mem_completed, mem_failed] at ht ⊢
    rcases ht with ⟨_, _, hc⟩ | ⟨_, _, hc⟩ <;> rw [hc] <;> nofun
  · rw [RunManager.completed, hcounted]
    exact AList.countP_mono fun id t hl ht => decide_eq_true (hcomplete id t hl (by simpa using ht))
  · rw [RunManager.failed, hcounted]
    exact AList.countP_mono fun id t hl ht => decide_eq_true (hfailed id t hl (by simpa using ht))
  · intro hquiet
    -- an outcome that has been counted is by now the state of the run
    have hended : ∀ id t, m.runs.lookup id = some t → ∀ {out phase}, t.ctl = .finishing out phase →
        t.run.state = Run.finalState out := by
      intro id t hl out phase hc
      rcases hquiet id t hl with hr | ⟨out', hc'⟩
      · rw [hc] at hr; cases hr
      · rw [hc] at hc'; cases hc'
        rw [(hconsistent id t hl).state, hc]; rfl
    refine ⟨?_, ?_, ?_⟩
    · rw [hcounted.outcomes, RunManager.started, hcounted]
      refine AList.countP_congr fun id t hl => ?_
      simp only [Bool.or_eq_true, decide_eq_true_eq, mem_started, mem_completed, mem_failed]
      rcases hquiet id t hl with hr | ⟨out, hc⟩
      · simp [hr]
      · cases out <;> simp [hc]
    · rw [RunManager.completed, hcounted]
      refine AList.countP_congr fun id t hl => ?_
      rw [decide_eq_true_eq, beq_iff_eq]
      refine ⟨fun hmem => ?_, hcomplete id t hl⟩
      obtain ⟨_, _, hc⟩ := mem_completed.mp hmem
      exact hended id t hl hc
    · rw [RunManager.failed, hcounted]
      refine AList.countP_congr fun id t hl => ?_
      rw [decide_eq_true_eq, beq_iff_eq]
      refine ⟨fun hmem => ?_, hfailed id t hl⟩
      obtain ⟨_, _, hc⟩ := mem_failed.mp hmem
      exact hended id t hl hc

/-- Between the increment and the start of `execute`: nothing runs, and a run is counted under no outcome. -/
theorem counted_before_execute : ∃ m, exec RunManager.step (newRunManager sampleNode { dir := "", runs := ∅ })
    [.number modeAnonymous "", .register 0, .run "run-1" .count] = some m ∧
      m.NoneExecuting ∧ m.started ≠ m.completed + m.failed := by
  have hrun : (exec RunManager.step (newRunManager sampleNode { dir := "", runs := ∅ })
      [.number modeAnonymous "", .register 0, .run "run-1" .count]).map
        (fun m => (m.started, m.completed, m.failed, m.runs.countP fun t => !t.ctl.isCounted))
          = some (1, 0, 0, 0) := by decide +kernel
  obtain ⟨m, hm, heq⟩ := Option.map_eq_some_iff.mp hrun
  simp only [Prod.mk.injEq] at heq
  obtain ⟨hstarted, hcompleted, hfailed, hctl⟩ := heq
  refine ⟨m, hm, fun id t hl => .inr (.inl ?_), by rw [hstarted, hcompleted, hfailed]; decide⟩
  have hcounted := AList.countP_eq_zero.mp hctl id t hl
  cases hc : t.ctl <;> rw [hc] at hcounted <;> first | rfl | cases hcounted

/-- After one anonymous run of the stand-in's server, to its end. -/
theorem run_counters_conserved_sample : ∃ m,
    exec RunManager.step (newRunManager sampleNode { dir := "", runs := ∅ }) endedActions = some m ∧ m.Quiet ∧
    m.started = 1 ∧ m.started = m.completed + m.failed ∧ m.completed = m.runsIn .complete ∧
    m.failed = m.runsIn .failed := by
  have hrun : (exec RunManager.step (newRunManager sampleNode { dir := "", runs := ∅ }) endedActions).map
      (fun m => (m.started, m.runs.countP fun t => !t.ctl.isEnded)) = some (1, 0) := by decide +kernel
  obtain ⟨m, hm, hpair⟩ := Option.map_eq_some_iff.mp hrun
  obtain ⟨hstarted, hended⟩ := Prod.mk.inj hpair
  have hquiet : m.Quiet := fun id t hl =>
    .inr (Ctl.isEnded_iff.mp (by simpa using AList.countP_eq_zero.mp hended id t hl))
  obtain ⟨_, _, _, hconserved, _⟩ := run_counters_conserved sampleNode _ hm
  exact ⟨m, hm, hquiet, hstarted, hconserved hquiet⟩

end Api
end InfrixPlayground
