import InfrixPlayground.Api.Server

/-!
# `Api.Admission` — every call to the node has been admitted

Three invariants carry the result. `Calls` is about the run manager: a run calls the node at most once, for
what it was asked for. `Request.Fits` is about one request: how far its handling got, what the limiter
answered it, and which run it started. `Admitted` ties the two together: every run the manager knows belongs
to one request.
-/

namespace InfrixPlayground
namespace Api

open Worker Machine

variable {X : Externals}

/-! ## One call for each run -/

/-- The calls to the node a run made. -/
def callsOf (id : String) (log : List (LogEntry X)) : List NodeCall :=
  log.filterMap fun
    | .called id' call => if id' = id then some call else none
    | _ => none

@[simp] theorem callsOf_append (id : String) (log new : List (LogEntry X)) :
    callsOf id (log ++ new) = callsOf id log ++ callsOf id new := by
  rw [callsOf, List.filterMap_append]; rfl

theorem callsOf_called (id id' : String) (call : NodeCall) :
    callsOf (X := X) id' [.called id call] = if id = id' then [call] else [] := by
  rw [callsOf, List.filterMap_cons, List.filterMap_nil]
  split <;> simp_all

/-- Entries that are no calls. -/
theorem callsOf_quiet {id : String} {new : List (LogEntry X)}
    (hnew : ∀ entry ∈ new, ∀ call, entry ≠ .called id call) : callsOf id new = [] := by
  refine List.filterMap_eq_nil_iff.mpr fun entry hmem => ?_
  cases entry with
  | called id' call =>
      refine if_neg ?_
      rintro rfl
      exact hnew _ hmem call rfl
  | inserted => rfl
  | returned => rfl
  | removed => rfl

/-- A `Cleanup` makes no call. -/
theorem callsOf_removed (store : ReceiptStore X) (cut : Time) (id : String) :
    callsOf id ((store.expired cut).filterMap fun id => (store.get id).map (.removed cut)) = [] := by
  refine callsOf_quiet fun entry hmem call heq => ?_
  obtain ⟨e, he⟩ := eq_removed_of_mem hmem
  rw [heq] at he
  cases he

theorem mem_callsOf {id : String} {call : NodeCall} {log : List (LogEntry X)} :
    call ∈ callsOf id log ↔ .called id call ∈ log := by
  rw [callsOf, List.mem_filterMap]
  constructor
  · rintro ⟨entry, hmem, he⟩
    cases entry with
    | called id' call' =>
        dsimp only at he
        split at he
        · rename_i hid; cases he; rw [← hid]; exact hmem
        · cases he
    | inserted => cases he
    | returned => cases he
    | removed => cases he
  · intro hmem
    exact ⟨_, hmem, if_pos rfl⟩

/-- The goroutine is past its call. -/
def Ctl.Called : Ctl X → Prop
  | .registered => False
  | .counted => False
  | .executing => False
  | _ => True

/-- A goroutine never comes back to its call. -/
theorem TaskStep.called {rn : Runner X} {t t' : Task X} {a : RunAction} (hs : TaskStep rn t a t')
    (h : t.ctl.Called) : t'.ctl.Called := by
  cases hs with
  | count hc => rw [hc] at h; exact h.elim
  | launch hc => rw [hc] at h; exact h.elim
  | subscribe => exact h
  | unsub => exact h
  | recv => exact h
  | _ => exact trivial

/-- **The invariant of the calls.** A run has called the node only for what it was asked for, and only
    once. -/
structure Calls (m : RunManager X) : Prop where
  made : ∀ id call, .called id call ∈ m.log → ∃ t, m.runs.lookup id = some t ∧ t.ctl.Called ∧
    m.runner.pendingCall t.run.mode t.run.flow = some call
  once : ∀ id, (callsOf id m.log).length ≤ 1

theorem calls_new (runner : Runner X) (store : ReceiptStore X) : Calls (newRunManager runner store) :=
  ⟨fun _ _ h => absurd h List.not_mem_nil, fun _ => Nat.zero_le _⟩

/-- A run that has not called has no call in the log. -/
theorem Calls.eq_nil {m : RunManager X} (h : Calls m) {id : String}
    (hno : ∀ t, m.runs.lookup id = some t → ¬ t.ctl.Called) : callsOf id m.log = [] := by
  refine List.eq_nil_iff_forall_not_mem.mpr fun call hmem => ?_
  obtain ⟨t, hl, hc, _⟩ := h.made id call (mem_callsOf.mp hmem)
  exact hno t hl hc

/-- **What a step adds to the calls of a run**: the one call the run itself makes. -/
theorem ManagerStep.callsOf_cases {m m' : RunManager X} {a : ManagerAction} (hs : ManagerStep m a m')
    (id : String) : callsOf id m'.log = callsOf id m.log ∨ ∃ call b t t',
      callsOf id m'.log = callsOf id m.log ++ [call] ∧ m.runs.lookup id = some t ∧
        TaskStep m.runner t b t' ∧ m'.runs.lookup id = some t' ∧ t.ctl = .executing ∧
        t'.ctl = .waiting call ∧ m.runner.pendingCall t.run.mode t.run.flow = some call := by
  cases hs with
  | number => exact .inl rfl
  | register hi => exact .inl rfl
  | @run id' b t t' hl hp hs =>
      -- a new entry that is no call leaves the calls as they are
      have hquiet : ∀ entry, (m.outside id' b t.ctl t'.ctl).log = m.log ++ [entry] →
          (∀ call, entry ≠ .called id call) →
          callsOf id (m.outside id' b t.ctl t'.ctl).log = callsOf id m.log := by
        intro entry hlog hno
        have hone : callsOf id [entry] = [] := by
          refine callsOf_quiet fun entry' hmem call => ?_
          rw [List.mem_singleton.mp hmem]
          exact hno call
        rw [hlog, callsOf_append, hone, List.append_nil]
      rcases outside_cases m id' hs with ⟨call, hctl, hpend, hexec, _, hlog, _⟩ |
        ⟨rec, _, _, hlog, _⟩ | ⟨rec, _, _, hlog, _⟩ | ⟨_, hlog, _⟩
      · by_cases hid : id' = id
        · subst hid
          refine .inr ⟨call, b, t, t', ?_, hl, hs, AList.lookup_insert _, hexec, hctl, hpend⟩
          show callsOf id' (m.outside id' b t.ctl t'.ctl).log = _
          rw [hlog, callsOf_append, callsOf_called, if_pos rfl]
        · refine .inl (hquiet _ hlog fun call' he => ?_)
          cases he
          exact hid rfl
      · exact .inl (hquiet _ hlog nofun)
      · exact .inl (hquiet _ hlog nofun)
      · exact .inl (congrArg (callsOf id) hlog)
  | cleanup =>
      refine .inl ?_
      show callsOf id (m.log ++ _) = _
      rw [callsOf_append, callsOf_removed, List.append_nil]

/-- The calls made before a step are still those of their runs. -/
theorem Calls.kept {m m' : RunManager X} {a : ManagerAction} (hr : Registry m) (h : Calls m)
    (hs : ManagerStep m a m') {id : String} {call : NodeCall} (hmem : .called id call ∈ m.log) :
    ∃ t, m'.runs.lookup id = some t ∧ t.ctl.Called ∧
      m'.runner.pendingCall t.run.mode t.run.flow = some call := by
  obtain ⟨t, hl, hc, hpend⟩ := h.made id call hmem
  rw [hs.runner_eq]
  obtain ⟨t', hl', rfl | ⟨b, hb⟩⟩ := hs.after hr hl
  · exact ⟨t', hl', hc, hpend⟩
  · exact ⟨t', hl', hb.called hc, by rw [hb.asked.1, hb.asked.2]; exact hpend⟩

/-- **Every step keeps it.** -/
theorem Calls.step {m m' : RunManager X} {a : ManagerAction} (hr : Registry m) (h : Calls m)
    (hs : ManagerStep m a m') : Calls m' := by
  constructor
  · intro id call hmem
    rw [← mem_callsOf] at hmem
    rcases hs.callsOf_cases id with heq | ⟨call', b, t, t', heq, hl, hb, hl', hexec, hctl, hpend⟩
    · rw [heq, mem_callsOf] at hmem
      exact h.kept hr hs hmem
    · rw [heq, List.mem_append, List.mem_singleton] at hmem
      rcases hmem with hmem | rfl
      · exact h.kept hr hs (mem_callsOf.mp hmem)
      · refine ⟨t', hl', by rw [hctl]; trivial, ?_⟩
        rw [hs.runner_eq, hb.asked.1, hb.asked.2]
        exact hpend
  · intro id
    rcases hs.callsOf_cases id with heq | ⟨call, b, t, t', heq, hl, hb, hl', hexec, hctl, hpend⟩
    · rw [heq]
      exact h.once id
    · -- the run that makes this call has made none before
      have hnone : callsOf id m.log = [] := by
        refine h.eq_nil fun u hu hcalled => ?_
        cases Option.some.inj (hl.symm.trans hu)
        rw [hexec] at hcalled
        exact hcalled
      rw [heq, hnone]
      exact Nat.le_refl 1

/-! ## One request -/

/-- The limiter has not been asked. -/
def Request.Unasked (q : Request) : Prop := q.decisions = [] ∧ q.started = []

/-- The limiter was asked once, and said no. -/
def Request.Denied (q : Request) : Prop :=
  (∃ d, q.decisions = [d] ∧ d.allowed = false) ∧ q.started = []

/-- The limiter was asked once, and said yes. -/
def Request.Allowed (q : Request) : Prop := ∃ d, q.decisions = [d] ∧ d.allowed = true

/-- **The invariant of a request**: what it has obtained and started at each stage. -/
def Request.Fits (q : Request) : Prop :=
  match q.stage with
  | .received => q.Unasked
  | .refused r | .refusing r => (r.status = 400 ∨ r.status = 409) ∧ q.Unasked
  | .screened p => p.flow ∈ playgroundFlows ∧ q.Unasked
  | .denied _ | .denying _ => q.Denied
  | .admitted p => p.flow ∈ playgroundFlows ∧ q.Allowed ∧ q.started = []
  | .answered reply =>
    (reply.status = 400 ∨ reply.status = 409) ∧ q.Unasked ∨ reply.status = 429 ∧ q.Denied ∨
      ¬ reply.Refuses ∧ q.Allowed ∧ ∃ id, q.started = [id]
  | _ => q.Allowed ∧ ∃ id, q.started = [id]

/-- Once `Start` has been entered, the request was allowed and has its run. -/
theorem Request.Fits.returned {q : Request} (h : q.Fits) (hc : q.stage.Returned) :
    q.Allowed ∧ ∃ id, q.started = [id] := by
  unfold Request.Fits at h
  cases hs : q.stage <;> rw [hs] at h hc <;> first | exact h | exact hc.elim

/-- A request has no run, or one. -/
theorem Request.Fits.started_cases {q : Request} (h : q.Fits) :
    q.started = [] ∨ ∃ id, q.started = [id] := by
  unfold Request.Fits at h
  split at h
  · exact .inl h.2
  · exact .inl h.2.2
  · exact .inl h.2.2
  · exact .inl h.2.2
  · exact .inl h.2
  · exact .inl h.2
  · exact .inl h.2.2
  · rcases h with ⟨_, _, hnone⟩ | ⟨_, _, hnone⟩ | ⟨_, _, hone⟩
    · exact .inl hnone
    · exact .inl hnone
    · exact .inr hone
  · exact .inr h.2

/-- A request with a run was allowed. -/
theorem Request.Fits.allowed_of_started {q : Request} (h : q.Fits) (hs : q.started ≠ []) : q.Allowed := by
  unfold Request.Fits at h
  split at h
  · exact absurd h.2 hs
  · exact absurd h.2.2 hs
  · exact absurd h.2.2 hs
  · exact absurd h.2.2 hs
  · exact absurd h.2 hs
  · exact absurd h.2 hs
  · exact h.2.1
  · rcases h with ⟨_, _, hnone⟩ | ⟨_, _, hnone⟩ | ⟨_, hallowed, _⟩
    · exact absurd hnone hs
    · exact absurd hnone hs
    · exact hallowed
  · exact h.1

/-- **A step of the handling** keeps the request consistent. -/
theorem Request.Fits.step {s s' : Server X} {q q' : Request} {now : Time}
    (hguard : s.guard = newAbuseGuard) (h : q.Fits) (hs : HandleStep s q now s' q') : q'.Fits := by
  have hfits := h
  unfold Request.Fits at h
  cases hs with
  | @refuse kermitDisabled r hc hr =>
      rw [hc] at h
      -- a refusal that is counted is answered one step later
      by_cases hcounted : r.counted = true
      · rw [if_pos hcounted]
        exact ⟨screen_error hr, h⟩
      · rw [if_neg hcounted]
        exact .inl ⟨screen_error hr, h⟩
  | pass hc hp =>
      rw [hc] at h
      rw [hguard] at hp
      exact ⟨(screen_ok hp).1, h⟩
  | countRefused hc => rw [hc] at h; exact h
  | replyRefused hc =>
      rw [hc] at h
      exact .inl h
  | @ask p limiter d hc hd =>
      rw [hc] at h
      obtain ⟨hflow, hnone, hstarted⟩ := h
      -- this is the only place that asks the limiter, and nothing was asked before
      have hone : q.decisions ++ [d] = [d] := by rw [hnone]; rfl
      cases hallowed : d.allowed with
      | true => exact ⟨hflow, ⟨d, hone, hallowed⟩, hstarted⟩
      | false => exact ⟨⟨d, hone, hallowed⟩, hstarted⟩
  | countDenied hc => rw [hc] at h; exact h
  | replyDenied hc =>
      rw [hc] at h
      exact .inr (.inl ⟨rfl, h⟩)
  | number hc hs =>
      rw [hc] at h
      obtain ⟨_, hallowed, hstarted⟩ := h
      exact ⟨hallowed, _, congrArg (· ++ _) hstarted⟩
  | register hc hs => rw [hc] at h; exact h
  | count hc hs => rw [hc] at h; exact h
  | launch hc hs => rw [hc] at h; exact h
  | @wait stage hc hst =>
      have hq := hfits.returned hc
      cases stage <;> first | exact hq | exact hst.elim
  | answer hc hr => exact .inr (.inr ⟨hr, hfits.returned hc⟩)

/-- What only an allowed request changes: the registry, the run counter, the `runs_started` counter and the
    store. -/
structure SameRuns (s s' : Server X) : Prop where
  starting : s'.runs.starting = s.runs.starting
  runs : s'.runs.runs = s.runs.runs
  counter : s'.runs.counter = s.runs.counter
  runsStarted : s'.runs.metrics.lookup metricRunsStarted = s.runs.metrics.lookup metricRunsStarted
  store : s'.runs.store = s.runs.store

theorem SameRuns.refl (s : Server X) : SameRuns s s := ⟨rfl, rfl, rfl, rfl, rfl⟩

/-- Counting something else changes none of it. -/
theorem SameRuns.inc {name : String} (h : name ≠ metricRunsStarted) (s : Server X) :
    SameRuns s (s.inc name) :=
  ⟨rfl, rfl, rfl, AList.lookup_insert_ne h.symm, rfl⟩

/-- **Before the limiter said yes**, the handling of a request changes no run and no record. -/
theorem Request.Fits.sameRuns {s s' : Server X} {q q' : Request} {now : Time} (h : q.Fits)
    (hs : HandleStep s q now s' q') : SameRuns s s' ∨ q.Allowed := by
  unfold Request.Fits at h
  cases hs with
  | refuse hc hr => exact .inl (.refl s)
  | pass hc hp => exact .inl (.refl s)
  | countRefused hc => exact .inl (.inc (by decide) s)
  | replyRefused hc => exact .inl (.refl s)
  | ask hc hd => exact .inl ⟨rfl, rfl, rfl, rfl, rfl⟩
  | countDenied hc => exact .inl (.inc (by decide) s)
  | replyDenied hc => exact .inl (.refl s)
  | number hc hs => rw [hc] at h; exact .inr h.2.1
  | register hc hs => rw [hc] at h; exact .inr h.1
  | count hc hs => rw [hc] at h; exact .inr h.1
  | launch hc hs => rw [hc] at h; exact .inr h.1
  | wait hc hst => exact .inl (.refl s)
  | answer hc hr => exact .inl (.refl s)

/-- The limiter's decisions accumulate, and only with a decision does the limiter change. -/
theorem HandleStep.decisions {s s' : Server X} {q q' : Request} {now : Time}
    (hs : HandleStep s q now s' q') :
    q.decisions <+: q'.decisions ∧ (s'.limiter = s.limiter ∨ q'.decisions ≠ []) := by
  cases hs with
  | ask hc hd => exact ⟨List.prefix_append .., .inr (by simp)⟩
  | _ => exact ⟨List.prefix_rfl, .inl rfl⟩

/-- **A refused request** was never allowed, and refused with 400 or 409 it never reached the limiter. -/
theorem Request.Fits.refused {q : Request} {reply : Reply} (h : q.Fits) (hq : q.stage = .answered reply)
    (hr : reply.Refuses) : (∀ d ∈ q.decisions, d.allowed = false) ∧
      (reply.status = 400 ∨ reply.status = 409 → q.decisions = []) := by
  unfold Request.Fits at h
  rw [hq] at h
  rcases h with ⟨_, hnone, _⟩ | ⟨hstatus, ⟨d, hd, hdenied⟩, _⟩ | ⟨hno, _⟩
  · exact ⟨by rw [hnone]; exact nofun, fun _ => hnone⟩
  · refine ⟨fun d' hd' => ?_, fun h => by omega⟩
    rw [hd, List.mem_singleton] at hd'
    rw [hd']
    exact hdenied
  · exact absurd hr hno

/-! ## All requests -/

/-- The runs that the `i`-th request started. -/
def Serving.startedBy (s : Serving X) (i : Nat) : List String := (s.requests[i]?).elim [] Request.started

/-- A run the manager knows: it has its number. -/
def RunManager.Knows (m : RunManager X) (id : String) : Prop :=
  (∃ r ∈ m.starting, r.id = id) ∨ ∃ t, m.runs.lookup id = some t

/-- Only `Start` makes the manager know another run. -/
theorem ManagerStep.knows {m m' : RunManager X} {a : ManagerAction} (hs : ManagerStep m a m')
    {id : String} (h : m'.Knows id) :
    m.Knows id ∨ (∃ mode flow, a = .number mode flow) ∧ id = runName (m.counter + 1) := by
  rcases h with ⟨r, hr, hid⟩ | ⟨t', hl⟩
  · rcases hs.starting_cases hr with hr | ⟨mode, flow, ha, rfl⟩
    · exact .inl (.inl ⟨r, hr, hid⟩)
    · exact .inr ⟨⟨mode, flow, ha⟩, hid.symm⟩
  · rcases hs.before hl with ⟨r, hr, hid, _⟩ | ⟨t, hl, _⟩
    · exact .inl (.inl ⟨r, hr, hid⟩)
    · exact .inl (.inr ⟨t, hl⟩)

theorem ManagerStep.counter_le {m m' : RunManager X} {a : ManagerAction} (hs : ManagerStep m a m') :
    m.counter ≤ m'.counter := by
  cases hs with
  | number => exact Nat.le_succ _
  | run hl hp hs => exact Nat.le_of_eq (outside_counter ..).symm
  | _ => exact Nat.le_refl _

theorem ManagerStep.number_counter {m m' : RunManager X} {mode : Mode} {flow : String}
    (hs : ManagerStep m (.number mode flow) m') : m'.counter = m.counter + 1 := by
  cases hs; rfl

/-- **The invariant of the run manager**, behind the gate. -/
structure Gated (cfg : Config) (m : RunManager X) : Prop where
  runner : m.runner = .new X cfg.runFlowEndpoint cfg.kermitAvailable
  registry : Registry m
  calls : Calls m
  starting_flow : ∀ r ∈ m.starting, r.flow ∈ playgroundFlows
  run_flow : ∀ id t, m.runs.lookup id = some t → t.run.flow ∈ playgroundFlows

/-- **Every step** keeps it, if runs are only started with a flow of the playground. -/
theorem Gated.step {cfg : Config} {m m' : RunManager X} {a : ManagerAction} (h : Gated cfg m)
    (hs : ManagerStep m a m') (hflow : ∀ mode flow, a = .number mode flow → flow ∈ playgroundFlows) :
    Gated cfg m' := by
  refine ⟨hs.runner_eq.trans h.runner, h.registry.step hs, h.calls.step h.registry hs, fun r hr => ?_,
    fun id t' hl => ?_⟩
  · rcases hs.starting_cases hr with hr | ⟨mode, flow, ha, rfl⟩
    · exact h.starting_flow r hr
    · -- `Start` falls back to the golden escrow when no flow is given
      show (if flow = "" then flowGoldenEscrow else flow) ∈ playgroundFlows
      split
      · decide
      · exact hflow mode flow ha
  · rcases hs.before hl with ⟨r, hr, _, rfl⟩ | ⟨t, hl, rfl | ⟨b, hb⟩⟩
    · exact h.starting_flow r hr
    · exact h.run_flow id t' hl
    · rw [hb.asked.2]
      exact h.run_flow id t hl

/-- The counters have no part in it. -/
theorem Gated.inc {cfg : Config} {m : RunManager X} (h : Gated cfg m) (metrics : Metrics) :
    Gated cfg { m with metrics := metrics } :=
  ⟨h.runner, ⟨h.registry.starting_named, h.registry.runs_named, h.registry.fresh, h.registry.nodup⟩,
    ⟨h.calls.made, h.calls.once⟩, h.starting_flow, h.run_flow⟩

/-- **What a call says**: a flow of the playground, in a mode the instance offers. -/
theorem Gated.call {cfg : Config} {m : RunManager X} (h : Gated cfg m) {id : String} {call : NodeCall}
    (hcall : .called id call ∈ m.log) : call.request.flow ∈ playgroundFlows ∧
      (call.request.mode = modeAnonymous.name ∨
        call.request.mode = modeKermit.name ∧ cfg.kermitAvailable = true) := by
  obtain ⟨t, hl, _, hpend⟩ := h.calls.made id call hcall
  obtain ⟨hmode, hnode⟩ := pendingCall_eq_some.mp hpend
  have hdefault : ∀ flow ∈ playgroundFlows, defaultFlow (defaultFlow flow) = flow := by decide +kernel
  rw [nodeCall_request hnode]
  constructor
  · rw [hdefault _ (h.run_flow id t hl)]
    exact h.run_flow id t hl
  · rw [h.runner] at hmode
    unfold Runner.modeError at hmode
    split at hmode
    · rename_i ha; exact .inl (congrArg Mode.name ha)
    · split at hmode
      · rename_i hk
        refine .inr ⟨congrArg Mode.name hk, ?_⟩
        -- the runner refuses kermit mode before it calls the node
        by_contra hoff
        simp [Runner.kermitEnabled, Runner.new, hoff] at hmode
      · cases hmode

/-- **The invariant of the server.** Every run belongs to one request. -/
structure Admitted (cfg : Config) (s : Serving X) : Prop where
  guard : s.server.guard = newAbuseGuard
  gated : Gated cfg s.server.runs
  fits : ∀ (i : Nat) (q : Request), s.requests[i]? = some q → q.Fits
  named : ∀ i, ∀ id ∈ s.startedBy i, ∃ k, k ≤ s.server.runs.counter ∧ id = runName k
  owned : ∀ id, s.server.runs.Knows id → ∃ i, id ∈ s.startedBy i
  apart : ∀ i j id, id ∈ s.startedBy i → id ∈ s.startedBy j → i = j

theorem admitted_new {C : RunCodec X} {os : Disk} {cfg : Config} {files : FilePath.Files C.Data}
    {server : Server X} (h : newServer C os cfg files = .ok server) : Admitted cfg (Serving.new server) := by
  unfold newServer at h
  split at h
  · cases h
  · rename_i store _
    cases h
    have hnone : ∀ id t, (newRunManager (.new X cfg.runFlowEndpoint cfg.kermitAvailable)
        store).runs.lookup id ≠ some t := by
      intro id t hl
      rw [lookup_new] at hl
      cases hl
    refine ⟨rfl, ⟨rfl, registry_new _ _, calls_new _ _, fun _ h => absurd h List.not_mem_nil,
      fun id t hl => absurd hl (hnone id t)⟩, nofun, nofun, ?_, nofun⟩
    rintro id (⟨r, hr, _⟩ | ⟨t, ht⟩)
    · exact absurd hr List.not_mem_nil
    · exact absurd ht (hnone id t)

/-- A step that starts no run. -/
theorem Admitted.quiet {cfg : Config} {s s' : Serving X} (h : Admitted cfg s)
    (hguard : s'.server.guard = s.server.guard) (hgated : Gated cfg s'.server.runs)
    (hcounter : s.server.runs.counter ≤ s'.server.runs.counter)
    (hknows : ∀ id, s'.server.runs.Knows id → s.server.runs.Knows id)
    (hfits : ∀ (i : Nat) (q : Request), s'.requests[i]? = some q → q.Fits)
    (hstarted : ∀ i, s'.startedBy i = s.startedBy i) : Admitted cfg s' := by
  refine ⟨hguard.trans h.guard, hgated, hfits, fun i id hid => ?_, fun id hid => ?_, fun i j id hi hj => ?_⟩
  · rw [hstarted] at hid
    obtain ⟨k, hk, hname⟩ := h.named i id hid
    exact ⟨k, Nat.le_trans hk hcounter, hname⟩
  · obtain ⟨i, hi⟩ := h.owned id (hknows id hid)
    exact ⟨i, by rw [hstarted]; exact hi⟩
  · rw [hstarted] at hi hj
    exact h.apart i j id hi hj

/-- The requests after one more came in. -/
theorem getElem?_append_cases {l : List Request} {i : Nat} {q u : Request}
    (h : (l ++ [q])[i]? = some u) : l[i]? = some u ∨ l[i]? = none ∧ u = q := by
  rw [List.getElem?_append] at h
  split at h
  · exact .inl h
  · rename_i hge
    refine .inr ⟨List.getElem?_eq_none_iff.mpr (Nat.le_of_not_lt hge), ?_⟩
    exact (List.mem_singleton.mp (List.mem_of_getElem? h))

/-- The requests after a step of one of them. -/
theorem getElem?_replace {l : List Request} {i : Nat} {q : Request} (hq : l[i]? = some q) (q' : Request)
    (j : Nat) : (l.set i q')[j]? = if j = i then some q' else l[j]? := by
  obtain ⟨hlt, _⟩ := List.getElem?_eq_some_iff.mp hq
  by_cases hji : j = i
  · rw [if_pos hji, hji, List.getElem?_set_self hlt]
  · rw [if_neg hji, List.getElem?_set_ne (Ne.symm hji)]

theorem getElem?_set_cases {l : List Request} {i j : Nat} {q q' u : Request} (hq : l[i]? = some q)
    (h : (l.set i q')[j]? = some u) : (j = i ∧ u = q') ∨ (j ≠ i ∧ l[j]? = some u) := by
  rw [getElem?_replace hq] at h
  split at h
  · rename_i hji; exact .inl ⟨hji, (Option.some.inj h).symm⟩
  · rename_i hji; exact .inr ⟨hji, h⟩

/-- What is kept of a request, after a step of one of them. -/
theorem elim_replace {β : Type} {f : Request → List β} {l : List Request} {i : Nat} {q : Request}
    (hq : l[i]? = some q) (q' : Request) (j : Nat) :
    ((l.set i q')[j]?).elim [] f = if j = i then f q' else (l[j]?).elim [] f := by
  rw [getElem?_replace hq]
  split <;> rfl

/-- What is kept of a request, after one more came in of which there is nothing to keep. -/
theorem elim_append {β : Type} {f : Request → List β} {q : Request} (hf : f q = []) (l : List Request)
    (i : Nat) : ((l ++ [q])[i]?).elim [] f = (l[i]?).elim [] f := by
  cases hu : (l ++ [q])[i]? with
  | none =>
      have hnone : l[i]? = none := by
        rw [List.getElem?_eq_none_iff] at hu ⊢
        exact Nat.le_trans (by simp) hu
      rw [hnone]
  | some u =>
      rcases getElem?_append_cases hu with hold | ⟨hnone, rfl⟩
      · rw [hold]
      · rw [hnone]
        exact hf

/-- What relates each request to itself and one request to what it became relates all of them. -/
theorem exists_replace {R : Request → Request → Prop} {l : List Request} {i : Nat} {q q' : Request}
    (hq : l[i]? = some q) (hrefl : ∀ u, R u u) (h : R q q') (j : Nat) (u : Request) (hu : l[j]? = some u) :
    ∃ u', (l.set i q')[j]? = some u' ∧ R u u' := by
  rw [getElem?_replace hq]
  split
  · rename_i hji
    subst hji
    cases Option.some.inj (hq.symm.trans hu)
    exact ⟨q', rfl, h⟩
  · exact ⟨u, hu, hrefl u⟩

theorem startedBy_set {s : Serving X} {server : Server X} {i j : Nat} {q q' : Request}
    (hq : s.requests[i]? = some q) :
    Serving.startedBy { server := server, requests := s.requests.set i q' } j
      = if j = i then q'.started else s.startedBy j :=
  elim_replace hq q' j

/-- The same runs, whoever's step it was. -/
theorem startedBy_set_same {s : Serving X} {server : Server X} {i : Nat} {q q' : Request}
    (hq : s.requests[i]? = some q) (hsame : q'.started = q.started) (j : Nat) :
    Serving.startedBy { server := server, requests := s.requests.set i q' } j = s.startedBy j := by
  rw [startedBy_set hq]
  split
  · rename_i hji
    rw [hsame, hji, Serving.startedBy, hq]
    rfl
  · rfl

theorem HandleStep.guard_eq {s s' : Server X} {q q' : Request} {now : Time}
    (hs : HandleStep s q now s' q') : s'.guard = s.guard := by
  cases hs <;> rfl

/-- A request that started its one run, and the runs of the others. -/
theorem mem_startedBy_set {s : Serving X} {server : Server X} {i j : Nat} {q q' : Request} {run id : String}
    (hq : s.requests[i]? = some q) (hrun : q'.started = [run])
    (h : id ∈ Serving.startedBy { server := server, requests := s.requests.set i q' } j) :
    (j = i ∧ id = run) ∨ id ∈ s.startedBy j := by
  rw [startedBy_set hq] at h
  split at h
  · rename_i hji
    rw [hrun, List.mem_singleton] at h
    exact .inl ⟨hji, h⟩
  · exact .inr h

/-- The next number is that of no run started so far. -/
theorem Admitted.next_unstarted {cfg : Config} {s : Serving X} (h : Admitted cfg s) (j : Nat) :
    runName (s.server.runs.counter + 1) ∉ s.startedBy j := by
  intro hj
  obtain ⟨k, hk, hname⟩ := h.named j _ hj
  have := runName_inj hname
  omega

/-- A step of one request keeps them all consistent. -/
theorem Admitted.fits_set {cfg : Config} {s : Serving X} (h : Admitted cfg s) {i : Nat} {q q' : Request}
    (hq : s.requests[i]? = some q) (hq' : q'.Fits) (j : Nat) (u : Request)
    (hu : (s.requests.set i q')[j]? = some u) : u.Fits := by
  rcases getElem?_set_cases hq hu with ⟨_, rfl⟩ | ⟨_, hu⟩
  · exact hq'
  · exact h.fits j u hu

/-- **A step of a request.** -/
theorem Admitted.handle {cfg : Config} {s : Serving X} (h : Admitted cfg s) {i : Nat} {now : Time}
    {q q' : Request} {server : Server X} (hq : s.requests[i]? = some q)
    (hs : HandleStep s.server q now server q') :
    Admitted cfg { server := server, requests := s.requests.set i q' } := by
  have hfits := h.fits_set hq ((h.fits i q hq).step h.guard hs)
  rcases hs.manager with ⟨⟨metrics, hruns⟩, hstarted⟩ | ⟨a, hm, hno, hstarted⟩ | ⟨p, hc, hm, hstarted⟩
  · refine h.quiet hs.guard_eq (by rw [hruns]; exact h.gated.inc metrics) (by rw [hruns]) (fun id hid => ?_)
      hfits (startedBy_set_same hq hstarted)
    rw [hruns] at hid
    exact hid
  · refine h.quiet hs.guard_eq (h.gated.step hm fun mode flow he => absurd he (hno mode flow)) hm.counter_le
      (fun id hid => ?_) hfits (startedBy_set_same hq hstarted)
    rcases hm.knows hid with hold | ⟨⟨mode, flow, he⟩, _⟩
    · exact hold
    · exact absurd he (hno mode flow)
  · -- a new run, with a number that was never given
    have hq_fits := h.fits i q hq
    unfold Request.Fits at hq_fits
    rw [hc] at hq_fits
    obtain ⟨hflow, _, hnone⟩ := hq_fits
    rw [hnone, List.nil_append] at hstarted
    have hby : ∀ j id, id ∈ Serving.startedBy { server := server, requests := s.requests.set i q' } j →
        (j = i ∧ id = runName (s.server.runs.counter + 1)) ∨ id ∈ s.startedBy j :=
      fun j id => mem_startedBy_set hq hstarted
    refine ⟨hs.guard_eq.trans h.guard, h.gated.step hm ?_, hfits, fun j id hid => ?_, fun id hid => ?_,
      fun j j' id hj hj' => ?_⟩
    · intro mode flow he
      cases he
      exact hflow
    · have hcounter : server.runs.counter = s.server.runs.counter + 1 := hm.number_counter
      rcases hby j id hid with ⟨_, rfl⟩ | hid
      · exact ⟨_, Nat.le_of_eq hcounter.symm, rfl⟩
      · obtain ⟨k, hk, hname⟩ := h.named j id hid
        exact ⟨k, Nat.le_trans hk hm.counter_le, hname⟩
    · rcases hm.knows hid with hold | ⟨_, rfl⟩
      · obtain ⟨j, hj⟩ := h.owned id hold
        refine ⟨j, ?_⟩
        rw [startedBy_set hq, if_neg]
        · exact hj
        · rintro rfl
          rw [Serving.startedBy, hq] at hj
          rw [show (some q).elim [] Request.started = q.started from rfl, hnone] at hj
          exact absurd hj List.not_mem_nil
      · exact ⟨i, by rw [startedBy_set hq, if_pos rfl, hstarted]; exact List.mem_singleton_self _⟩
    · rcases hby j id hj with ⟨hji, hid⟩ | hj <;> rcases hby j' id hj' with ⟨hji', hid'⟩ | hj'
      · rw [hji, hji']
      · exact absurd (hid ▸ hj') (h.next_unstarted j')
      · exact absurd (hid' ▸ hj) (h.next_unstarted j)
      · exact h.apart j j' id hj hj'

/-- **Every step of the machine.** -/
theorem Admitted.step {cfg : Config} {s s' : Serving X} {a : ServingAction} (h : Admitted cfg s)
    (hs : ServingStep s a s') : Admitted cfg s' := by
  cases hs with
  | @receive endpoint http =>
      refine h.quiet rfl h.gated (Nat.le_refl _) (fun _ hid => hid) (fun i q hq => ?_) fun i => ?_
      · rcases getElem?_append_cases hq with hq | ⟨_, rfl⟩
        · exact h.fits i q hq
        · -- a request that just came in has asked and started nothing
          exact ⟨rfl, rfl⟩
      · exact elim_append rfl s.requests i
  | handle hq hs => exact h.handle hq hs
  | @leave i q hq hc =>
      refine h.quiet rfl h.gated (Nat.le_refl _) (fun _ hid => hid) ?_ (startedBy_set_same hq rfl)
      exact h.fits_set hq ((h.fits i q hq).returned hc)
  | run hs =>
      refine h.quiet rfl (h.gated.step hs nofun) hs.counter_le (fun id hid => ?_) h.fits fun _ => rfl
      rcases hs.knows hid with hold | ⟨⟨_, _, he⟩, _⟩
      · exact hold
      · cases he
  | cleanup hs =>
      refine h.quiet rfl (h.gated.step hs nofun) hs.counter_le (fun id hid => ?_) h.fits fun _ => rfl
      rcases hs.knows hid with hold | ⟨⟨_, _, he⟩, _⟩
      · exact hold
      · cases he
  | verify hd => exact h.quiet rfl h.gated (Nat.le_refl _) (fun _ hid => hid) h.fits fun _ => rfl
  | inc hn => exact h.quiet rfl (h.gated.inc _) (Nat.le_refl _) (fun _ hid => hid) h.fits fun _ => rfl

/-! ## Over whole runs -/

/-- A request is never forgotten, nor is what the limiter answered it. -/
def Remembers (s s' : Serving X) : Prop :=
  ∀ (i : Nat) (q : Request), s.requests[i]? = some q →
    ∃ q', s'.requests[i]? = some q' ∧ q.decisions <+: q'.decisions

theorem Remembers.refl (s : Serving X) : Remembers s s := fun _ q hq => ⟨q, hq, List.prefix_rfl⟩

theorem Remembers.trans {s₁ s₂ s₃ : Serving X} (h : Remembers s₁ s₂) (h' : Remembers s₂ s₃) :
    Remembers s₁ s₃ := by
  intro i q hq
  obtain ⟨q', hq', hpre⟩ := h i q hq
  obtain ⟨q'', hq'', hpre'⟩ := h' i q' hq'
  exact ⟨q'', hq'', hpre.trans hpre'⟩

theorem Remembers.set {s : Serving X} {server : Server X} {i : Nat} {q q' : Request}
    (hq : s.requests[i]? = some q) (hpre : q.decisions <+: q'.decisions) :
    Remembers s { server := server, requests := s.requests.set i q' } :=
  exists_replace hq (fun _ => List.prefix_rfl) hpre

theorem ServingStep.remembers {s s' : Serving X} {a : ServingAction} (hs : ServingStep s a s') :
    Remembers s s' := by
  cases hs with
  | receive =>
      intro i q hq
      obtain ⟨hlt, _⟩ := List.getElem?_eq_some_iff.mp hq
      exact ⟨q, (List.getElem?_append_left hlt).trans hq, List.prefix_rfl⟩
  | handle hq hs => exact .set hq hs.decisions.1
  | leave hq hc => exact .set hq List.prefix_rfl
  | run hs => exact .refl _
  | cleanup hs => exact .refl _
  | verify hd => exact .refl _
  | inc hn => exact .refl _

/-- The run of a call belongs to one request, which the limiter allowed. -/
theorem Admitted.caused {cfg : Config} {s : Serving X} (h : Admitted cfg s) {id : String}
    {call : NodeCall} (hcall : .called id call ∈ s.server.runs.log) :
    ∃ i q, s.requests[i]? = some q ∧ id ∈ q.started ∧ (∃ d, q.decisions = [d] ∧ d.allowed = true) ∧
      ∀ (j : Nat) (q' : Request), s.requests[j]? = some q' → id ∈ q'.started → j = i := by
  obtain ⟨t, hl, _, _⟩ := h.gated.calls.made id call hcall
  obtain ⟨i, hi⟩ := h.owned id (.inr ⟨t, hl⟩)
  cases hq : s.requests[i]? with
  | none => rw [Serving.startedBy, hq] at hi; exact absurd hi List.not_mem_nil
  | some q =>
      have hstarted : id ∈ q.started := by rw [Serving.startedBy, hq] at hi; exact hi
      refine ⟨i, q, hq, hstarted, (h.fits i q hq).allowed_of_started (List.ne_nil_of_mem hstarted), ?_⟩
      intro j q' hq' hid
      exact h.apart j i id (by rw [Serving.startedBy, hq']; exact hid) hi

/-- One request, one run, one call. -/
theorem Admitted.calls_le_one {cfg : Config} {s : Serving X} (h : Admitted cfg s) {q : Request}
    (hq : q ∈ s.requests) :
    (q.started.flatMap fun id => callsOf id s.server.runs.log).length ≤ 1 := by
  obtain ⟨i, hi⟩ := List.mem_iff_getElem?.mp hq
  rcases (h.fits i q hi).started_cases with hnone | ⟨id, hone⟩
  · rw [hnone]; exact Nat.zero_le _
  · rw [hone, List.flatMap_singleton]
    exact h.gated.calls.once id

/-- **A step for a request that is refused** changes no run and no record, and no bucket either if the
    request is refused before the limiter. -/
theorem Admitted.refused {cfg : Config} {s s' t : Serving X} (h : Admitted cfg s) (ht : Admitted cfg t)
    {i : Nat} {now : Time} (hs : ServingStep s (.handle i now) s') (hlater : Remembers s' t) {q : Request}
    {reply : Reply} (hq : t.requests[i]? = some q) (hreply : q.stage = .answered reply) :
    (reply.Refuses → SameRuns s.server s'.server) ∧
      (reply.status = 400 ∨ reply.status = 409 → s'.server.limiter = s.server.limiter) := by
  cases hs with
  | @handle _ _ q₀ q₁ server hq₀ hs =>
      obtain ⟨hlt, _⟩ := List.getElem?_eq_some_iff.mp hq₀
      obtain ⟨u, hu, hpre₁⟩ := hlater i q₁ (List.getElem?_set_self hlt)
      cases Option.some.inj (hq.symm.trans hu)
      obtain ⟨hpre₀, hlimiter⟩ := hs.decisions
      have hfits := ht.fits i q hq
      constructor
      · intro hr
        rcases (h.fits i q₀ hq₀).sameRuns hs with hsame | ⟨d, hd, hallowed⟩
        · exact hsame
        · -- allowed once, the request would still carry that decision when it is answered
          have hmem : d ∈ q.decisions :=
            (hpre₀.trans hpre₁).subset (by rw [hd]; exact List.mem_singleton_self d)
          rw [(hfits.refused hreply hr).1 d hmem] at hallowed
          cases hallowed
      · intro hstatus
        rcases hlimiter with hsame | hdecided
        · exact hsame
        · have hr : reply.Refuses := by
            rcases hstatus with h | h
            · exact .inl h
            · exact .inr (.inl h)
          have hnone := (hfits.refused hreply hr).2 hstatus
          rw [hnone, List.prefix_nil] at hpre₁
          exact absurd hpre₁ hdecided

/-- **Admission is exact.** A server starts with any configuration and serves any requests, in any order of
    their steps, of its runs' and of all other traffic. Every call to the node carries a flow of the
    playground and a mode the instance offers, and comes from exactly one request, which obtained exactly one
    decision of the limiter, an allowing one; a request causes at most one call. Each step for a request that
    ends up answered 400, 409 or 429 leaves registry, run counter, `runs_started` and store alone, and the
    limiter too if it is answered 400 or 409. -/
theorem admission_exact {C : RunCodec X} {os : Disk} {cfg : Config} {files : FilePath.Files C.Data}
    {server : Server X} (hopen : newServer C os cfg files = .ok server) {as : List ServingAction}
    {s : Serving X} (h : exec Serving.step (Serving.new server) as = some s) :
    (∀ id call, .called id call ∈ s.server.runs.log → call.request.flow ∈ playgroundFlows ∧
      (call.request.mode = modeAnonymous.name ∨
        call.request.mode = modeKermit.name ∧ cfg.kermitAvailable = true) ∧
      ∃ i q, s.requests[i]? = some q ∧ id ∈ q.started ∧ (∃ d, q.decisions = [d] ∧ d.allowed = true) ∧
        ∀ (j : Nat) (q' : Request), s.requests[j]? = some q' → id ∈ q'.started → j = i) ∧
    (∀ q ∈ s.requests, (q.started.flatMap fun id => callsOf id s.server.runs.log).length ≤ 1) ∧
    ∀ before i now after s₁ s₂ q reply, as = before ++ .handle i now :: after →
      exec Serving.step (Serving.new server) before = some s₁ →
      s₁.step (.handle i now) = some s₂ → s.requests[i]? = some q → q.stage = .answered reply →
      (reply.Refuses → SameRuns s₁.server s₂.server) ∧
      (reply.status = 400 ∨ reply.status = 409 → s₂.server.limiter = s₁.server.limiter) := by
  have hstep : ∀ (s : Serving X) a s', Admitted cfg s → s.step a = some s' → Admitted cfg s' :=
    fun _ _ _ hi hs => hi.step (serving_step hs)
  have hs : Admitted cfg s := exec_invariant hstep as (admitted_new hopen) h
  refine ⟨fun id call hcall => ?_, fun q hq => hs.calls_le_one hq, ?_⟩
  · obtain ⟨hflow, hmode⟩ := hs.gated.call hcall
    exact ⟨hflow, hmode, hs.caused hcall⟩
  · intro before i now after s₁ s₂ q reply hsplit hbefore hhandle hq hreply
    have hs₁ : Admitted cfg s₁ := exec_invariant hstep before (admitted_new hopen) hbefore
    -- the rest of the run remembers what the limiter answered
    obtain ⟨t₁, ht₁, hrest⟩ := exec_append_iff.mp (hsplit ▸ h)
    cases Option.some.inj (hbefore.symm.trans ht₁)
    obtain ⟨t₂, ht₂, hafter⟩ := exec_cons_iff.mp hrest
    cases Option.some.inj (hhandle.symm.trans ht₂)
    have hlater : Remembers s₂ s :=
      exec_rel (I := fun _ => True) .refl (fun _ _ _ => .trans) (fun _ _ _ _ _ => trivial)
        (fun _ _ _ _ hs => (serving_step hs).remembers) after trivial hafter
    exact hs₁.refused hs (serving_step hhandle) hlater hq hreply

/-- Two requests of one client: one is admitted and its run calls the node, one has no body. -/
def sampleTraffic : List ServingAction :=
  [.receive .createRun ⟨[0x7B, 0x7D], "", "192.0.2.1:40000"⟩] ++ List.replicate 7 (.handle 0 1) ++
    [.run "run-1" .call, .receive .agentRunFlow ⟨[], "", "192.0.2.1:40001"⟩, .handle 1 2]

/-- The first is the cause of the call. -/
theorem admission_exact_sample : ∃ server s call,
    newServer (sampleCodec sampleX) .ok defaultConfig ∅ = .ok server ∧
      exec Serving.step (Serving.new server) sampleTraffic = some s ∧
      .called "run-1" call ∈ s.server.runs.log ∧ call.request.flow ∈ playgroundFlows ∧
      ∃ (i : Nat) (q : Request), s.requests[i]? = some q ∧ "run-1" ∈ q.started ∧
        ∃ d, q.decisions = [d] ∧ d.allowed = true := by
  obtain ⟨server, hopen⟩ : ∃ server, newServer (sampleCodec sampleX) .ok defaultConfig ∅ = .ok server :=
    ⟨_, rfl⟩
  have hrun : ((newServer (sampleCodec sampleX) .ok defaultConfig ∅).toOption.bind fun server =>
      (exec Serving.step (Serving.new server) sampleTraffic).map fun s =>
        (callsOf "run-1" s.server.runs.log).length) = some 1 := by decide +kernel
  rw [hopen] at hrun
  obtain ⟨s, hs, hlen⟩ := Option.map_eq_some_iff.mp hrun
  obtain ⟨call, hcall⟩ := List.exists_mem_of_length_pos (hlen ▸ Nat.one_pos)
  have hmem := mem_callsOf.mp hcall
  obtain ⟨hflow, _, i, q, hq, hstarted, hallowed, _⟩ := (admission_exact hopen hs).1 "run-1" call hmem
  exact ⟨server, s, call, hopen, hs, hmem, hflow, i, q, hq, hstarted, hallowed⟩

end Api
end InfrixPlayground
