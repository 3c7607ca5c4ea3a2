import Std.Data.String.ToNat
import InfrixPlayground.Api.RunTask

/-!
# `Api.RunManager` — the run registry, and the runs it drives

The manager numbers the runs, keeps them in a registry, and drives each of them as the `Task` machine does;
what a run does outside itself (the store, the counters, the call to the node) happens here. `Cleanup`
comes from the server's cleanup job at any time. The log is history: the calls made to the node, the
records put and returned by each run, and the records each `Cleanup` removed, in order.
-/

namespace InfrixPlayground
namespace Api

open Worker Machine

variable {X : Externals}

/-! ## Counters -/

/-- The counters of `/metrics`. -/
abbrev Metrics := AList fun _ : String => Nat

/-- Increment a counter by one. -/
def Metrics.inc (name : String) (m : Metrics) : Metrics :=
  m.insert name ((m.lookup name).getD 0 + 1)

def metricRunsStarted : String := "runs_started"
def metricRunsCompleted : String := "runs_completed"
def metricRunsFailed : String := "runs_failed"
def metricRateLimited : String := "rate_limited"
def metricVerifications : String := "verifications"
def metricReceiptViews : String := "receipt_views"
def metricAbuseRejections : String := "abuse_rejections"
def metricEventsReceived : String := "events_received"

/-! ## The manager -/

/-- What the history of a manager records. -/
inductive LogEntry (X : Externals) where
  | called (runID : String) (call : NodeCall)
  | inserted (runID : String) (rec : StoredRun X)
  | returned (runID : String) (rec : StoredRun X)
  | removed (cut : Time) (rec : StoredRun X)

/-- The manager, with the store it puts into; `starting` are the runs created but not yet registered. -/
structure RunManager (X : Externals) where
  runner : Runner X
  store : ReceiptStore X
  metrics : Metrics
  counter : Nat
  starting : List Run
  runs : AList fun _ : String => Task X
  log : List (LogEntry X)

/-- `NewRunManager`. -/
def newRunManager (runner : Runner X) (store : ReceiptStore X) : RunManager X :=
  { runner, store, metrics := ∅, counter := 0, starting := [], runs := ∅, log := [] }

/-- `fmt.Sprintf("run-%d", n)`. -/
def runName (n : Nat) : String := "run-" ++ Nat.repr n

/-- A new manager knows no run. -/
theorem lookup_new (runner : Runner X) (store : ReceiptStore X) (id : String) :
    (newRunManager runner store).runs.lookup id = none :=
  AList.lookup_empty _

/-- The steps: the two halves of `Start` before the run is in the registry, a step of a registered run,
    and a `Cleanup` of the store. -/
inductive ManagerAction where
  | number (mode : Mode) (flow : String)
  | register (i : Nat)
  | run (id : String) (a : RunAction)
  | cleanup (now : Time) (maxAge : Duration)
deriving DecidableEq

namespace RunManager

/-- A run by its ephemeral id. -/
def get (m : RunManager X) (id : String) : Option Run := (m.runs.lookup id).map Task.run

/-- What the status endpoint shows of a run. -/
def snapshot (m : RunManager X) (id : String) : Option Snapshot := (m.get id).map Run.snapshot

/-- What a step of a run does outside the run. -/
def outside (m : RunManager X) (id : String) (a : RunAction) (before after : Ctl X) : RunManager X :=
  match a, before, after with
  | .count, _, _ => { m with metrics := m.metrics.inc metricRunsStarted }
  | .call, _, .waiting call => { m with log := m.log ++ [.called id call] }
  | .settle, _, .finishing _ _ => { m with metrics := m.metrics.inc metricRunsFailed }
  | .insert _, _, .persisting rec =>
    { m with store := m.store.insert rec, log := m.log ++ [.inserted id rec] }
  | .insert _, _, .finishing _ _ => { m with metrics := m.metrics.inc metricRunsFailed }
  | .persist none, .persisting rec, _ =>
    { m with metrics := m.metrics.inc metricRunsCompleted, log := m.log ++ [.returned id rec] }
  | .persist (some _), _, _ => { m with metrics := m.metrics.inc metricRunsFailed }
  | _, _, _ => m

/-- A `Put` into a memory-only store does not fail at the disk. -/
def possible (m : RunManager X) : RunAction → Bool
  | .persist (some _) => m.store.dir ≠ ""
  | _ => true

/-- One step. -/
def step (m : RunManager X) : ManagerAction → Option (RunManager X)
  | .number mode flow =>
    let flow := if flow = "" then flowGoldenEscrow else flow
    some { m with
      counter := m.counter + 1
      starting := m.starting ++ [Run.new (runName (m.counter + 1)) mode flow] }
  | .register i =>
    match m.starting[i]? with
    | none => none
    | some r =>
      some { m with
        starting := m.starting.eraseIdx i
        runs := m.runs.insert r.id (.ofRun r) }
  | .run id a =>
    match m.runs.lookup id with
    | none => none
    | some t =>
      match m.possible a, t.step m.runner a with
      | true, some t' =>
        some { m.outside id a t.ctl t'.ctl with runs := m.runs.insert id t' }
      | _, _ => none
  | .cleanup now maxAge =>
    let cut := cutoff now maxAge
    some { m with
      store := m.store.expire cut
      log := m.log ++ (m.store.expired cut).filterMap fun id => (m.store.get id).map (.removed cut) }

end RunManager

/-- What a step can do. -/
inductive ManagerStep (m : RunManager X) : ManagerAction → RunManager X → Prop where
  | number {mode : Mode} {flow : String} :
      ManagerStep m (.number mode flow) { m with
        counter := m.counter + 1
        starting := m.starting ++
          [Run.new (runName (m.counter + 1)) mode (if flow = "" then flowGoldenEscrow else flow)] }
  | register {i : Nat} {r : Run} (hi : m.starting[i]? = some r) :
      ManagerStep m (.register i) { m with
        starting := m.starting.eraseIdx i
        runs := m.runs.insert r.id (.ofRun r) }
  | run {id : String} {a : RunAction} {t t' : Task X} (hl : m.runs.lookup id = some t)
      (hp : m.possible a = true) (hs : TaskStep m.runner t a t') :
      ManagerStep m (.run id a) { m.outside id a t.ctl t'.ctl with runs := m.runs.insert id t' }
  | cleanup {now : Time} {maxAge : Duration} :
      ManagerStep m (.cleanup now maxAge) { m with
        store := m.store.expire (cutoff now maxAge)
        log := m.log ++ (m.store.expired (cutoff now maxAge)).filterMap fun id =>
          (m.store.get id).map (.removed (cutoff now maxAge)) }

theorem manager_step {m m' : RunManager X} {a : ManagerAction} (h : m.step a = some m') :
    ManagerStep m a m' := by
  cases a with
  | number mode flow => cases h; exact .number
  | register i =>
      cases hi : m.starting[i]? with
      | none => simp [RunManager.step, hi] at h
      | some r => simp only [RunManager.step, hi] at h; cases h; exact .register hi
  | run id a =>
      cases hl : m.runs.lookup id with
      | none => simp [RunManager.step, hl] at h
      | some t =>
          simp only [RunManager.step, hl] at h
          split at h
          · rename_i hp hs; cases h; exact .run hl hp (task_step hs)
          · exact absurd h (by simp)
  | cleanup now maxAge => cases h; exact .cleanup

/-! ## What a step of a run does outside, exit by exit -/

@[simp] theorem outside_runner (m : RunManager X) (id : String) (a : RunAction) (b c : Ctl X) :
    (m.outside id a b c).runner = m.runner := by
  unfold RunManager.outside; split <;> rfl

@[simp] theorem outside_counter (m : RunManager X) (id : String) (a : RunAction) (b c : Ctl X) :
    (m.outside id a b c).counter = m.counter := by
  unfold RunManager.outside; split <;> rfl

@[simp] theorem outside_starting (m : RunManager X) (id : String) (a : RunAction) (b c : Ctl X) :
    (m.outside id a b c).starting = m.starting := by
  unfold RunManager.outside; split <;> rfl

/-- **Store and log.** A step of a run touches them when it calls the node, when it inserts its record and
    when its `Put` returns; otherwise not. -/
theorem outside_cases {rn : Runner X} {t t' : Task X} {a : RunAction} (m : RunManager X) (id : String)
    (hs : TaskStep rn t a t') :
    (∃ call, t'.ctl = .waiting call ∧ rn.pendingCall t.run.mode t.run.flow = some call ∧
        t.ctl = .executing ∧ (m.outside id a t.ctl t'.ctl).store = m.store ∧
        (m.outside id a t.ctl t'.ctl).log = m.log ++ [.called id call] ∧ t'.put = t.put) ∨
      (∃ rec, t'.ctl = .persisting rec ∧ (m.outside id a t.ctl t'.ctl).store = m.store.insert rec ∧
        (m.outside id a t.ctl t'.ctl).log = m.log ++ [.inserted id rec] ∧ t'.put = t.put ∧
        ∃ result now, t.ctl = .storing result ∧
          StoredRun.prepare now (some (storedRun t.run.flow result)) = .ok rec) ∨
      (∃ rec, t.ctl = .persisting rec ∧ (m.outside id a t.ctl t'.ctl).store = m.store ∧
        (m.outside id a t.ctl t'.ctl).log = m.log ++ [.returned id rec] ∧ t'.put = some rec ∧
        ∀ rec', t'.ctl ≠ .persisting rec') ∨
      ((m.outside id a t.ctl t'.ctl).store = m.store ∧ (m.outside id a t.ctl t'.ctl).log = m.log ∧
        t'.put = t.put ∧ (∀ rec, t'.ctl = .persisting rec → t.ctl = .persisting rec) ∧
        ∀ call, t'.ctl = .waiting call → t.ctl = .waiting call) := by
  cases hs with
  | count hc => exact .inr (.inr (.inr ⟨rfl, rfl, rfl, nofun, nofun⟩))
  | launch hc => exact .inr (.inr (.inr ⟨rfl, rfl, rfl, nofun, nofun⟩))
  | @call call hc hp => exact .inl ⟨call, rfl, hp, hc, rfl, rfl, rfl⟩
  | refuse hc hp hr => exact .inr (.inr (.inr ⟨rfl, rfl, rfl, nofun, nofun⟩))
  | reply hc hr => exact .inr (.inr (.inr ⟨rfl, rfl, rfl, nofun, nofun⟩))
  | emit hc => exact .inr (.inr (.inr ⟨rfl, rfl, rfl, nofun, nofun⟩))
  | runFailed hc => exact .inr (.inr (.inr ⟨rfl, rfl, rfl, nofun, nofun⟩))
  | runReturned hc => exact .inr (.inr (.inr ⟨rfl, rfl, rfl, nofun, nofun⟩))
  | putRefused hc hp => exact .inr (.inr (.inr ⟨rfl, rfl, rfl, nofun, nofun⟩))
  | @inserted result now rec hc hp => exact .inr (.inl ⟨rec, rfl, rfl, rfl, rfl, result, now, hc, hp⟩)
  | @returned rec hc =>
      rw [hc]
      exact .inr (.inr (.inl ⟨rec, rfl, rfl, rfl, rfl, fun _ he => by cases he⟩))
  | notPersisted hc => exact .inr (.inr (.inr ⟨rfl, rfl, rfl, nofun, nofun⟩))
  | setResult hc => exact .inr (.inr (.inr ⟨rfl, rfl, rfl, nofun, nofun⟩))
  | setState hc => exact .inr (.inr (.inr ⟨rfl, rfl, rfl, nofun, nofun⟩))
  | publish hc => exact .inr (.inr (.inr ⟨rfl, rfl, rfl, nofun, nofun⟩))
  | subscribe => exact .inr (.inr (.inr ⟨rfl, rfl, rfl, fun _ h => h, fun _ h => h⟩))
  | unsub => exact .inr (.inr (.inr ⟨rfl, rfl, rfl, fun _ h => h, fun _ h => h⟩))
  | recv => exact .inr (.inr (.inr ⟨rfl, rfl, rfl, fun _ h => h, fun _ h => h⟩))

/-- What a `Cleanup` adds to the log. -/
theorem eq_removed_of_mem {store : ReceiptStore X} {cut : Time} {entry : LogEntry X}
    (h : entry ∈ (store.expired cut).filterMap fun id => (store.get id).map (.removed cut)) :
    ∃ e, entry = .removed cut e := by
  obtain ⟨id, _, he⟩ := List.mem_filterMap.mp h
  obtain ⟨e, _, he⟩ := Option.map_eq_some_iff.mp he
  exact ⟨e, he.symm⟩

/-- **The log only grows.** -/
theorem ManagerStep.log_prefix {m m' : RunManager X} {a : ManagerAction} (hs : ManagerStep m a m') :
    m.log <+: m'.log := by
  cases hs with
  | number => exact List.prefix_rfl
  | register hi => exact List.prefix_rfl
  | @run id a t t' hl hp hs =>
      show m.log <+: (m.outside id a t.ctl t'.ctl).log
      rcases outside_cases m id hs with ⟨_, _, _, _, _, hlog, _⟩ | ⟨_, _, _, hlog, _⟩ |
        ⟨_, _, _, hlog, _⟩ | ⟨_, hlog, _⟩
      · rw [hlog]; exact List.prefix_append ..
      · rw [hlog]; exact List.prefix_append ..
      · rw [hlog]; exact List.prefix_append ..
      · exact ⟨[], (List.append_nil _).trans hlog.symm⟩
  | cleanup => exact List.prefix_append ..

/-! ## The registry -/

theorem runName_inj {n n' : Nat} (h : runName n = runName n') : n = n' := by
  have hl := congrArg String.toList h
  rw [runName, runName, String.toList_append, String.toList_append] at hl
  exact Nat.repr_injective (String.toList_inj.mp (List.append_cancel_left hl))

/-- **The invariant of the registry.** Every run has its own number, and a run on its way into the
    registry is not in it yet. -/
structure Registry (m : RunManager X) : Prop where
  starting_named : ∀ r ∈ m.starting, ∃ k, k ≤ m.counter ∧ r.id = runName k
  runs_named : ∀ id t, m.runs.lookup id = some t → ∃ k, k ≤ m.counter ∧ id = runName k
  fresh : ∀ r ∈ m.starting, m.runs.lookup r.id = none
  nodup : (m.starting.map Run.id).Nodup

theorem registry_new (runner : Runner X) (store : ReceiptStore X) :
    Registry (newRunManager runner store) := by
  refine ⟨fun _ h => absurd h List.not_mem_nil, fun id t h => ?_, fun _ h => absurd h List.not_mem_nil,
    List.nodup_nil⟩
  rw [lookup_new] at h
  cases h

/-- A number not given yet names no run. -/
theorem Registry.next_fresh {m : RunManager X} (h : Registry m) :
    m.runs.lookup (runName (m.counter + 1)) = none ∧ runName (m.counter + 1) ∉ m.starting.map Run.id := by
  constructor
  · cases hl : m.runs.lookup (runName (m.counter + 1)) with
    | none => rfl
    | some t =>
        obtain ⟨k, hk, hname⟩ := h.runs_named _ t hl
        have := runName_inj hname
        omega
  · intro hmem
    obtain ⟨r, hr, hid⟩ := List.mem_map.mp hmem
    obtain ⟨k, hk, hname⟩ := h.starting_named r hr
    have := runName_inj (hid.symm.trans hname)
    omega

/-- In a list without repeated ids, what is left after one element is gone has other ids. -/
theorem id_ne_of_mem_eraseIdx {l : List Run} (hn : (l.map Run.id).Nodup) {i : Nat} {r r' : Run}
    (hi : l[i]? = some r) (hr' : r' ∈ l.eraseIdx i) : r'.id ≠ r.id := by
  obtain ⟨j, hj, hne, hget⟩ := List.mem_eraseIdx_iff_getElem.mp hr'
  obtain ⟨hi', hgi⟩ := List.getElem?_eq_some_iff.mp hi
  intro heq
  apply hne
  have hinj := List.nodup_iff_injective_get.mp hn
  have := @hinj ⟨j, by simpa using hj⟩ ⟨i, by simpa using hi'⟩ (by simp [hget, hgi, heq])
  exact congrArg Fin.val this

/-- **Every step keeps the registry in order.** -/
theorem Registry.step {m m' : RunManager X} {a : ManagerAction} (h : Registry m)
    (hs : ManagerStep m a m') : Registry m' := by
  cases hs with
  | number =>
      obtain ⟨hfresh, hnew⟩ := h.next_fresh
      refine ⟨?_, ?_, ?_, ?_⟩
      · intro r hr
        rcases List.mem_append.mp hr with hr | hr
        · obtain ⟨k, hk, hname⟩ := h.starting_named r hr
          exact ⟨k, Nat.le_succ_of_le hk, hname⟩
        · rw [List.mem_singleton.mp hr]; exact ⟨m.counter + 1, Nat.le_refl _, rfl⟩
      · intro id t hl
        obtain ⟨k, hk, hname⟩ := h.runs_named id t hl
        exact ⟨k, Nat.le_succ_of_le hk, hname⟩
      · intro r hr
        rcases List.mem_append.mp hr with hr | hr
        · exact h.fresh r hr
        · rw [List.mem_singleton.mp hr]; exact hfresh
      · rw [List.map_append]
        exact List.nodup_append.mpr ⟨h.nodup, List.nodup_singleton _, fun x hx y hy he => by
          rw [he, List.mem_singleton.mp hy] at hx
          exact hnew hx⟩
  | @register i r hi =>
      -- the run moves from `starting` to `runs` and keeps its number
      have hmem : r ∈ m.starting := List.mem_of_getElem? hi
      refine ⟨fun r' hr' => h.starting_named r' (List.mem_of_mem_eraseIdx hr'), ?_, ?_, ?_⟩
      · intro id t hl
        rw [AList.lookup_insert_eq] at hl
        split at hl
        · rename_i hid; rw [hid]; exact h.starting_named r hmem
        · exact h.runs_named id t hl
      · intro r' hr'
        rw [AList.lookup_insert_ne (id_ne_of_mem_eraseIdx h.nodup hi hr')]
        exact h.fresh r' (List.mem_of_mem_eraseIdx hr')
      · exact h.nodup.sublist ((List.eraseIdx_sublist ..).map _)
  | @run id a t t' hl hp hs =>
      refine ⟨by simpa using h.starting_named, ?_, ?_, by simpa using h.nodup⟩
      · intro id' u hu
        rw [outside_counter]
        rw [AList.lookup_insert_eq] at hu
        split at hu
        · rename_i hid; rw [hid]; exact h.runs_named id t hl
        · exact h.runs_named id' u hu
      · intro r hr
        rw [outside_starting] at hr
        -- a run that steps is registered, so it is none of those still starting
        have hne : r.id ≠ id := by
          intro he
          have hnone := h.fresh r hr
          rw [he, hl] at hnone
          exact absurd hnone (by simp)
        rw [AList.lookup_insert_ne hne]
        exact h.fresh r hr
  | cleanup => exact ⟨h.starting_named, h.runs_named, h.fresh, h.nodup⟩

/-! ## What a step does to one run, to the store and to the log -/

/-- The lookups of a registry in which one run has been replaced. -/
theorem lookup_replace {runs : AList fun _ : String => Task X} {id id' : String} {t' u : Task X}
    (h : (runs.insert id t').lookup id' = some u) :
    (id' = id ∧ u = t') ∨ (id' ≠ id ∧ runs.lookup id' = some u) := by
  rw [AList.lookup_insert_eq] at h
  split at h
  · rename_i hid; exact .inl ⟨hid, (Option.some.inj h).symm⟩
  · rename_i hid; exact .inr ⟨hid, h⟩

theorem ManagerStep.runner_eq {m m' : RunManager X} {a : ManagerAction} (hs : ManagerStep m a m') :
    m'.runner = m.runner := by
  cases hs with
  | run hl hp hs => exact outside_runner ..
  | _ => rfl

/-- A run on its way into the registry was so before, or `Start` has just given it its number. -/
theorem ManagerStep.starting_cases {m m' : RunManager X} {a : ManagerAction} (hs : ManagerStep m a m')
    {r : Run} (hr : r ∈ m'.starting) : r ∈ m.starting ∨ ∃ mode flow, a = .number mode flow ∧
      r = Run.new (runName (m.counter + 1)) mode (if flow = "" then flowGoldenEscrow else flow) := by
  cases hs with
  | @number mode flow =>
      rcases List.mem_append.mp hr with hr | hr
      · exact .inl hr
      · exact .inr ⟨mode, flow, rfl, List.mem_singleton.mp hr⟩
  | register hi => exact .inl (List.mem_of_mem_eraseIdx hr)
  | run hl hp hs => exact .inl (by simpa using hr)
  | cleanup => exact .inl hr

/-- A registered run stays registered, and only its own actions touch it. -/
theorem ManagerStep.own {m m' : RunManager X} {a : ManagerAction} (hr : Registry m)
    (hs : ManagerStep m a m') {id : String} {t : Task X} (hl : m.runs.lookup id = some t) :
    ∃ t', m'.runs.lookup id = some t' ∧ (t' = t ∨ ∃ b, a = .run id b ∧ TaskStep m.runner t b t') := by
  cases hs with
  | number => exact ⟨t, hl, .inl rfl⟩
  | @register i r hi =>
      have hne : id ≠ r.id := by
        rintro rfl
        rw [hr.fresh r (List.mem_of_getElem? hi)] at hl
        exact absurd hl (by simp)
      exact ⟨t, (AList.lookup_insert_ne hne).trans hl, .inl rfl⟩
  | @run id' b u u' hl' hp hs =>
      by_cases hid : id = id'
      · subst hid
        cases Option.some.inj (hl.symm.trans hl')
        exact ⟨u', AList.lookup_insert _, .inr ⟨b, rfl, hs⟩⟩
      · exact ⟨t, (AList.lookup_insert_ne hid).trans hl, .inl rfl⟩
  | cleanup => exact ⟨t, hl, .inl rfl⟩

/-- A registered run stays registered, and at most takes one step of its own. -/
theorem ManagerStep.after {m m' : RunManager X} {a : ManagerAction} (hr : Registry m)
    (hs : ManagerStep m a m') {id : String} {t : Task X} (hl : m.runs.lookup id = some t) :
    ∃ t', m'.runs.lookup id = some t' ∧ (t' = t ∨ ∃ b, TaskStep m.runner t b t') := by
  obtain ⟨t', hl', hown⟩ := hs.own hr hl
  exact ⟨t', hl', hown.imp_right fun ⟨b, _, hb⟩ => ⟨b, hb⟩⟩

/-- A registered run was registered before, and at most took one step of its own, or `Start` has just
    registered it. -/
theorem ManagerStep.before {m m' : RunManager X} {a : ManagerAction} (hs : ManagerStep m a m')
    {id : String} {t' : Task X} (hl : m'.runs.lookup id = some t') :
    (∃ r ∈ m.starting, r.id = id ∧ t' = .ofRun r) ∨
      ∃ t, m.runs.lookup id = some t ∧ (t' = t ∨ ∃ b, TaskStep m.runner t b t') := by
  cases hs with
  | number => exact .inr ⟨t', hl, .inl rfl⟩
  | @register i r hi =>
      rcases lookup_replace hl with ⟨hid, rfl⟩ | ⟨_, hl⟩
      · exact .inl ⟨r, List.mem_of_getElem? hi, hid.symm, rfl⟩
      · exact .inr ⟨t', hl, .inl rfl⟩
  | @run id' b u u' hl' hp hs =>
      rcases lookup_replace hl with ⟨rfl, rfl⟩ | ⟨_, hl⟩
      · exact .inr ⟨u, hl', .inr ⟨b, hs⟩⟩
      · exact .inr ⟨t', hl, .inl rfl⟩
  | cleanup => exact .inr ⟨t', hl, .inl rfl⟩

/-- **A new record in the log** is one its run has just made, and the store has it. -/
theorem ManagerStep.inserted_cases {m m' : RunManager X} {a : ManagerAction} (hs : ManagerStep m a m')
    {id : String} {rec : StoredRun X} (hmem : .inserted id rec ∈ m'.log) :
    .inserted id rec ∈ m.log ∨ (m'.store.get rec.id = some rec ∧
      ∃ b t t', m.runs.lookup id = some t ∧ TaskStep m.runner t b t' ∧ m'.runs.lookup id = some t' ∧
        t'.ctl = .persisting rec ∧ ∃ result now, t.ctl = .storing result ∧
          StoredRun.prepare now (some (storedRun t.run.flow result)) = .ok rec) := by
  cases hs with
  | number => exact .inl hmem
  | register hi => exact .inl hmem
  | @run id' b t t' hl hp hs =>
      replace hmem : .inserted id rec ∈ (m.outside id' b t.ctl t'.ctl).log := hmem
      show _ ∨ ((m.outside id' b t.ctl t'.ctl).store.get rec.id = some rec ∧ _)
      rcases outside_cases m id' hs with ⟨call, _, _, _, _, hlog, _⟩ |
        ⟨rec', hctl, hstore, hlog, _, hmade⟩ | ⟨rec', _, _, hlog, _⟩ | ⟨_, hlog, _⟩ <;> rw [hlog] at hmem
      · exact .inl (by simpa using hmem)
      · rcases List.mem_append.mp hmem with hmem | hmem
        · exact .inl hmem
        · cases List.mem_singleton.mp hmem
          refine .inr ⟨?_, b, t, t', hl, hs, AList.lookup_insert _, hctl, hmade⟩
          rw [hstore, get_insert, if_pos rfl]
      · exact .inl (by simpa using hmem)
      · exact .inl hmem
  | cleanup =>
      rcases List.mem_append.mp hmem with hmem | hmem
      · exact .inl hmem
      · obtain ⟨e, he⟩ := eq_removed_of_mem hmem
        cases he

/-- **What a step does to the store**: nothing, and no record is logged; or a run inserts its record; or a `Cleanup`
    removes what has expired. -/
theorem ManagerStep.store_cases {m m' : RunManager X} {a : ManagerAction} (hs : ManagerStep m a m') :
    (m'.store = m.store ∧ ∃ new, m'.log = m.log ++ new ∧ ∀ id rec, .inserted id rec ∉ new) ∨
    (∃ id rec t result, m'.store = m.store.insert rec ∧ m'.log = m.log ++ [.inserted id rec] ∧
      m.runs.lookup id = some t ∧ t.ctl = .storing result) ∨
    ∃ cut, m'.store = m.store.expire cut ∧
      m'.log = m.log ++ (m.store.expired cut).filterMap fun id => (m.store.get id).map (.removed cut) := by
  have hnone : ∀ id rec, .inserted id rec ∉ ([] : List (LogEntry X)) := fun _ _ => List.not_mem_nil
  cases hs with
  | number => exact .inl ⟨rfl, [], (List.append_nil _).symm, hnone⟩
  | register hi => exact .inl ⟨rfl, [], (List.append_nil _).symm, hnone⟩
  | @run id b t t' hl hp hs =>
      rcases outside_cases m id hs with ⟨call, _, _, _, hstore, hlog, _⟩ |
        ⟨rec, _, hstore, hlog, _, result, _, hctl, _⟩ | ⟨rec, _, hstore, hlog, _⟩ | ⟨hstore, hlog, _⟩
      · exact .inl ⟨hstore, _, hlog, by simp⟩
      · exact .inr (.inl ⟨id, rec, t, result, hstore, hlog, hl, hctl⟩)
      · exact .inl ⟨hstore, _, hlog, by simp⟩
      · exact .inl ⟨hstore, [], hlog.trans (List.append_nil _).symm, hnone⟩
  | cleanup => exact .inr (.inr ⟨_, rfl, rfl⟩)

/-- **What the store serves** it served before, or a run has just inserted it. -/
theorem ManagerStep.get_cases {m m' : RunManager X} {a : ManagerAction} (hs : ManagerStep m a m')
    {shareID : String} {rec : StoredRun X} (hget : m'.store.get shareID = some rec) :
    m.store.get shareID = some rec ∨ ∃ id, .inserted id rec ∈ m'.log := by
  rcases hs.store_cases with ⟨hstore, _⟩ | ⟨id, rec', _, _, hstore, hlog, _⟩ | ⟨cut, hstore, _⟩ <;>
    rw [hstore] at hget
  · exact .inl hget
  · rw [get_insert] at hget
    split at hget
    · cases hget
      exact .inr ⟨id, by rw [hlog]; exact List.mem_append_right _ (List.mem_singleton_self _)⟩
    · exact .inl hget
  · exact .inl (get_expire_eq_some.mp hget).1

/-! ## What holds of every run -/

/-- `P` holds of every registered run, and the runs on their way into the registry are new. -/
structure AllRuns (rn : Runner X) (P : Task X → Prop) (m : RunManager X) : Prop where
  runner : m.runner = rn
  starting : ∀ r ∈ m.starting, ∃ id mode flow, r = Run.new id mode flow
  runs : ∀ id t, m.runs.lookup id = some t → P t

theorem allRuns_new (rn : Runner X) (P : Task X → Prop) (store : ReceiptStore X) :
    AllRuns rn P (newRunManager rn store) := by
  refine ⟨rfl, fun _ h => absurd h List.not_mem_nil, fun id t h => ?_⟩
  rw [lookup_new] at h
  cases h

/-- **The rule for runs.** What holds of a run that `Start` has just registered, and survives each of the
    run's own steps, holds of every run whatever the manager does. -/
theorem AllRuns.step {rn : Runner X} {P : Task X → Prop}
    (hstart : ∀ id mode flow, P (.ofRun (.new id mode flow)))
    (hstep : ∀ {t t' a}, P t → TaskStep rn t a t' → P t') {m m' : RunManager X} {a : ManagerAction}
    (h : AllRuns rn P m) (hs : ManagerStep m a m') : AllRuns rn P m' := by
  refine ⟨hs.runner_eq.trans h.runner, fun r hr => ?_, fun id t' hl => ?_⟩
  · rcases hs.starting_cases hr with hr | ⟨mode, flow, _, rfl⟩
    · exact h.starting r hr
    · exact ⟨_, _, _, rfl⟩
  · rcases hs.before hl with ⟨r, hr, _, rfl⟩ | ⟨t, hl, rfl | ⟨b, hb⟩⟩
    · obtain ⟨id, mode, flow, rfl⟩ := h.starting r hr
      exact hstart id mode flow
    · exact h.runs id t' hl
    · exact hstep (h.runs id t hl) (h.runner ▸ hb)

/-- The rule over a whole run of the manager. -/
theorem allRuns_exec {rn : Runner X} {P : Task X → Prop}
    (hstart : ∀ id mode flow, P (.ofRun (.new id mode flow)))
    (hstep : ∀ {t t' a}, P t → TaskStep rn t a t' → P t') {store : ReceiptStore X}
    {as : List ManagerAction} {m : RunManager X}
    (h : exec RunManager.step (newRunManager rn store) as = some m) : AllRuns rn P m :=
  exec_invariant (fun _ _ _ hi hs => hi.step hstart hstep (manager_step hs)) as (allRuns_new rn P store) h

/-- An anonymous run of a server against the stand-in's node, to its end. -/
def endedActions : List ManagerAction :=
  [.number modeAnonymous "", .register 0] ++ sampleActions.map (.run "run-1") ++ [.run "run-1" .finish]

end Api
end InfrixPlayground
