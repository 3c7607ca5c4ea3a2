import InfrixPlayground.Api.Guard
import InfrixPlayground.Api.RunManager

/-!
# `Api.Server` — the run endpoints, step by step

The handling of a request is a thread of its own: `Stage` has one constructor for each point between two
accesses to what the requests share (the limiter, the run manager, the store, the counters). The server
machine interleaves any number of such threads with the goroutines of the runs they start, the cleanup job
and whatever else uses the limiter. `HandleStep` says once what a step of a thread can do.
-/

namespace InfrixPlayground
namespace Api

open GoText Worker Machine

variable {X : Externals}

/-! ## The server -/

/-- The server; its store and its counters are those of its run manager. -/
structure Server (X : Externals) where
  cfg : Config
  guard : AbuseGuard
  limiter : RateLimiter
  runs : RunManager X

/-- `NewServer`. -/
def newServer (C : RunCodec X) (os : Disk) (cfg : Config) (files : FilePath.Files C.Data) :
    Except String (Server X) :=
  match newReceiptStore C os cfg.receiptDir files with
  | .error e => .error e
  | .ok store =>
    .ok
      { cfg
        guard := newAbuseGuard
        limiter := newRateLimiter cfg.rateLimit
        runs := newRunManager (.new X cfg.runFlowEndpoint cfg.kermitAvailable) store }

/-- `s.metrics.Inc(name)`. -/
def Server.inc (name : String) (s : Server X) : Server X :=
  { s with runs := { s.runs with metrics := s.runs.metrics.inc name } }

/-- `rm.runs[id] = r` of `Start`, for the run it has just numbered. -/
def RunManager.enter (m : RunManager X) (id : String) : Option (RunManager X) :=
  match m.starting.findIdx? fun r => r.id = id with
  | none => none
  | some i => m.step (.register i)

/-! ## Handling a request -/

inductive Endpoint where
  | createRun
  | agentRunFlow
deriving DecidableEq, Repr

/-- Where the handling of a request stands. -/
inductive Stage where
  | received
  /-- Refused by the abuse guard, not counted yet. -/
  | refused (r : Refusal)
  /-- Counted as a refusal, not answered yet. -/
  | refusing (r : Refusal)
  /-- About to ask the limiter. -/
  | screened (p : RunParams)
  /-- Denied by the limiter, not counted yet. -/
  | denied (d : Decision)
  /-- Counted as a denial, not answered yet. -/
  | denying (d : Decision)
  /-- About to call `Start`. -/
  | admitted (p : RunParams)
  /-- In `Start`: the run has its number. -/
  | numbered (p : RunParams) (id : String)
  /-- In `Start`: the run is in the registry. -/
  | registered (p : RunParams) (id : String)
  /-- In `Start`: the run is counted. -/
  | counted (p : RunParams) (id : String)
  /-- `Start` has returned. -/
  | started (p : RunParams) (id : String)
  /-- An agent's request waits for its run. -/
  | polling (p : RunParams) (id : String) (deadline : Time)
  /-- About to fetch the proof. -/
  | fetching (p : RunParams) (id : String) (receiptID : String)
  | answered (reply : Reply)
  /-- The client went away. -/
  | left
deriving DecidableEq

/-- A request and its handling. As history, `decisions` keeps what the limiter answered it, and `started`
    the runs it numbered. -/
structure Request where
  endpoint : Endpoint
  http : HttpRequest
  stage : Stage
  decisions : List Decision
  started : List String

/-- A request that just came in. -/
def Request.new (endpoint : Endpoint) (http : HttpRequest) : Request :=
  { endpoint, http, stage := .received, decisions := [], started := [] }

def Request.goto (q : Request) (stage : Stage) : Request := { q with stage := stage }

/-- The `Retry-After` header of a denied request: whole seconds. -/
def retryAfterHeader (d : Decision) : Option Int :=
  if d.retryAfter > 0 then some (d.retryAfter / second) else none

/-- What the run endpoints do alike: from the request to the return of `Start`. -/
def Server.beginRun (kermitDisabled : String) (s : Server X) (q : Request) (now : Time) :
    Option (Server X × Request) :=
  match q.stage with
  | .received =>
    match screen X s.cfg s.guard kermitDisabled q.http.body with
    | .error r => some (s, q.goto (if r.counted then .refused r else .answered r.reply))
    | .ok p => some (s, q.goto (.screened p))
  | .refused r => some (s.inc metricAbuseRejections, q.goto (.refusing r))
  | .refusing r => some (s, q.goto (.answered r.reply))
  | .screened p =>
    -- one critical section: the sweep, the refill and the decision
    let (limiter, d) := s.limiter.allow now (clientKey q.http)
    some ({ s with limiter := limiter },
      { q with stage := if d.allowed then .admitted p else .denied d, decisions := q.decisions ++ [d] })
  | .denied d => some (s.inc metricRateLimited, q.goto (.denying d))
  | .denying d =>
    some (s, q.goto (.answered
      (.error 429 "rate limit exceeded — please wait a moment and try again" (retryAfterHeader d))))
  | .admitted p =>
    (s.runs.step (.number p.mode p.flow)).map fun runs =>
      ({ s with runs := runs },
        { q with stage := .numbered p (runName runs.counter), started := q.started ++ [runName runs.counter] })
  | .numbered p id =>
    (s.runs.enter id).map fun runs => ({ s with runs := runs }, q.goto (.registered p id))
  | .registered p id =>
    (s.runs.step (.run id .count)).map fun runs => ({ s with runs := runs }, q.goto (.counted p id))
  | .counted p id =>
    (s.runs.step (.run id .launch)).map fun runs => ({ s with runs := runs }, q.goto (.started p id))
  | _ => none

/-- `POST /api/runs`. -/
def Server.handleCreateRun (s : Server X) (q : Request) (now : Time) : Option (Server X × Request) :=
  match q.stage with
  | .started p id => some (s, q.goto (.answered (.accepted id p.mode .running flowSteps)))
  | _ =>
    s.beginRun
      "Kermit Sandbox mode is disabled on this instance. Use Anonymous Demo mode — it runs the same governed flow deterministically, with no wallet or funding."
      q now

/-- `POST /api/agent/run-flow`. -/
def Server.handleAgentRunFlow (s : Server X) (q : Request) (now : Time) : Option (Server X × Request) :=
  match q.stage with
  | .started p id => some (s, q.goto (.polling p id (now + 90)))
  | .polling p id deadline =>
    match s.runs.snapshot id with
    | none => none
    | some snap =>
      if snap.state.terminal then
        if snap.state = .failed then
          some (s, q.goto (.answered (.error 502 ("run failed: " ++ snap.error) none)))
        else some (s, q.goto (.fetching p id snap.receiptID))
      -- the deadline is looked at after the state, so a run that just ended is still answered
      else if now > deadline then
        some (s, q.goto (.answered (.error 504 "run did not complete within the timeout" none)))
      else some (s, q)
  | .fetching p id receiptID =>
    match s.runs.store.get receiptID with
    | none => some (s, q.goto (.answered (.error 500 "run completed but no proof was stored" none)))
    | some stored =>
      some (s, q.goto (.answered (.proof
        { ok := true
          flow := p.flow
          mode := p.mode.name
          runID := id
          receiptID := stored.id
          proof := stored.bundleJSON
          verifyHint := "verify `proof` offline with @infrix/verify, or POST it to /api/verify" })))
  | _ =>
    s.beginRun
      "Kermit Sandbox mode is disabled on this instance. Use Anonymous Demo mode — it runs the same governed flow deterministically."
      q now

def Server.handle (s : Server X) (q : Request) (now : Time) : Option (Server X × Request) :=
  match q.endpoint with
  | .createRun => s.handleCreateRun q now
  | .agentRunFlow => s.handleAgentRunFlow q now

/-! ## The machine -/

/-- A server and all the run requests it ever received, in order of arrival. -/
structure Serving (X : Externals) where
  server : Server X
  requests : List Request

/-- A server that just started. -/
def Serving.new (s : Server X) : Serving X := { server := s, requests := [] }

/-- The steps: of the run requests, of the goroutines and subscribers of the runs, of the cleanup job, and
    what the other endpoints do to the limiter and to their own counters. -/
inductive ServingAction where
  | receive (endpoint : Endpoint) (http : HttpRequest)
  | handle (i : Nat) (now : Time)
  | leave (i : Nat)
  | run (id : String) (a : RunAction)
  | cleanup (now : Time)
  | verify (now : Time) (http : HttpRequest)
  | inc (name : String)

/-- The counters that the run endpoints and the runs leave to others. -/
def otherMetrics : List String :=
  [metricRateLimited, metricVerifications, metricReceiptViews, metricEventsReceived]

/-- One step. -/
def Serving.step (s : Serving X) : ServingAction → Option (Serving X)
  | .receive endpoint http => some { s with requests := s.requests ++ [.new endpoint http] }
  | .handle i now =>
    match s.requests[i]? with
    | none => none
    | some q =>
      (s.server.handle q now).map fun p => { server := p.1, requests := s.requests.set i p.2 }
  | .leave i =>
    match s.requests[i]? with
    | none => none
    | some q =>
      match q.stage with
      | .polling .. => some { s with requests := s.requests.set i (q.goto .left) }
      | _ => none
  | .run id a =>
    -- `Start` takes these two itself
    if a = .count ∨ a = .launch then none
    else (s.server.runs.step (.run id a)).map fun runs => { s with server := { s.server with runs := runs } }
  | .cleanup now =>
    if s.server.cfg.cleanupInterval ≤ 0 then none
    else
      (s.server.runs.step (.cleanup now s.server.cfg.retention)).map fun runs =>
        { s with server := { s.server with runs := runs } }
  | .verify now http =>
    some { s with server :=
      { s.server with limiter := (s.server.limiter.allow now (clientKey http)).1 } }
  | .inc name => if name ∈ otherMetrics then some { s with server := s.server.inc name } else none

/-! ## What a step can do -/

/-- `Start` has returned, and the request is not answered yet. -/
def Stage.Returned : Stage → Prop
  | .started .. => True
  | .polling .. => True
  | .fetching .. => True
  | _ => False

/-- The answers of a request that starts no run. -/
def Reply.Refuses (reply : Reply) : Prop :=
  reply.status = 400 ∨ reply.status = 409 ∨ reply.status = 429

/-- What a step of the handling of a request can do. -/
inductive HandleStep (s : Server X) (q : Request) (now : Time) : Server X → Request → Prop where
  | refuse {kermitDisabled : String} {r : Refusal} (hc : q.stage = .received)
      (hr : screen X s.cfg s.guard kermitDisabled q.http.body = .error r) :
      HandleStep s q now s (q.goto (if r.counted then .refused r else .answered r.reply))
  | pass {kermitDisabled : String} {p : RunParams} (hc : q.stage = .received)
      (hp : screen X s.cfg s.guard kermitDisabled q.http.body = .ok p) :
      HandleStep s q now s (q.goto (.screened p))
  | countRefused {r : Refusal} (hc : q.stage = .refused r) :
      HandleStep s q now (s.inc metricAbuseRejections) (q.goto (.refusing r))
  | replyRefused {r : Refusal} (hc : q.stage = .refusing r) :
      HandleStep s q now s (q.goto (.answered r.reply))
  | ask {p : RunParams} {limiter : RateLimiter} {d : Decision} (hc : q.stage = .screened p)
      (hd : s.limiter.allow now (clientKey q.http) = (limiter, d)) :
      HandleStep s q now { s with limiter := limiter }
        { q with
          stage := if d.allowed then .admitted p else .denied d
          decisions := q.decisions ++ [d] }
  | countDenied {d : Decision} (hc : q.stage = .denied d) :
      HandleStep s q now (s.inc metricRateLimited) (q.goto (.denying d))
  | replyDenied {d : Decision} {msg : String} {retryAfter : Option Int} (hc : q.stage = .denying d) :
      HandleStep s q now s (q.goto (.answered (.error 429 msg retryAfter)))
  | number {p : RunParams} {runs : RunManager X} (hc : q.stage = .admitted p)
      (hs : ManagerStep s.runs (.number p.mode p.flow) runs) :
      HandleStep s q now { s with runs := runs }
        { q with
          stage := .numbered p (runName (s.runs.counter + 1))
          started := q.started ++ [runName (s.runs.counter + 1)] }
  | register {p : RunParams} {id : String} {i : Nat} {runs : RunManager X}
      (hc : q.stage = .numbered p id) (hs : ManagerStep s.runs (.register i) runs) :
      HandleStep s q now { s with runs := runs } (q.goto (.registered p id))
  | count {p : RunParams} {id : String} {runs : RunManager X} (hc : q.stage = .registered p id)
      (hs : ManagerStep s.runs (.run id .count) runs) :
      HandleStep s q now { s with runs := runs } (q.goto (.counted p id))
  | launch {p : RunParams} {id : String} {runs : RunManager X} (hc : q.stage = .counted p id)
      (hs : ManagerStep s.runs (.run id .launch) runs) :
      HandleStep s q now { s with runs := runs } (q.goto (.started p id))
  | wait {stage : Stage} (hc : q.stage.Returned) (hst : stage.Returned) :
      HandleStep s q now s (q.goto stage)
  | answer {reply : Reply} (hc : q.stage.Returned) (hr : ¬ reply.Refuses) :
      HandleStep s q now s (q.goto (.answered reply))

theorem beginRun_step {kermitDisabled : String} {s s' : Server X} {q q' : Request} {now : Time}
    (h : s.beginRun kermitDisabled q now = some (s', q')) : HandleStep s q now s' q' := by
  unfold Server.beginRun at h
  split at h
  · rename_i hc
    split at h
    · rename_i hr; cases h; exact .refuse hc hr
    · rename_i hp; cases h; exact .pass hc hp
  · rename_i hc; cases h; exact .countRefused hc
  · rename_i hc; cases h; exact .replyRefused hc
  · rename_i hc; cases h; exact .ask hc rfl
  · rename_i hc; cases h; exact .countDenied hc
  · rename_i hc; cases h; exact .replyDenied hc
  · rename_i hc
    obtain ⟨runs, hs, he⟩ := Option.map_eq_some_iff.mp h
    -- numbering never fails, and the number is the new counter
    cases hs
    cases he
    exact .number hc .number
  · rename_i hc
    obtain ⟨runs, hs, he⟩ := Option.map_eq_some_iff.mp h
    cases he
    unfold RunManager.enter at hs
    split at hs
    · cases hs
    · exact .register hc (manager_step hs)
  · rename_i hc
    obtain ⟨runs, hs, he⟩ := Option.map_eq_some_iff.mp h
    cases he
    exact .count hc (manager_step hs)
  · rename_i hc
    obtain ⟨runs, hs, he⟩ := Option.map_eq_some_iff.mp h
    cases he
    exact .launch hc (manager_step hs)
  · cases h

theorem handleCreateRun_step {s s' : Server X} {q q' : Request} {now : Time}
    (h : s.handleCreateRun q now = some (s', q')) : HandleStep s q now s' q' := by
  unfold Server.handleCreateRun at h
  split at h
  · rename_i hc
    cases h
    exact .answer (by rw [hc]; trivial) (by simp [Reply.Refuses, Reply.status])
  · exact beginRun_step h

theorem handleAgentRunFlow_step {s s' : Server X} {q q' : Request} {now : Time}
    (h : s.handleAgentRunFlow q now = some (s', q')) : HandleStep s q now s' q' := by
  unfold Server.handleAgentRunFlow at h
  split at h
  · rename_i hc; cases h; exact .wait (by rw [hc]; trivial) trivial
  · rename_i hc
    have hret : q.stage.Returned := by rw [hc]; trivial
    split at h
    · cases h
    · split at h
      · split at h
        · cases h; exact .answer hret (by simp [Reply.Refuses, Reply.status])
        · cases h; exact .wait hret trivial
      · split at h
        · cases h; exact .answer hret (by simp [Reply.Refuses, Reply.status])
        · cases h; exact .wait hret hret
  · rename_i hc
    have hret : q.stage.Returned := by rw [hc]; trivial
    split at h
    · cases h; exact .answer hret (by simp [Reply.Refuses, Reply.status])
    · cases h; exact .answer hret (by simp [Reply.Refuses, Reply.status])
  · exact beginRun_step h

theorem handle_step {s s' : Server X} {q q' : Request} {now : Time}
    (h : s.handle q now = some (s', q')) : HandleStep s q now s' q' := by
  unfold Server.handle at h
  split at h
  · exact handleCreateRun_step h
  · exact handleAgentRunFlow_step h

/-- What a step of the machine can do. -/
inductive ServingStep (s : Serving X) : ServingAction → Serving X → Prop where
  | receive {endpoint : Endpoint} {http : HttpRequest} :
      ServingStep s (.receive endpoint http) { s with requests := s.requests ++ [.new endpoint http] }
  | handle {i : Nat} {now : Time} {q q' : Request} {server : Server X} (hq : s.requests[i]? = some q)
      (hs : HandleStep s.server q now server q') :
      ServingStep s (.handle i now) { server := server, requests := s.requests.set i q' }
  | leave {i : Nat} {q : Request} (hq : s.requests[i]? = some q) (hc : q.stage.Returned) :
      ServingStep s (.leave i) { s with requests := s.requests.set i (q.goto .left) }
  | run {id : String} {a : RunAction} {runs : RunManager X}
      (hs : ManagerStep s.server.runs (.run id a) runs) :
      ServingStep s (.run id a) { s with server := { s.server with runs := runs } }
  | cleanup {now : Time} {runs : RunManager X}
      (hs : ManagerStep s.server.runs (.cleanup now s.server.cfg.retention) runs) :
      ServingStep s (.cleanup now) { s with server := { s.server with runs := runs } }
  | verify {now : Time} {http : HttpRequest} {limiter : RateLimiter} {d : Decision}
      (hd : s.server.limiter.allow now (clientKey http) = (limiter, d)) :
      ServingStep s (.verify now http) { s with server := { s.server with limiter := limiter } }
  | inc {name : String} (hn : name ∈ otherMetrics) :
      ServingStep s (.inc name) { s with server := s.server.inc name }

theorem serving_step {s s' : Serving X} {a : ServingAction} (h : s.step a = some s') :
    ServingStep s a s' := by
  cases a with
  | receive endpoint http => cases h; exact .receive
  | handle i now =>
      cases hq : s.requests[i]? with
      | none => simp [Serving.step, hq] at h
      | some q =>
          simp only [Serving.step, hq] at h
          obtain ⟨⟨server, q'⟩, hs, he⟩ := Option.map_eq_some_iff.mp h
          cases he
          exact .handle hq (handle_step hs)
  | leave i =>
      cases hq : s.requests[i]? with
      | none => simp [Serving.step, hq] at h
      | some q =>
          simp only [Serving.step, hq] at h
          split at h
          · rename_i hc; cases h; exact .leave hq (by rw [hc]; trivial)
          · cases h
  | run id a =>
      simp only [Serving.step] at h
      split at h
      · cases h
      · obtain ⟨runs, hs, he⟩ := Option.map_eq_some_iff.mp h
        cases he
        exact .run (manager_step hs)
  | cleanup now =>
      simp only [Serving.step] at h
      split at h
      · cases h
      · obtain ⟨runs, hs, he⟩ := Option.map_eq_some_iff.mp h
        cases he
        exact .cleanup (manager_step hs)
  | verify now http => cases h; exact .verify rfl
  | inc name =>
      simp only [Serving.step] at h
      split at h
      · rename_i hn; cases h; exact .inc hn
      · cases h

/-! ## What a step does to the manager -/

/-- What a step of the handling does to the manager, and to the runs of its request. -/
theorem HandleStep.manager {s s' : Server X} {q q' : Request} {now : Time}
    (hs : HandleStep s q now s' q') :
    ((∃ metrics, s'.runs = { s.runs with metrics := metrics }) ∧ q'.started = q.started) ∨
      (∃ a, ManagerStep s.runs a s'.runs ∧ (∀ mode flow, a ≠ .number mode flow) ∧
        q'.started = q.started) ∨
      ∃ p, q.stage = .admitted p ∧ ManagerStep s.runs (.number p.mode p.flow) s'.runs ∧
        q'.started = q.started ++ [runName (s.runs.counter + 1)] := by
  cases hs with
  | number hc hs => exact .inr (.inr ⟨_, hc, hs, rfl⟩)
  | register hc hs => exact .inr (.inl ⟨_, hs, nofun, rfl⟩)
  | count hc hs => exact .inr (.inl ⟨_, hs, nofun, rfl⟩)
  | launch hc hs => exact .inr (.inl ⟨_, hs, nofun, rfl⟩)
  | _ => exact .inl ⟨⟨_, rfl⟩, rfl⟩

/-- What a step of the machine does to the manager. -/
theorem ServingStep.manager {s s' : Serving X} {a : ServingAction} (hs : ServingStep s a s') :
    (∃ metrics, s'.server.runs = { s.server.runs with metrics := metrics }) ∨
      ∃ a, ManagerStep s.server.runs a s'.server.runs := by
  cases hs with
  | receive => exact .inl ⟨_, rfl⟩
  | handle hq hs =>
      rcases hs.manager with ⟨hmetrics, _⟩ | ⟨a, hm, _⟩ | ⟨p, _, hm, _⟩
      · exact .inl hmetrics
      · exact .inr ⟨a, hm⟩
      · exact .inr ⟨_, hm⟩
  | leave hq hc => exact .inl ⟨_, rfl⟩
  | run hs => exact .inr ⟨_, hs⟩
  | cleanup hs => exact .inr ⟨_, hs⟩
  | verify hd => exact .inl ⟨_, rfl⟩
  | inc hn => exact .inl ⟨_, rfl⟩

/-- **The rule for the manager.** What the manager's own steps keep, and what does not look at the counters,
    holds of the manager of a server whatever the server does. -/
theorem exec_manager {P : RunManager X → Prop}
    (hstep : ∀ {m m' : RunManager X} {a}, P m → ManagerStep m a m' → P m')
    (hmetrics : ∀ {m : RunManager X}, P m → ∀ metrics, P { m with metrics := metrics })
    {server : Server X} (h₀ : P server.runs) {as : List ServingAction} {s : Serving X}
    (h : exec Serving.step (Serving.new server) as = some s) : P s.server.runs := by
  refine exec_invariant (P := fun s : Serving X => P s.server.runs) (fun s a s' hi hs => ?_) as h₀ h
  rcases (serving_step hs).manager with ⟨metrics, hruns⟩ | ⟨a, hm⟩
  · rw [hruns]
    exact hmetrics hi metrics
  · exact hstep hi hm

/-- One client's request for a run, and its run up to its final state. -/
def completedTraffic : List ServingAction :=
  [.receive .createRun ⟨[0x7B, 0x7D], "", "192.0.2.1:40000"⟩] ++ List.replicate 7 (.handle 0 1) ++
    (sampleActions.drop 2).map (.run "run-1")

end Api
end InfrixPlayground
