import InfrixPlayground.Api.Server

/-!
# `Api.RunEndpoints` — the two run endpoints admit alike

The source writes the checks of a run request out twice, once for each endpoint, and so does this file:
`createRunGate` and `agentRunFlowGate` are the two texts, from the body of the request to the call of
`Start`. Each is shown to be one gate that leaves open what a refusal of the Kermit mode says
(`createRunGate_eq`, `agentRunFlowGate_eq`), the gate is what the handlers of `Api.Server` compute step by
step (`handle_gate`), and no interleaving tells the endpoints apart before `Start` has returned
(`endpoints_interchangeable`).
-/

namespace InfrixPlayground
namespace Api

open GoText Worker Machine

variable {X : Externals}

/-! ## The two texts -/

/-- How a run endpoint leaves its checks: with an error, or for the call of `Start`. -/
inductive Gate where
  | error (status : Nat) (message : String) (retryAfter : Option Int)
  | start (mode : Mode) (flow : String)
deriving DecidableEq, Repr

/-- `handleCreateRun` up to its call of `Start`. -/
def Server.createRunGate (s : Server X) (now : Time) (r : HttpRequest) : Server X × Gate :=
  match X.decodeRunRequest r.body with
  | none => (s, .error 400 "invalid request body" none)
  | some req =>
    let flow := if req.flow = "" then flowGoldenEscrow else req.flow
    match s.guard.checkFlow X flow with
    | some err => (s.inc metricAbuseRejections, .error 400 err none)
    | none =>
      let mode : Mode := if req.mode = "" then modeAnonymous else ⟨req.mode⟩
      if mode ≠ modeAnonymous ∧ mode ≠ modeKermit then
        (s, .error 400 ("unknown mode " ++ X.quote req.mode) none)
      else if mode = modeKermit ∧ s.cfg.kermitEnabled = false then
        (s, .error 409
          "Kermit Sandbox mode is disabled on this instance. Use Anonymous Demo mode — it runs the same governed flow deterministically, with no wallet or funding."
          none)
      else
        let (limiter, d) := s.limiter.allow now (clientKey r)
        let s := { s with limiter := limiter }
        if d.allowed = false then
          (s.inc metricRateLimited,
            .error 429 "rate limit exceeded — please wait a moment and try again"
              (if d.retryAfter > 0 then some (d.retryAfter / second) else none))
        else (s, .start mode flow)

/-- `handleAgentRunFlow` up to its call of `Start`. -/
def Server.agentRunFlowGate (s : Server X) (now : Time) (r : HttpRequest) : Server X × Gate :=
  match X.decodeRunRequest r.body with
  | none => (s, .error 400 "invalid request body" none)
  | some req =>
    let flow := if req.flow = "" then flowGoldenEscrow else req.flow
    match s.guard.checkFlow X flow with
    | some err => (s.inc metricAbuseRejections, .error 400 err none)
    | none =>
      let mode : Mode := if req.mode = "" then modeAnonymous else ⟨req.mode⟩
      if mode ≠ modeAnonymous ∧ mode ≠ modeKermit then
        (s, .error 400 ("unknown mode " ++ X.quote req.mode) none)
      else if mode = modeKermit ∧ s.cfg.kermitEnabled = false then
        (s, .error 409
          "Kermit Sandbox mode is disabled on this instance. Use Anonymous Demo mode — it runs the same governed flow deterministically."
          none)
      else
        let (limiter, d) := s.limiter.allow now (clientKey r)
        let s := { s with limiter := limiter }
        if d.allowed = false then
          (s.inc metricRateLimited,
            .error 429 "rate limit exceeded — please wait a moment and try again"
              (if d.retryAfter > 0 then some (d.retryAfter / second) else none))
        else (s, .start mode flow)

/-- What the clients and the rest of the server can tell of the decision: the status and the `Retry-After`
    header, or the arguments of `Start`. -/
inductive Gate.Same : Gate → Gate → Prop where
  | error {status : Nat} {message message' : String} {retryAfter : Option Int} :
      Same (.error status message retryAfter) (.error status message' retryAfter)
  | start {mode : Mode} {flow : String} : Same (.start mode flow) (.start mode flow)

theorem Gate.Same.refl (g : Gate) : g.Same g := by
  cases g with
  | error status message retryAfter => exact .error
  | start mode flow => exact .start

/-! ## One gate -/

/-- What each endpoint says when the Kermit mode is disabled. -/
def Endpoint.kermitDisabled : Endpoint → String
  | .createRun =>
    "Kermit Sandbox mode is disabled on this instance. Use Anonymous Demo mode — it runs the same governed flow deterministically, with no wallet or funding."
  | .agentRunFlow =>
    "Kermit Sandbox mode is disabled on this instance. Use Anonymous Demo mode — it runs the same governed flow deterministically."

/-- The checks, with what is said of the disabled Kermit mode left open. -/
def Server.gate (kermitDisabled : String) (s : Server X) (now : Time) (r : HttpRequest) :
    Server X × Gate :=
  match X.decodeRunRequest r.body with
  | none => (s, .error 400 "invalid request body" none)
  | some req =>
    match s.guard.checkFlow X (requestedFlow req) with
    | some err => (s.inc metricAbuseRejections, .error 400 err none)
    | none =>
      if requestedMode req ≠ modeAnonymous ∧ requestedMode req ≠ modeKermit then
        (s, .error 400 ("unknown mode " ++ X.quote req.mode) none)
      else if requestedMode req = modeKermit ∧ s.cfg.kermitEnabled = false then
        (s, .error 409 kermitDisabled none)
      else
        let (limiter, d) := s.limiter.allow now (clientKey r)
        let s := { s with limiter := limiter }
        if d.allowed = false then
          (s.inc metricRateLimited,
            .error 429 "rate limit exceeded — please wait a moment and try again" (retryAfterHeader d))
        else (s, .start (requestedMode req) (requestedFlow req))

theorem createRunGate_eq (s : Server X) (now : Time) (r : HttpRequest) :
    s.createRunGate now r = s.gate Endpoint.createRun.kermitDisabled now r := rfl

theorem agentRunFlowGate_eq (s : Server X) (now : Time) (r : HttpRequest) :
    s.agentRunFlowGate now r = s.gate Endpoint.agentRunFlow.kermitDisabled now r := rfl

/-! ## The gate, step by step -/

/-- What follows the screening: a refusal is counted and answered, and the limiter is asked. -/
def Server.afterScreen (s : Server X) (now : Time) (r : HttpRequest) :
    Except Refusal RunParams → Server X × Gate
  | .error e => (if e.counted then s.inc metricAbuseRejections else s, .error e.status e.message none)
  | .ok p =>
    let (limiter, d) := s.limiter.allow now (clientKey r)
    let s := { s with limiter := limiter }
    if d.allowed = false then
      (s.inc metricRateLimited,
        .error 429 "rate limit exceeded — please wait a moment and try again" (retryAfterHeader d))
    else (s, .start p.mode p.flow)

theorem gate_eq_afterScreen (text : String) (s : Server X) (now : Time) (r : HttpRequest) :
    s.gate text now r = s.afterScreen now r (screen X s.cfg s.guard text r.body) := by
  unfold Server.gate screen checkMode
  cases X.decodeRunRequest r.body with
  | none => rfl
  | some req =>
      dsimp only
      cases s.guard.checkFlow X (requestedFlow req) with
      | some err => rfl
      | none =>
          dsimp only
          by_cases hunknown : requestedMode req ≠ modeAnonymous ∧ requestedMode req ≠ modeKermit
          · rw [if_pos hunknown, if_pos hunknown]
            rfl
          · rw [if_neg hunknown, if_neg hunknown]
            by_cases hkermit : requestedMode req = modeKermit ∧ s.cfg.kermitEnabled = false
            · rw [if_pos hkermit, if_pos hkermit]
              rfl
            · rw [if_neg hkermit, if_neg hkermit]
              rfl

/-- The screening uses the text in one refusal, and nowhere else. -/
theorem screen_alike (cfg : Config) (guard : AbuseGuard) (body : Bytes) (text text' : String) :
    screen X cfg guard text' body = screen X cfg guard text body ∨
      screen X cfg guard text body = .error ⟨409, text, false⟩ ∧
        screen X cfg guard text' body = .error ⟨409, text', false⟩ := by
  unfold screen checkMode
  cases X.decodeRunRequest body with
  | none => exact .inl rfl
  | some req =>
      dsimp only
      cases guard.checkFlow X (requestedFlow req) with
      | some err => exact .inl rfl
      | none =>
          dsimp only
          by_cases hunknown : requestedMode req ≠ modeAnonymous ∧ requestedMode req ≠ modeKermit
          · rw [if_pos hunknown, if_pos hunknown]
            exact .inl rfl
          · rw [if_neg hunknown, if_neg hunknown]
            by_cases hkermit : requestedMode req = modeKermit ∧ cfg.kermitEnabled = false
            · rw [if_pos hkermit, if_pos hkermit]
              exact .inr ⟨rfl, rfl⟩
            · rw [if_neg hkermit, if_neg hkermit]
              exact .inl rfl

/-- **What the text decides.** Whatever is said of the disabled Kermit mode, the server is left in the same
    state, and the decision is the same. -/
theorem gate_same (text text' : String) (s : Server X) (now : Time) (r : HttpRequest) :
    (s.gate text' now r).1 = (s.gate text now r).1 ∧
      (s.gate text now r).2.Same (s.gate text' now r).2 := by
  rw [gate_eq_afterScreen, gate_eq_afterScreen]
  rcases screen_alike (X := X) s.cfg s.guard r.body text text' with heq | ⟨h, h'⟩
  · rw [heq]
    exact ⟨rfl, .refl _⟩
  · rw [h, h']
    exact ⟨rfl, .error⟩

/-- Where a request stands after the gate. -/
def Gate.stage : Gate → Stage
  | .error status message retryAfter => .answered (.error status message retryAfter)
  | .start mode flow => .admitted ⟨mode, flow⟩

/-- The gate of an endpoint. -/
def Endpoint.gate (e : Endpoint) (s : Server X) (now : Time) (r : HttpRequest) : Server X × Gate :=
  match e with
  | .createRun => s.createRunGate now r
  | .agentRunFlow => s.agentRunFlowGate now r

theorem Endpoint.gate_eq (e : Endpoint) (s : Server X) (now : Time) (r : HttpRequest) :
    e.gate s now r = s.gate e.kermitDisabled now r := by
  cases e with
  | createRun => exact createRunGate_eq s now r
  | agentRunFlow => exact agentRunFlowGate_eq s now r

/-- Up to the return of `Start`, the handlers take the steps of `beginRun`. -/
theorem handle_eq_beginRun {s : Server X} {q : Request} (h : ¬ q.stage.Returned) (now : Time) :
    s.handle q now = s.beginRun q.endpoint.kermitDisabled q now := by
  obtain ⟨endpoint, http, stage, decisions, started⟩ := q
  cases endpoint <;> cases stage <;> first | rfl | exact absurd trivial h

/-- One request handled alone, its steps taken at the given instants. -/
def handling (s : Server X) (q : Request) (nows : List Time) : Option (Server X × Request) :=
  exec (fun (p : Server X × Request) now => p.1.handle p.2 now) (s, q) nows

theorem handling_step {s s' : Server X} {q q' : Request} {now : Time} (hret : ¬ q.stage.Returned)
    (h : s.beginRun q.endpoint.kermitDisabled q now = some (s', q')) (nows : List Time) :
    handling s q (now :: nows) = handling s' q' nows := by
  show (s.handle q now).bind _ = _
  rw [handle_eq_beginRun hret, h]
  rfl

/-- A request that the screening refuses is answered in one step, or in three if its refusal is counted. -/
theorem handling_refused {e : Endpoint} {s : Server X} {r : HttpRequest} {refusal : Refusal}
    (h : screen X s.cfg s.guard e.kermitDisabled r.body = .error refusal) (now : Time) :
    ∃ n, handling s (.new e r) (List.replicate n now)
      = some (if refusal.counted then s.inc metricAbuseRejections else s,
          (Request.new e r).goto (.answered refusal.reply)) := by
  have hfirst : s.beginRun e.kermitDisabled (.new e r) now = some (s, (Request.new e r).goto
      (if refusal.counted then .refused refusal else .answered refusal.reply)) := by
    simp only [Server.beginRun, Request.new, h]
  cases hcounted : refusal.counted with
  | false =>
      rw [hcounted] at hfirst
      refine ⟨1, ?_⟩
      apply handling_step id hfirst
  | true =>
      rw [hcounted] at hfirst
      refine ⟨3, ?_⟩
      apply (handling_step id hfirst _).trans
      apply (handling_step id rfl _).trans
      apply handling_step id rfl

/-- A request that passes the screening asks the limiter; a denial is counted and answered. -/
theorem handling_passed {e : Endpoint} {s : Server X} {r : HttpRequest} {p : RunParams}
    (h : screen X s.cfg s.guard e.kermitDisabled r.body = .ok p) (now : Time) :
    ∃ n q, handling s (.new e r) (List.replicate n now) = some ((s.afterScreen now r (.ok p)).1, q) ∧
      q.stage = (s.afterScreen now r (.ok p)).2.stage := by
  have hfirst : s.beginRun e.kermitDisabled (.new e r) now
      = some (s, (Request.new e r).goto (.screened p)) := by
    simp only [Server.beginRun, Request.new, h]
  cases hd : s.limiter.allow now (clientKey r) with
  | mk limiter d =>
      have hask : s.beginRun e.kermitDisabled ((Request.new e r).goto (.screened p)) now
          = some ({ s with limiter := limiter },
              ⟨e, r, if d.allowed then .admitted p else .denied d, [d], []⟩) := by
        simp [Server.beginRun, Request.new, Request.goto, hd]
      simp only [Server.afterScreen, hd]
      cases hallowed : d.allowed with
      | true =>
          rw [hallowed] at hask
          refine ⟨2, ⟨e, r, .admitted p, [d], []⟩, ?_, rfl⟩
          apply (handling_step id hfirst _).trans
          apply handling_step id hask
      | false =>
          rw [hallowed] at hask
          refine ⟨4, ⟨e, r, .answered _, [d], []⟩, ?_, rfl⟩
          apply (handling_step id hfirst _).trans
          apply (handling_step id hask _).trans
          apply (handling_step id rfl _).trans
          apply handling_step id rfl

/-- **The handlers go through the gate**: a request handled alone is, after a few steps, where the text of
    its endpoint puts it, and so is the server. -/
theorem handle_gate (e : Endpoint) (s : Server X) (now : Time) (r : HttpRequest) :
    ∃ n q, handling s (.new e r) (List.replicate n now) = some ((e.gate s now r).1, q) ∧
      q.stage = (e.gate s now r).2.stage := by
  rw [Endpoint.gate_eq, gate_eq_afterScreen]
  cases hscreen : screen X s.cfg s.guard e.kermitDisabled r.body with
  | error refusal =>
      obtain ⟨n, hn⟩ := handling_refused hscreen now
      exact ⟨n, _, hn, rfl⟩
  | ok p => exact handling_passed hscreen now

/-- **The two run endpoints admit identically.** Whatever the state of the server, the clock and the
    request, they leave the server in the same state (the limiter's buckets and the counters included), and
    either refuse with the same status and the same `Retry-After` or start a run of the same mode and flow. -/
theorem endpoints_admit_alike (s : Server X) (now : Time) (r : HttpRequest) :
    (s.agentRunFlowGate now r).1 = (s.createRunGate now r).1 ∧
      (s.createRunGate now r).2.Same (s.agentRunFlowGate now r).2 := by
  rw [createRunGate_eq, agentRunFlowGate_eq]
  exact gate_same ..

/-! ## Under any interleaving -/

/-- The same stage, or a refusal in other words. -/
inductive Stage.Alike : Stage → Stage → Prop where
  | same (stage : Stage) : Alike stage stage
  | refused {status : Nat} {message message' : String} {retryAfter : Option Int} :
      Alike (.answered (.error status message retryAfter)) (.answered (.error status message' retryAfter))

/-- The same request handled alike so far, at whichever endpoint. -/
structure Request.Alike (q q' : Request) : Prop where
  http : q'.http = q.http
  stage : q.stage.Alike q'.stage
  decisions : q'.decisions = q.decisions
  started : q'.started = q.started

theorem Request.Alike.goto {q q' : Request} (h : q.Alike q') {stage stage' : Stage}
    (hstage : stage.Alike stage') : (q.goto stage).Alike (q'.goto stage') :=
  ⟨h.http, hstage, h.decisions, h.started⟩

/-- The same server, with requests that were handled alike. -/
structure Serving.Alike (s t : Serving X) : Prop where
  server : t.server = s.server
  requests : List.Forall₂ Request.Alike s.requests t.requests

/-- The same action, but for the endpoint a request comes in at. -/
inductive ServingAction.Alike : ServingAction → ServingAction → Prop where
  | receive {e e' : Endpoint} {http : HttpRequest} : Alike (.receive e http) (.receive e' http)
  | same (a : ServingAction) : Alike a a

/-- An action that takes no request beyond the return of `Start`. -/
def BeforeReturn (s : Serving X) : ServingAction → Prop
  | .handle i _ => ∀ q, s.requests[i]? = some q → ¬ q.stage.Returned
  | _ => True

/-- **One step of the common part**, for the two texts: taken in the same stage it is enabled for both or
    for neither, leaves the same server and leaves the requests alike. -/
theorem beginRun_alike (text text' : String) (s : Server X) {q q' : Request} (h : q.Alike q')
    (now : Time) :
    Option.Rel (fun p p' => p'.1 = p.1 ∧ p.2.Alike p'.2) (s.beginRun text q now)
      (s.beginRun text' q' now) := by
  have hstep : ∀ (s' : Server X) (stage : Stage), Option.Rel
      (fun p p' : Server X × Request => p'.1 = p.1 ∧ p.2.Alike p'.2)
      (some (s', q.goto stage)) (some (s', q'.goto stage)) :=
    fun s' stage => .some ⟨rfl, h.goto (.same stage)⟩
  have hstage := h.stage
  unfold Server.beginRun
  generalize hc : q.stage = stage at hstage ⊢
  generalize hc' : q'.stage = stage' at hstage ⊢
  cases hstage with
  | refused => exact .none
  | same =>
      cases stage with
      | received =>
          rw [h.http]
          rcases screen_alike (X := X) s.cfg s.guard q.http.body text text' with heq | ⟨hr, hr'⟩
          · rw [heq]
            cases screen X s.cfg s.guard text q.http.body with
            | error r => exact hstep s _
            | ok p => exact hstep s _
          · rw [hr, hr']
            exact .some ⟨rfl, h.goto .refused⟩
      | refused r => exact hstep ..
      | refusing r => exact hstep ..
      | screened p =>
          rw [h.http]
          cases s.limiter.allow now (clientKey q.http) with
          | mk limiter d => exact .some ⟨rfl, rfl, .same _, by rw [h.decisions], h.started⟩
      | denied d => exact hstep ..
      | denying d => exact hstep ..
      | admitted p => exact .some ⟨rfl, h.http, .same _, h.decisions, by rw [h.started]⟩
      | numbered p id =>
          dsimp only
          cases s.runs.enter id with
          | none => exact .none
          | some runs => exact hstep ..
      | registered p id =>
          dsimp only
          cases s.runs.step (.run id .count) with
          | none => exact .none
          | some runs => exact hstep ..
      | counted p id =>
          dsimp only
          cases s.runs.step (.run id .launch) with
          | none => exact .none
          | some runs => exact hstep ..
      | _ => exact .none

theorem Stage.Alike.returned {stage stage' : Stage} (h : stage.Alike stage') :
    stage'.Returned ↔ stage.Returned := by
  cases h with
  | same => rfl
  | refused => rfl

/-- **One step of the handling**, at whichever endpoint, before `Start` has returned. -/
theorem handle_alike (s : Server X) {q q' : Request} (h : q.Alike q') (hret : ¬ q.stage.Returned)
    (now : Time) :
    Option.Rel (fun p p' => p'.1 = p.1 ∧ p.2.Alike p'.2) (s.handle q now) (s.handle q' now) := by
  rw [handle_eq_beginRun hret, handle_eq_beginRun (mt h.stage.returned.mp hret)]
  exact beginRun_alike _ _ s h now

/-- Lists side by side agree on which positions they have. -/
theorem forall₂_getElem? {α β : Type} {R : α → β → Prop} {l : List α} {l' : List β}
    (h : List.Forall₂ R l l') :
    ∀ i : Nat, l[i]? = none ∧ l'[i]? = none ∨ ∃ a b, l[i]? = some a ∧ l'[i]? = some b ∧ R a b := by
  induction h with
  | nil => exact fun _ => .inl ⟨rfl, rfl⟩
  | @cons a b _ _ hR _ ih =>
      intro i
      cases i with
      | zero => exact .inr ⟨a, b, rfl, rfl, hR⟩
      | succ i => exact ih i

theorem forall₂_set {α β : Type} {R : α → β → Prop} {l : List α} {l' : List β} {a : α} {b : β}
    (h : List.Forall₂ R l l') (hab : R a b) : ∀ i : Nat, List.Forall₂ R (l.set i a) (l'.set i b) := by
  induction h with
  | nil => exact fun _ => .nil
  | cons hR hl ih =>
      intro i
      cases i with
      | zero => exact .cons hab hl
      | succ i => exact .cons hR (ih i)

theorem rel_map {α β γ δ : Type*} {R : α → β → Prop} {S : γ → δ → Prop} {f : α → γ} {g : β → δ}
    {x : Option α} {y : Option β} (h : Option.Rel R x y) (hf : ∀ a b, R a b → S (f a) (g b)) :
    Option.Rel S (x.map f) (y.map g) := by
  cases h with
  | none => exact .none
  | some hR => exact .some (hf _ _ hR)

/-- A step that looks at the server only leaves the requests alike. -/
theorem Serving.Alike.quiet {server : Server X} {requests requests' : List Request}
    (h : List.Forall₂ Request.Alike requests requests') (x : Option (RunManager X)) :
    Option.Rel Serving.Alike
      (x.map fun runs => { server := { server with runs := runs }, requests := requests })
      (x.map fun runs => { server := { server with runs := runs }, requests := requests' }) := by
  cases x with
  | none => exact .none
  | some runs => exact .some ⟨rfl, h⟩

/-- A step of one request that is handled on. -/
theorem Serving.Alike.handle {server : Server X} {requests requests' : List Request}
    (h : List.Forall₂ Request.Alike requests requests') {i : Nat} {now : Time}
    (hbefore : BeforeReturn { server, requests } (.handle i now)) :
    Option.Rel Serving.Alike (Serving.step { server, requests } (.handle i now))
      (Serving.step { server, requests := requests' } (.handle i now)) := by
  simp only [Serving.step]
  rcases forall₂_getElem? h i with ⟨hq, hq'⟩ | ⟨q, q', hq, hq', hqq'⟩
  · rw [hq, hq']
    exact .none
  · rw [hq, hq']
    refine rel_map (handle_alike _ hqq' (hbefore q hq) now) ?_
    rintro ⟨s, r⟩ ⟨s', r'⟩ ⟨hs, hr⟩
    exact ⟨hs, forall₂_set h hr i⟩

/-- A client goes away. -/
theorem Serving.Alike.leave {server : Server X} {requests requests' : List Request}
    (h : List.Forall₂ Request.Alike requests requests') (i : Nat) :
    Option.Rel Serving.Alike (Serving.step { server, requests } (.leave i))
      (Serving.step { server, requests := requests' } (.leave i)) := by
  simp only [Serving.step]
  rcases forall₂_getElem? h i with ⟨hq, hq'⟩ | ⟨q, q', hq, hq', hqq'⟩
  · rw [hq, hq']
    exact .none
  · rw [hq, hq']
    have hstage := hqq'.stage
    dsimp only
    generalize q.stage = stage at hstage ⊢
    generalize q'.stage = stage' at hstage ⊢
    cases hstage with
    | refused => exact .none
    | same =>
        cases stage with
        | polling p id deadline => exact .some ⟨rfl, forall₂_set h (hqq'.goto (.same _)) i⟩
        | _ => exact .none

/-- **One step of the machine**, before `Start` has returned. -/
theorem Serving.Alike.step {s t : Serving X} {a b : ServingAction} (h : s.Alike t) (hab : a.Alike b)
    (hbefore : BeforeReturn s a) : Option.Rel Serving.Alike (s.step a) (t.step b) := by
  obtain ⟨server, requests⟩ := s
  obtain ⟨server', requests'⟩ := t
  obtain ⟨hserver, hrequests⟩ := h
  dsimp only at hserver hrequests
  subst hserver
  have hreceive : ∀ (e e' : Endpoint) (http : HttpRequest), List.Forall₂ Request.Alike
      (requests ++ [.new e http]) (requests' ++ [.new e' http]) := fun e e' http =>
    List.rel_append hrequests (.cons ⟨rfl, .same _, rfl, rfl⟩ .nil)
  cases hab with
  | receive => exact .some ⟨rfl, hreceive ..⟩
  | same =>
      cases a with
      | receive e http => exact .some ⟨rfl, hreceive ..⟩
      | handle i now => exact Serving.Alike.handle hrequests hbefore
      | leave i => exact Serving.Alike.leave hrequests i
      | run id a =>
          simp only [Serving.step]
          split
          · exact .none
          · exact Serving.Alike.quiet hrequests _
      | cleanup now =>
          simp only [Serving.step]
          split
          · exact .none
          · exact Serving.Alike.quiet hrequests _
      | verify now http => exact .some ⟨rfl, hrequests⟩
      | inc name =>
          simp only [Serving.step]
          split
          · exact .some ⟨rfl, hrequests⟩
          · exact .none

/-- **No interleaving tells the endpoints apart before `Start` has returned.** Two histories of a server
    that differ in the endpoints of their requests, and take no request beyond the return of `Start`, can be
    run equally far, and then they have left the same server: its runs, its limiter and its counters. -/
theorem endpoints_interchangeable (server : Server X) {as bs : List ServingAction}
    (hab : List.Forall₂ ServingAction.Alike as bs)
    (hbefore : Meets Serving.step BeforeReturn (Serving.new server) as) :
    Option.Rel Serving.Alike (exec Serving.step (Serving.new server) as)
      (exec Serving.step (Serving.new server) bs) := by
  refine exec_lockstep (fun s t a b hst hab hok => hst.step hab hok) hab ?_ hbefore
  exact ⟨rfl, .nil⟩

end Api
end InfrixPlayground
